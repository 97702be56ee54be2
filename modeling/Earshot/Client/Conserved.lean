import Earshot.Client.Loop
import Earshot.Client.Recorder
import Earshot.Common.Run
/-!
# No observation is lost uncounted

A recorder drains into a transport whose coverage sink is the recorder. What was
ever recorded is what the recorder has of it (`Recorder.owed`), what the
payloads that are carried answer for, and what the accepted ones do
(`Balanced`). A payload that is given up hands its weight back to the recorder
as notes (`owed_giveUp`), and the rest of the loop only moves payloads about.

It is so while the recorder has room for the notes it is handed.
-/

namespace Earshot.Client

open Relational

/-! ## What is carried -/

/-- What some payloads answer for. -/
def weights (payloads : List CapturePayload) : ℕ := (payloads.map (·.weight)).sum

@[simp] theorem weights_nil : weights [] = 0 := rfl

@[simp] theorem weights_cons (p : CapturePayload) (payloads : List CapturePayload) :
    weights (p :: payloads) = p.weight + weights payloads := by
  rw [weights, List.map_cons, List.sum_cons]
  rfl

@[simp] theorem weights_append (payloads payloads' : List CapturePayload) :
    weights (payloads ++ payloads') = weights payloads + weights payloads' := by
  rw [weights, List.map_append, List.sum_append]
  rfl

/-- The payloads that were accepted. -/
def Entry.acceptedPayload : Entry → Option CapturePayload
  | .accepted p => some p
  | _ => none

namespace Transport

section Carried

variable {β : Type*}

/-- The retained requests, but for one just accepted. -/
def retained (s : Transport β) (d : Desk) : List CapturePayload :=
  (s.pendingExactRetry.rows.filter fun row =>
    !d.done.any fun p => decide (p.sessionId = row.sessionId)).map (·.payload)

/-- The payload in flight, unless it is a retained request. -/
def inFlight (s : Transport β) (d : Desk) : List CapturePayload :=
  (d.out.filter fun p => (s.exactRetryOf p.sessionId).isNone).toList

/-- **The payloads queued, in flight or retained.** -/
def carried (s : Transport β) (d : Desk) : List CapturePayload :=
  d.held ++ s.inFlight d ++ s.retained d

def acceptedPayloads (s : Transport β) : List CapturePayload :=
  s.history.filterMap Entry.acceptedPayload

variable {s s' : Transport β} {p : CapturePayload} {held : List CapturePayload} {d : Desk}

theorem carried_congr (h : s'.pendingExactRetry = s.pendingExactRetry) :
    s'.carried d = s.carried d := by
  unfold carried inFlight retained
  simp only [exactRetryOf_congr h, h]

theorem inFlight_of_none (h : s.exactRetryOf p.sessionId = none) :
    s.inFlight ⟨held, some p, none⟩ = [p] := by
  rw [inFlight, Option.filter_some, h]
  rfl

theorem inFlight_of_some (h : s.exactRetryOf p.sessionId = some p) :
    s.inFlight ⟨held, some p, none⟩ = [] := by
  rw [inFlight, Option.filter_some, h]
  rfl

theorem retained_of_idle {out : Option CapturePayload} :
    s.retained ⟨held, out, none⟩ = s.pendingExactRetry.rows.map (·.payload) := by
  exact congrArg (List.map _) (List.filter_eq_self.mpr fun _ _ => rfl)

/-- Forgetting a session's request leaves those of the others. -/
theorem retained_forgetRetry (out : Option CapturePayload) :
    (s.forgetRetry p.sessionId).retained ⟨held, out, none⟩ = s.retained ⟨held, none, some p⟩ := by
  rw [retained_of_idle]
  unfold forgetRetry Table.delete retained
  dsimp only [Option.any_some]
  congr 1
  exact List.filter_congr fun row _ => congrArg not (decide_eq_decide.mpr eq_comm)

/-- What a just accepted payload leaves retained. -/
theorem retained_done_of_none (h : s.exactRetryOf p.sessionId = none) :
    s.retained ⟨held, none, some p⟩ = s.pendingExactRetry.rows.map (·.payload) := by
  have hfind : s.pendingExactRetry.find? p.sessionId = none := Option.map_eq_none_iff.mp h
  unfold retained
  rw [List.filter_eq_self.mpr]
  intro row hrow
  have hne := Table.find?_eq_none.mp hfind row hrow
  simpa using fun heq => hne heq.symm

/-- **A retained request and the others** are what is retained. -/
theorem weights_retained_of_some (held : List CapturePayload)
    (h : s.exactRetryOf p.sessionId = some p) :
    weights (s.pendingExactRetry.rows.map (·.payload)) =
      p.weight + weights (s.retained ⟨held, none, some p⟩) := by
  obtain ⟨row, hfind, hrow⟩ := Option.map_eq_some_iff.mp h
  have hperm := ((Table.perm_cons_delete hfind).map (·.payload)).map (·.weight)
  rw [← retained_forgetRetry none, retained_of_idle, weights, hperm.sum_eq, List.map_cons,
    List.map_cons, List.sum_cons, hrow]
  rfl

end Carried

/-! ## The balance -/

/-- **What was recorded is owed, carried or accepted.** -/
def Balanced (s : Transport Recorder) (d : Desk) : Prop :=
  s.coverage.recorded =
    s.coverage.owed + weights (s.carried d) + weights s.acceptedPayloads

/-- The balance, while no note was turned away. -/
def Conserving (s : Transport Recorder) (d : Desk) : Prop :=
  s.coverage.counters.droppedCoverageNotes = 0 → s.Balanced d

variable {o : TransportOptions} {s s' : Transport Recorder} {p : CapturePayload} {d d' : Desk}
  {cause : Cause} {attempts : ℕ} {reported : Option Bool} {track : Bool}

/-- The note of a payload that is given up tells of its observations. -/
theorem lost_uploadNote (cause : Cause) (p : CapturePayload) :
    (uploadNote cause p).lost = p.observations := by
  have hloss : (uploadNote cause p).isLoss = true := by
    have hoverflow :
        LOSS_GAPS.contains ("capture.upload", "partial", QUEUE_OVERFLOW_REASON) = true := by decide
    have hfailed :
        LOSS_GAPS.contains ("capture.upload", "partial", UPLOAD_RESYNC_REASON) = true := by decide
    unfold uploadNote CaptureCoverage.isLoss
    split
    · exact hoverflow
    · exact hfailed
  rw [CaptureCoverage.lost, if_pos hloss]
  rfl

/-- **A payload that is given up hands its weight to the recorder.** -/
theorem owed_giveUp
    (h : (s.giveUp Recorder.recordCoverage o p cause attempts reported track
      ).coverage.counters.droppedCoverageNotes = 0) :
    (s.giveUp Recorder.recordCoverage o p cause attempts reported track).coverage.owed =
        s.coverage.owed + p.weight ∧
      (s.giveUp Recorder.recordCoverage o p cause attempts reported track).coverage.recorded =
        s.coverage.recorded ∧
      s.coverage.counters.droppedCoverageNotes = 0 := by
  have hcoverage : (s.giveUp Recorder.recordCoverage o p cause attempts reported track).coverage =
      (uploadNote cause p :: p.coverage).foldl Recorder.recordCoverage s.coverage := by
    obtain ⟨_, _, hframe⟩ := rememberDroppedDrain_frame o s p
    unfold giveUp
    cases track with
    | false => rfl
    | true =>
        dsimp only
        rw [if_pos rfl, hframe]
        rfl
  rw [hcoverage] at h ⊢
  obtain ⟨howed, hrecorded, hzero⟩ := Recorder.owed_foldl_recordCoverage _ _ h
  refine ⟨?_, hrecorded, hzero⟩
  rw [howed, losses_cons, lost_uploadNote, CapturePayload.weight]

theorem acceptedPayloads_congr (h : s'.history = s.history) :
    s'.acceptedPayloads = s.acceptedPayloads := by
  rw [acceptedPayloads, acceptedPayloads, h]

theorem acceptedPayloads_failed {failure : DeliveryFailure}
    (h : s'.history = .failed p failure :: s.history) :
    s'.acceptedPayloads = s.acceptedPayloads := by
  rw [acceptedPayloads, h]
  rfl

theorem acceptedPayloads_giveUp :
    (s.giveUp Recorder.recordCoverage o p cause attempts reported track).acceptedPayloads =
      s.acceptedPayloads := by
  obtain ⟨_, _, hframe⟩ := rememberDroppedDrain_frame o s p
  unfold giveUp
  cases track with
  | false => rfl
  | true =>
      dsimp only
      rw [if_pos rfl, hframe]
      rfl

/-- **Giving up keeps the balance**, where the desk gives up the payload too. -/
theorem Conserving.giveUp (h : s.Conserving d)
    (hcarried : weights (s.carried d) = p.weight + weights (s.carried d')) :
    (s.giveUp Recorder.recordCoverage o p cause attempts reported track).Conserving d' := by
  intro hzero
  obtain ⟨howed, hrecorded, hzero'⟩ := owed_giveUp hzero
  have hbalance := h hzero'
  unfold Balanced at hbalance ⊢
  rw [howed, hrecorded, acceptedPayloads_giveUp, carried_congr giveUp_pendingExactRetry]
  omega

/-- An operation that moves payloads about keeps the balance. -/
theorem Conserving.moved (h : s.Conserving d) (hcoverage : s'.coverage = s.coverage)
    (hcarried : weights (s'.carried d') + weights s'.acceptedPayloads =
      weights (s.carried d) + weights s.acceptedPayloads) : s'.Conserving d' := by
  intro hzero
  rw [hcoverage] at hzero
  have hbalance := h hzero
  unfold Balanced at hbalance ⊢
  rw [hcoverage]
  omega

@[simp] theorem weight_prepareResync {β : Type*} (s : Transport β) (p : CapturePayload) :
    (s.prepareResync p).weight = p.weight := by
  unfold prepareResync
  split
  · dsimp only
    split <;> rfl
  · rfl

theorem clearResync_coverage {β : Type*} (s : Transport β) (p : CapturePayload) :
    (s.clearResync p).coverage = s.coverage := by
  obtain ⟨_, hframe⟩ := clearResync_frame s p
  rw [hframe]

theorem clearResync_acceptedPayloads (s : Transport Recorder) (p : CapturePayload) :
    (s.clearResync p).acceptedPayloads = s.acceptedPayloads := by
  obtain ⟨_, hframe⟩ := clearResync_frame s p
  rw [hframe]
  rfl

theorem Conserving.retain {held : List CapturePayload} (h : s.Conserving ⟨held, some p, none⟩)
    (hoffered : s.Offered p) :
    (s.retainExactRetry Recorder.recordCoverage o p cause attempts).Conserving
      ⟨held, none, none⟩ := by
  unfold Transport.retainExactRetry
  dsimp only
  rcases rememberExactRetry_cases o hoffered with
    ⟨hretry, heq⟩ | ⟨s', heq, hnone, -, -, hexact, hcoverage, hhistory, -, -⟩ | ⟨hnone, heq⟩
  · rw [heq, if_pos rfl]
    refine h.moved rfl ?_
    rw [acceptedPayloads_failed rfl]
    unfold carried
    rw [inFlight_of_some hretry]
    rfl
  · rw [heq, if_neg Bool.false_ne_true]
    have h' : s'.Conserving ⟨held, some p, none⟩ :=
      h.moved hcoverage (by rw [carried_congr hexact, acceptedPayloads_congr hhistory])
    refine h'.giveUp ?_
    have hnone' : s'.exactRetryOf p.sessionId = none := (exactRetryOf_congr hexact _).trans hnone
    unfold carried
    rw [inFlight_of_none hnone', retained_of_idle, retained_of_idle]
    simp only [inFlight, Option.filter_none, Option.toList_none, weights_append, weights_cons,
      weights_nil]
    omega
  · rw [heq, if_pos rfl]
    refine h.moved rfl ?_
    have hfind : s.pendingExactRetry.find? p.sessionId = none := Option.map_eq_none_iff.mp hnone
    have haccepted : ∀ t, acceptedPayloads { s with pendingExactRetry := t } =
        s.acceptedPayloads := fun _ => rfl
    rw [acceptedPayloads_failed rfl, haccepted]
    unfold carried
    rw [inFlight_of_none hnone, retained_of_idle, retained_of_idle]
    dsimp only
    rw [Table.rows_insert_of_new hfind, List.map_append]
    simp only [inFlight, Option.filter_none, Option.toList_none, weights_append, weights_cons,
      weights_nil, List.map_cons, List.map_nil]
    omega

/-- **The loop conserves observations.** -/
theorem conservingRules (o : TransportOptions) :
    Rules Recorder.recordCoverage o Conserving where
  frame h _ hretry hcoverage hhistory _ := by
    refine h.moved hcoverage ?_
    rw [carried_congr hretry, acceptedPayloads_congr hhistory]
  drop p cause attempts h := by
    refine h.giveUp ?_
    unfold carried
    simp only [inFlight, retained, weights_append, weights_cons]
    omega
  prepare h hnone := by
    refine h.moved rfl ?_
    have hnone' := hnone
    rw [← sessionId_prepareResync (p := _)] at hnone'
    unfold carried
    rw [inFlight_of_none hnone', retained_of_idle, retained_of_idle]
    simp only [inFlight, Option.filter_none, Option.toList_none, weights_append, weights_cons,
      weights_nil, weight_prepareResync]
    omega
  again _ h hretry := by
    refine h.moved rfl ?_
    unfold carried
    rw [inFlight_of_some hretry]
    rfl
  post _ h _ := h.moved rfl rfl
  retain cause attempts _ h hoffered _ := h.retain hoffered
  lose cause attempts h hnone := by
    refine h.giveUp ?_
    unfold carried
    rw [inFlight_of_none hnone, retained_of_idle, retained_of_idle]
    simp only [inFlight, Option.filter_none, Option.toList_none, weights_append, weights_cons,
      weights_nil]
    omega
  reject {s held p} cause attempts _ h hretry := by
    have hgiveUp : Conserving (s.giveUp Recorder.recordCoverage o p cause attempts none true)
        ⟨held, none, some p⟩ := by
      refine h.giveUp ?_
      unfold carried
      rw [inFlight_of_some hretry, retained_of_idle]
      simp only [weights_append, weights_nil, weights_retained_of_some held hretry,
        inFlight, Option.filter_none, Option.toList_none]
      omega
    refine hgiveUp.moved rfl ?_
    unfold carried
    rw [retained_forgetRetry]
    rfl
  accept {s held p} _ h hoffered := by
    refine h.moved rfl ?_
    have haccepted : weights (acceptedPayloads { s with history := .accepted p :: s.history }) =
        p.weight + weights s.acceptedPayloads := weights_cons p s.acceptedPayloads
    have hcarried : carried { s with history := .accepted p :: s.history } ⟨held, none, some p⟩ =
        s.carried ⟨held, none, some p⟩ := carried_congr rfl
    rw [haccepted, hcarried]
    unfold carried
    rcases hoffered with hnone | hsome
    · rw [inFlight_of_none hnone, retained_done_of_none hnone, retained_of_idle]
      simp only [inFlight, Option.filter_none, Option.toList_none, weights_append, weights_cons,
        weights_nil]
      omega
    · rw [inFlight_of_some hsome, retained_of_idle]
      simp only [weights_append, weights_nil, weights_retained_of_some held hsome,
        inFlight, Option.filter_none, Option.toList_none]
      omega
  settle h hnone := by
    refine h.moved (clearResync_coverage _ _) ?_
    rw [clearResync_acceptedPayloads, carried_congr (clearResync_pendingExactRetry _ _)]
    unfold carried
    rw [retained_done_of_none hnone, retained_of_idle]
    rfl
  release _ h hretry := by
    refine h.moved (clearResync_coverage _ _) ?_
    rw [clearResync_acceptedPayloads, carried_congr (clearResync_pendingExactRetry _ _)]
    unfold carried
    rw [retained_forgetRetry]
    rfl

end Transport

/-! ## The recorder and its transport -/

/-- What happens to the two. -/
inductive CaptureEvent where
  | observe (observation : Observation)
  /-- The host records a gap of its own. -/
  | note (note : CaptureCoverage)
  /-- The recorder is drained and the payload sent. -/
  | drain (serializes : Bool)
  | transport (event : Transport.Event)
  deriving DecidableEq, Repr

namespace Transport

variable (o : TransportOptions)

/-- **One event.** The host's notes are of gaps of its own, and it sends nothing
but what it drained. -/
def captureStep (s : Transport Recorder) : CaptureEvent → Option (Transport Recorder)
  | .observe observation => some { s with coverage := s.coverage.observe observation }
  | .note note =>
      if note.isLoss then none else some { s with coverage := s.coverage.recordCoverage note }
  | .drain serializes =>
      some (({ s with coverage := s.coverage.drain.1 } : Transport Recorder).send
        Recorder.recordCoverage o s.coverage.drain.2 serializes)
  | .transport event =>
      if event.payload.isSome then none else s.step Recorder.recordCoverage o event

/-- The event hands the recorder no note it has no room for. -/
def HasRoom (s : Transport Recorder) (event : CaptureEvent) : Prop :=
  (Transition.next (captureStep o) s event).coverage.counters.droppedCoverageNotes = 0

instance (s : Transport Recorder) (event : CaptureEvent) : Decidable (s.HasRoom o event) :=
  inferInstanceAs (Decidable (_ = _))

/-- **What was recorded**: in the payloads accepted, queued, in flight or
retained, buffered, or lost and counted, in a note of these payloads, in a
pending note or in a counter. -/
def Conserved (s : Transport Recorder) : Prop :=
  s.coverage.recorded =
    ((s.acceptedPayloads ++ s.carried s.desk).map (·.observations)).sum + s.coverage.buffered +
      losses ((s.acceptedPayloads ++ s.carried s.desk).flatMap (·.coverage)) +
      losses s.coverage.pendingCoverage + s.coverage.counters.droppedSnapshots +
      s.coverage.counters.droppedDeviceEvents

theorem weights_eq (payloads : List CapturePayload) :
    weights payloads =
      (payloads.map (·.observations)).sum + losses (payloads.flatMap (·.coverage)) := by
  induction payloads with
  | nil => rfl
  | cons p payloads ih =>
      rw [weights_cons, ih, CapturePayload.weight, List.map_cons, List.sum_cons, List.flatMap_cons,
        losses_append]
      omega

theorem Balanced.conserved {s : Transport Recorder} (h : s.Balanced s.desk) : s.Conserved := by
  unfold Balanced Recorder.owed at h
  unfold Conserved
  have hweights := weights_eq (s.acceptedPayloads ++ s.carried s.desk)
  rw [weights_append] at hweights
  omega

variable {o}

/-- **One event keeps the balance**, if there is room for its notes. -/
theorem Kept.captureStep {s s' : Transport Recorder} {event : CaptureEvent}
    (h : Kept Conserving s) (hzero : s.coverage.counters.droppedCoverageNotes = 0)
    (hroom : s'.coverage.counters.droppedCoverageNotes = 0)
    (hstep : s.captureStep o event = some s') : Kept Conserving s' := by
  have hbalance := h.holds hzero
  unfold Balanced at hbalance
  cases event with
  | observe observation =>
      obtain rfl := Option.some.inj hstep
      refine ⟨h.coherent.congr rfl rfl rfl, fun _ => ?_⟩
      have hcarried : carried { s with coverage := s.coverage.observe observation } s.desk =
          s.carried s.desk := rfl
      have howed := s.coverage.owed_observe observation
      change (s.coverage.observe observation).recorded = (s.coverage.observe observation).owed +
        weights (s.carried s.desk) + weights s.acceptedPayloads
      omega
  | note note =>
      rw [Transport.captureStep] at hstep
      split at hstep
      · cases hstep
      · next hloss =>
        obtain rfl := Option.some.inj hstep
        refine ⟨h.coherent.congr rfl rfl rfl, fun _ => ?_⟩
        have howed := Recorder.owed_recordCoverage hroom
        rw [show note.lost = 0 from if_neg hloss, Nat.add_zero] at howed
        change (s.coverage.recordCoverage note).recorded = (s.coverage.recordCoverage note).owed +
          weights (s.carried s.desk) + weights s.acceptedPayloads
        rw [howed, Recorder.recorded_recordCoverage]
        exact hbalance
  | drain serializes =>
      obtain rfl := Option.some.inj hstep
      have henter : Conserving
          { s with coverage := s.coverage.drain.1, sent := s.coverage.drain.2 :: s.sent }
          ⟨s.desk.held ++ [s.coverage.drain.2], s.desk.out, s.desk.done⟩ := by
        intro _
        change s.coverage.recorded = Recorder.owed s.coverage.drain.1 +
          weights (s.desk.held ++ [s.coverage.drain.2] ++ s.inFlight s.desk ++ s.retained s.desk) +
            weights s.acceptedPayloads
        unfold carried at hbalance
        simp only [weights_append, weights_cons, weights_nil, Recorder.weight_drain,
          Recorder.owed_drain] at hbalance ⊢
        omega
      refine (conservingRules o).send serializes (h.coherent.congr rfl rfl rfl) henter
        fun _ _ => henter.giveUp ?_
      change weights (s.desk.held ++ [s.coverage.drain.2] ++ s.inFlight s.desk ++
        s.retained s.desk) = _ + weights (s.desk.held ++ s.inFlight s.desk ++ s.retained s.desk)
      simp only [weights_append, weights_cons, weights_nil]
      omega
  | transport event =>
      rw [Transport.captureStep] at hstep
      split at hstep
      · cases hstep
      · next hsend =>
        refine (conservingRules o).step h (fun p serializes hevent => ?_) hstep
        rw [hevent] at hsend
        exact absurd rfl hsend

theorem kept_new (captureVersion : ℕ) (sessionId : String) (maxSnapshots maxDeviceEvents : ℕ) :
    Kept Conserving (init (.new captureVersion sessionId maxSnapshots maxDeviceEvents)) where
  coherent := ⟨fun _ h => absurd h List.not_mem_nil, fun _ => rfl,
    fun _ h => (by cases h), fun _ h => (by cases h)⟩
  holds _ := rfl

/-- **Observations are conserved** in every run that never hands the recorder
more distinct notes between two drains than it has room for, whatever the bounds
of its buffers and of the transport. -/
theorem observations_conserved (o : TransportOptions) (captureVersion : ℕ) (sessionId : String)
    (maxSnapshots maxDeviceEvents : ℕ) (events : List CaptureEvent)
    (hroom : Transition.Guarded (captureStep o) (HasRoom o)
      (init (.new captureVersion sessionId maxSnapshots maxDeviceEvents)) events) :
    Conserved (Transition.run (captureStep o)
      (init (.new captureVersion sessionId maxSnapshots maxDeviceEvents)) events) := by
  obtain ⟨hkept, hzero⟩ := Transition.Guarded.induction
    (P := fun s => Kept Conserving s ∧ s.coverage.counters.droppedCoverageNotes = 0)
    (fun s event s' hroom h hstep => by
      have hroom' : s'.coverage.counters.droppedCoverageNotes = 0 := by
        rw [HasRoom, Transition.next_of_some hstep] at hroom
        exact hroom
      exact ⟨h.1.captureStep h.2 hroom' hstep, hroom'⟩)
    events _ hroom ⟨kept_new captureVersion sessionId maxSnapshots maxDeviceEvents, rfl⟩
  exact (hkept.holds hzero).conserved

/-- A device event is overwritten in a buffer of one, the drain that says so is
rejected, and its own notes are drained again. -/
theorem observations_conserved_rejected :
    Conserved (Transition.run (captureStep ⟨8, 32, 1, by decide, by decide, by decide⟩)
      (init (.new 2 "s" 0 1))
      [.observe (.deviceEvent "a"), .observe (.deviceEvent "b"),
        .observe (.snapshot "c" true false false), .drain true,
        .transport (.fetched (.response 400 false)), .transport .resumed,
        .observe (.deviceEvent "d"), .drain true, .transport (.fetched (.response 200 true))]) :=
  observations_conserved _ 2 "s" 0 1 _ (by decide +kernel)

end Transport

end Earshot.Client
