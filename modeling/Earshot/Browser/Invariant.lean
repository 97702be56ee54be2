import Earshot.Browser.Accepting
/-!
# The invariant of a run

Three things hold however drains and restarts are ordered. The ring holds
the latest drain and only applied ones (`RingOf`); the call's ledger is one
a reader takes (`LedgerOf`); and the journal replays into the recorder's
lists, but for the facts the recorder lost when it was rebuilt (`Kept`).
-/

namespace Earshot

/-! ## The ring -/

/-- The digests remembered of the drains up to the one applied. -/
structure RingOf (digests : List DrainIdentity) (applied : ℕ) : Prop where
  ordered : digests.Pairwise (·.sequence < ·.sequence)
  within : ∀ d ∈ digests, 1 ≤ d.sequence ∧ d.sequence ≤ applied
  bounded : digests.length ≤ DIGEST_RING_SIZE
  latest : 0 < applied → ∃ d ∈ digests, d.sequence = applied

theorem ringOf_nil : RingOf [] 0 :=
  ⟨.nil, by simp, by simp [DIGEST_RING_SIZE], fun h => absurd h (Nat.lt_irrefl 0)⟩

namespace RingOf

variable {digests : List DrainIdentity} {applied : ℕ} {identity : DrainIdentity}

/-- The latest is never what remembering drops. -/
theorem mem_rememberDigest : identity ∈ rememberDigest digests identity := by
  have hlt : digests.length + 1 - DIGEST_RING_SIZE ≤ digests.length := by
    simp only [DIGEST_RING_SIZE]
    omega
  simp only [rememberDigest, List.length_append, List.length_singleton]
  rw [List.drop_append_of_le_length hlt]
  exact List.mem_append_right _ (List.mem_singleton.mpr rfl)

theorem remember (h : RingOf digests applied) (hlt : applied < identity.sequence) :
    RingOf (rememberDigest digests identity) identity.sequence where
  ordered := by
    refine List.Pairwise.sublist (List.drop_sublist _ _) ?_
    rw [List.pairwise_append]
    refine ⟨h.ordered, List.pairwise_singleton _ _, fun d hd e he => ?_⟩
    rw [List.mem_singleton.mp he]
    exact (h.within d hd).2.trans_lt hlt
  within := by
    intro d hd
    rcases List.mem_append.mp (List.mem_of_mem_drop hd) with hd | hd
    · have hwithin := h.within d hd
      omega
    · rw [List.mem_singleton.mp hd]
      omega
  bounded := by
    simp only [rememberDigest, List.length_append, List.length_singleton, List.length_drop]
    omega
  latest := fun _ => ⟨identity, mem_rememberDigest, rfl⟩

/-- Rebuilding sorts what is in order. -/
theorem insertionSort_eq (h : RingOf digests applied) :
    digests.insertionSort (fun a b => a.sequence ≤ b.sequence) = digests :=
  (h.ordered.imp fun hlt => hlt.le).insertionSort_eq

end RingOf

namespace CallRun

variable {Carry : Type} {C : CaptureConfig Carry} {s s' : CallRun Carry} {drain : CaptureDrain}

/-! ## An accepted drain -/

/-- The entries of the drains accepted since the last restart. -/
def current (s : CallRun Carry) : List JournalEntry :=
  (s.accepted.filter (·.restarts = s.restarts)).flatMap (·.entries)

/-- **An accepted drain**: next in sequence, recorded, and taken. -/
theorem accept_cases (h : s.accept C drain = some s') :
    ∃ decision call, s.call.classify C drain = .ok decision ∧ decision ≠ .replay ∧
      s.call.finalized = false ∧ s.call.project C drain decision = (true, call) ∧
      s.takes C call.turn.recorder.newEntries = true ∧
      s'.call.applied = drain.drainSequence ∧
      s'.call.digests = rememberDigest call.digests (s.call.identityOf C drain) ∧
      s'.call = { (call.settle drain (s.call.identityOf C drain)).2 with
        outcomes := s'.call.outcomes } ∧
      s'.accepted = s.accepted ++
        [⟨s.call, drain, decision, call.turn.recorder.newEntries, s.restarts⟩] ∧
      s'.restarts = s.restarts := by
  unfold accept at h
  split at h
  · cases h
  · cases h
  · next decision hne hclassify =>
    split at h
    · cases h
    · next hfin =>
      split at h
      · cases h
      · next call hproject =>
        dsimp only [CaptureCall.settle, Recorder.takeNew] at h
        split at h
        · next htakes =>
          cases h
          exact ⟨decision, call, hclassify, fun he => hne (he ▸ rfl),
            Bool.eq_false_iff.mpr hfin, hproject, htakes, rfl, rfl, rfl, rfl, rfl⟩
        · cases h

theorem entries_of_accepted {a : Accepted Carry} (h : s'.accepted = s.accepted ++ [a]) :
    s'.entries = s.entries ++ a.entries := by
  unfold entries
  rw [h, List.flatMap_append, List.flatMap_singleton]

/-! ## The journal -/

/-- What the call has recorded, journaled or about to be. -/
def recorded (s : CallRun Carry) : List JournalEntry :=
  s.entries ++ s.call.turn.recorder.newEntries

/-- The journal replays into the recorder's lists, but for the facts of the
drains before the last restart. -/
structure Kept (C : CaptureConfig Carry) (s : CallRun Carry) : Prop where
  newEntries : s.call.turn.recorder.newEntries =
    if s.accepted = [] then (Recorder.opened C.recorder).newEntries else []
  opening : (Recorder.opened C.recorder).newEntries <+: s.recorded
  replays : ∃ t, Replay.empty.applyEach saturatingAdd s.recorded = some t ∧
    t.coverage = s.call.turn.recorder.coverage ∧
    t.adapters = (Recorder.opened C.recorder).adapters ∧
    t.clockDomains = (Recorder.opened C.recorder).clockDomains
  adapters : s.call.turn.recorder.adapters = (Recorder.opened C.recorder).adapters
  clockDomains : s.call.turn.recorder.clockDomains = (Recorder.opened C.recorder).clockDomains
  events : s.call.turn.recorder.events =
    (factsOf s.current).filter (·.kind = .event)
  qualitySamples : s.call.turn.recorder.qualitySamples =
    (factsOf s.current).filter (·.kind ≠ .event)
  omissions : s.call.turn.recorder.omissions = (factsOf s.current).flatMap (·.omissions)
  limits : (∀ e, .limit e ∉ s.recorded) → s.call.turn.recorder.limits = .zero
  ordered : (factsOf s.recorded).Pairwise (·.sequence < ·.sequence)
  within : ∀ f ∈ factsOf s.recorded, f.sequence ≤ s.call.turn.sequence
  unclosed : s.call.finalized = false → s.call.turn.recorder.closed = false

theorem kept_of_opened (haccepted : s.accepted = [])
    (hturn : s.call.turn = ⟨.opened C.recorder, 0⟩) : Kept C s := by
  obtain ⟨hheld, hfacts, hfinal, hhead, hcov, hevents, hsamples, homissions, hclosed⟩ :=
    Recorder.opened_spec C.recorder
  have hentries : s.entries = [] := by simp [entries, haccepted]
  have hcurrent : s.current = [] := by simp [current, haccepted]
  have hrecorded : s.recorded = (Recorder.opened C.recorder).newEntries := by
    simp [recorded, hentries, hturn]
  have hreplays := Replay.replays_of_applyEach hheld
  constructor
  · rw [if_pos haccepted, hturn]
  · exact hrecorded ▸ List.prefix_rfl
  · exact ⟨_, by rw [hrecorded, hheld], (congrArg (·.recorder.coverage) hturn).symm, rfl, rfl⟩
  · rw [hturn]
  · rw [hturn]
  · rw [hturn, hcurrent]
    exact hevents
  · rw [hturn, hcurrent]
    exact hsamples
  · rw [hturn, hcurrent]
    exact homissions
  · intro hlimit
    rw [hturn]
    rw [hrecorded] at hlimit
    exact hreplays.limits hlimit
  · rw [hrecorded, hfacts]
    exact .nil
  · rw [hrecorded, hfacts]
    simp
  · intro _
    rw [hturn]
    exact hclosed

/-- **What an accepted drain journals.** The opening, if it is the first;
what was logged; and the finalize entry, if it ended the call. -/
theorem Kept.project_spec {decision : Decision} {call : CaptureCall Carry} (hk : Kept C s)
    (hfin : s.call.finalized = false) (h : s.call.project C drain decision = (true, call)) :
    ∃ t logged, CaptureCall.Projects s.call call t ∧ s.call.turn.Logs t logged ∧
      call.turn = { t with
        recorder := { t.recorder with
          newEntries := s.call.turn.recorder.newEntries ++ logged ++
            call.closing drain t.recorder
          closed := drain.finalizes } } := by
  obtain ⟨t, hp, hturn, -⟩ := CaptureCall.projects_project h
  obtain ⟨logged, hlogs⟩ := hp.logs
  refine ⟨t, logged, hp, hlogs, ?_⟩
  rw [hturn, CaptureCall.closedTurn_eq (hlogs.recorder.closed.trans (hk.unclosed hfin)),
    hlogs.recorder.newEntries]

theorem current_of_accepted {a : Accepted Carry} (h : s'.accepted = s.accepted ++ [a])
    (hrestarts : s'.restarts = s.restarts) (ha : a.restarts = s.restarts) :
    s'.current = s.current ++ a.entries := by
  unfold current
  rw [h, hrestarts, List.filter_append, List.flatMap_append]
  congr 1
  rw [List.filter_singleton]
  simp [ha]

/-- Nothing an opening holds is a fact. -/
theorem Kept.factsOf_newEntries (hk : Kept C s) :
    factsOf s.call.turn.recorder.newEntries = [] := by
  rw [hk.newEntries]
  split
  · exact (Recorder.opened_spec C.recorder).2.1
  · rfl

theorem Kept.finalizeOf_newEntries (hk : Kept C s) :
    finalizeOf s.call.turn.recorder.newEntries = none := by
  rw [hk.newEntries]
  split
  · exact (Recorder.opened_spec C.recorder).2.2.1
  · rfl

theorem Kept.accept (hk : Kept C s) (hs : s.accept C drain = some s') : Kept C s' := by
  obtain ⟨decision, call, -, -, hfin, hproject, -, -, -, hcall, haccepted, hrestarts⟩ :=
    accept_cases hs
  obtain ⟨t, logged, hp, hlogs, hturn⟩ := hk.project_spec hfin hproject
  obtain ⟨t₀, ht₀, hcov, hadapters, hclocks⟩ := hk.replays
  have hnew : call.turn.recorder.newEntries =
      s.call.turn.recorder.newEntries ++ logged ++ call.closing drain t.recorder := by
    rw [hturn]
  have hentries : s'.entries = s.recorded ++ logged ++ call.closing drain t.recorder := by
    rw [entries_of_accepted haccepted, hnew]
    simp only [recorded, List.append_assoc]
  have hrecorded : s'.recorded = s.recorded ++ logged ++ call.closing drain t.recorder := by
    rw [recorded, hentries, hcall]
    exact List.append_nil _
  have hcurrent : factsOf s'.current = factsOf s.current ++ factsOf logged := by
    rw [current_of_accepted haccepted hrestarts rfl, hnew, Replay.factsOf_append,
      Replay.factsOf_append, Replay.factsOf_append, hk.factsOf_newEntries,
      CaptureCall.factsOf_closing, List.nil_append, List.append_nil]
  have hfacts : factsOf s'.recorded = factsOf s.recorded ++ factsOf logged := by
    rw [hrecorded, Replay.factsOf_append, Replay.factsOf_append, CaptureCall.factsOf_closing,
      List.append_nil]
  have hreplays := Replay.replays_of_applyEach hlogs.recorder.held
  have hcount (e : JournalEntry) (he : ¬ e.Recorded) : logged.count e = 0 :=
    List.count_eq_zero.mpr fun hmem => he (hlogs.recorder.recorded e hmem)
  obtain ⟨t₁, ht₁⟩ : ∃ t₁, t₀.applyEach saturatingAdd logged = some t₁ :=
    Replay.applyEach_of_coverage hcov hlogs.recorder.held
  have hreplays₁ := Replay.replays_of_applyEach ht₁
  have hturn' : s'.call.turn = ⟨{ t.recorder with
      newEntries := []
      closed := drain.finalizes }, t.sequence⟩ := by
    rw [hcall]
    dsimp only [CaptureCall.settle, Recorder.takeNew]
    rw [hturn]
  have hadd : t.recorder.adapters = s.call.turn.recorder.adapters := by
    have := hreplays.adapters
    rwa [hcount .adapter id, Nat.add_zero] at this
  have hclk : t.recorder.clockDomains = s.call.turn.recorder.clockDomains := by
    have := hreplays.clockDomains
    rwa [hcount .clockDomain id, Nat.add_zero] at this
  constructor
  · rw [hturn', haccepted, if_neg (by simp)]
  · rw [hrecorded, List.append_assoc]
    exact hk.opening.trans (List.prefix_append _ _)
  · refine ⟨t₁, ?_, ?_, ?_, ?_⟩
    · rw [hrecorded]
      exact Replay.applyEach_trans (Replay.applyEach_trans ht₀ ht₁)
        (CaptureCall.applyEach_closing _ _ _ _ _)
    · rw [hturn']
      exact hreplays₁.coverage.trans (by rw [hcov]; exact hreplays.coverage.symm)
    · rw [hreplays₁.adapters, hcount .adapter id, Nat.add_zero, hadapters]
    · rw [hreplays₁.clockDomains, hcount .clockDomain id, Nat.add_zero, hclocks]
  · rw [hturn']
    exact hadd.trans hk.adapters
  · rw [hturn']
    exact hclk.trans hk.clockDomains
  · rw [hturn', hcurrent, List.filter_append, ← hk.events]
    exact hreplays.events
  · rw [hturn', hcurrent, List.filter_append, ← hk.qualitySamples]
    exact hreplays.qualitySamples
  · rw [hturn', hcurrent, List.flatMap_append, ← hk.omissions]
    exact hreplays.omissions
  · intro hlimit
    rw [hrecorded] at hlimit
    rw [hturn']
    refine (hreplays.limits fun e he => hlimit e ?_).trans (hk.limits fun e he => hlimit e ?_)
    · exact List.mem_append_left _ (List.mem_append_right _ he)
    · exact List.mem_append_left _ (List.mem_append_left _ he)
  · rw [hfacts, List.pairwise_append]
    refine ⟨hk.ordered, hlogs.ordered, fun f hf g hg => ?_⟩
    have hle := hk.within f hf
    have hlt := (hlogs.within g hg).1
    omega
  · intro f hf
    rw [hturn']
    rw [hfacts, List.mem_append] at hf
    rcases hf with hf | hf
    · exact (hk.within f hf).trans hlogs.le
    · exact (hlogs.within f hf).2
  · intro hopen
    rw [hturn']
    rw [hcall] at hopen
    exact hopen

/-! ## The frames -/

theorem framesFrom_append {encodeFrame : ℕ → JournalEntry → Option Bytes}
    {entries entries' : List JournalEntry} {frames frames' : Bytes} {sequence : ℕ}
    (h : framesFrom encodeFrame sequence entries = some frames)
    (h' : framesFrom encodeFrame (sequence + entries.length) entries' = some frames') :
    framesFrom encodeFrame sequence (entries ++ entries') = some (frames ++ frames') := by
  induction entries generalizing sequence frames with
  | nil =>
      cases h
      exact h'
  | cons entry entries ih =>
      obtain ⟨frame, hframe, hrest⟩ := Option.bind_eq_some_iff.mp h
      obtain ⟨rest, htail, rfl⟩ := Option.map_eq_some_iff.mp hrest
      have hlength : sequence + 1 + entries.length = sequence + (entry :: entries).length := by
        rw [List.length_cons]
        omega
      rw [List.cons_append, framesFrom, hframe, Option.bind_some, ih htail (hlength ▸ h')]
      simp

theorem framesFrom_of_frameEntries {entries : List JournalEntry} {frames : Bytes} {sequence : ℕ}
    (h : C.frameEntries sequence entries = .ok frames) :
    framesFrom C.codec.encodeFrame sequence entries = some frames := by
  induction entries generalizing sequence frames with
  | nil =>
      cases h
      rfl
  | cons entry entries ih =>
      unfold CaptureConfig.frameEntries at h
      split at h
      · cases h
      · split at h
        · cases h
        · next frame hframe =>
          cases hrest : C.frameEntries (sequence + 1) entries with
          | error e =>
              rw [hrest] at h
              cases h
          | ok rest =>
              rw [hrest] at h
              cases h
              rw [framesFrom, hframe, Option.bind_some, ih hrest]
              rfl

/-- The journal is framed, within its byte limit. -/
def Framed (C : CaptureConfig Carry) (s : CallRun Carry) : Prop :=
  ∃ bytes, s.journal C = some bytes ∧ bytes.length ≤ C.maxCaptureJournalBytes

theorem framed_of_takes {entries : List JournalEntry} (h : s.takes C entries = true) :
    ∃ bytes frames, s.journal C = some bytes ∧
      C.frameEntries (s.entries.length + 1) entries = .ok frames ∧
      framesFrom C.codec.encodeFrame 1 (s.entries ++ entries) = some (bytes ++ frames) ∧
      (bytes ++ frames).length ≤ C.maxCaptureJournalBytes := by
  unfold takes at h
  rw [Bool.and_eq_true] at h
  have hframes := h.2
  split at hframes
  · next frames bytes hok hjournal =>
    refine ⟨bytes, frames, hjournal, hok, ?_, ?_⟩
    · refine framesFrom_append hjournal ?_
      rw [Nat.add_comm]
      exact framesFrom_of_frameEntries hok
    · rw [List.length_append]
      simpa using hframes
  · cases hframes

theorem Framed.accept (hs : s.accept C drain = some s') : Framed C s' := by
  obtain ⟨decision, call, -, -, -, -, htakes, -, -, -, haccepted, -⟩ := accept_cases hs
  obtain ⟨bytes, frames, -, -, hjournal, hlength⟩ := framed_of_takes htakes
  exact ⟨bytes ++ frames, by rw [journal, entries_of_accepted haccepted, hjournal], hlength⟩

/-! ## The ledger -/

/-- The call's ledger, as its run has it. -/
structure LedgerOf (C : CaptureConfig Carry) (s : CallRun Carry) : Prop where
  ring : RingOf s.call.digests s.call.applied
  span : CaptureCall.SpanOrdered s.call.firstObservedMs s.call.lastObservedMs
  fence : ∀ r, s.call.retry = some r → s.call.applied < r.sequence ∧ s.call.finalized = false
  bound : s.call.callMetadataBound = true
  finalized : s.call.finalized = closeObserved s.entries
  fresh : s.accepted = [] →
    ∃ drain retry, s.call = { CaptureCall.fresh C drain true with retry := retry }
  latest : ∀ a, s.accepted.getLast? = some a →
    a.before.identityOf C a.drain ∈ s.call.digests ∧ a.drain.drainSequence = s.call.applied ∧
      0 < s.call.applied
  restarts : ∀ a ∈ s.accepted, a.restarts ≤ s.restarts

theorem ledgerOf_opened (drain : CaptureDrain) : LedgerOf C (opened C drain) where
  ring := ringOf_nil
  span := .inl ⟨rfl, rfl⟩
  fence := by simp [opened, CaptureCall.fresh]
  bound := rfl
  finalized := rfl
  fresh := fun _ => ⟨drain, none, rfl⟩
  latest := by simp [opened]
  restarts := by simp [opened]

/-- What the sequencing lets through is past the drain applied. -/
theorem applied_lt_of_classify {call : CaptureCall Carry} {decision : Decision}
    (h : call.classify C drain = .ok decision) (hne : decision ≠ .replay) :
    call.applied < drain.drainSequence := by
  unfold CaptureCall.classify at h
  dsimp only at h
  split at h
  · cases h
  · split at h
    · split at h
      · cases h
        exact absurd rfl hne
      · cases h
    · omega

theorem LedgerOf.accept (h : LedgerOf C s) (hk : Kept C s) (hs : s.accept C drain = some s') :
    LedgerOf C s' := by
  obtain ⟨decision, call, hclassify, hne, hfin, hproject, -, happlied, hdigests, hcall, haccepted,
    hrestarts⟩ := accept_cases hs
  obtain ⟨t, logged, hp, hlogs, hturn⟩ := hk.project_spec hfin hproject
  have hlt := applied_lt_of_classify hclassify hne
  constructor
  · rw [happlied, hdigests, hp.recorded.digests]
    exact h.ring.remember hlt
  · rw [hcall]
    exact hp.span h.span
  · intro r hr
    rw [hcall] at hr
    cases hr
  · rw [hcall]
    exact hp.recorded.callMetadataBound.trans h.bound
  · have hopen : finalizeOf s.entries = none := by
      rw [h.finalized] at hfin
      exact Option.not_isSome_iff_eq_none.mp (Bool.eq_false_iff.mp hfin)
    rw [hcall, closeObserved, entries_of_accepted haccepted, hturn,
      finalizeOf_append_of_none hopen, List.append_assoc,
      finalizeOf_append_of_none hk.finalizeOf_newEntries,
      finalizeOf_append_of_none (finalizeOf_of_recorded hlogs.recorder.recorded),
      CaptureCall.finalizeOf_closing]
    rfl
  · rw [haccepted]
    simp
  · intro a ha
    rw [haccepted, List.getLast?_concat] at ha
    cases ha
    rw [hdigests, happlied]
    exact ⟨RingOf.mem_rememberDigest, rfl, Nat.zero_lt_of_lt hlt⟩
  · intro a ha
    rw [hrestarts]
    rw [haccepted] at ha
    rcases List.mem_append.mp ha with ha | ha
    · exact h.restarts a ha
    · rw [List.mem_singleton.mp ha]

/-! ## Restarts -/

theorem restart_cases {retry : Option DrainIdentity} (h : s.restart C drain retry = some s') :
    (∀ r, retry = some r → s.call.applied < r.sequence ∧ s.call.finalized = false) ∧
      s'.accepted = s.accepted ∧ s'.restarts = s.restarts + 1 ∧
      ((s.accepted = [] ∧
          s'.call = { CaptureCall.fresh C drain true with retry := retry }) ∨
        (s.accepted ≠ [] ∧ drain.callMetadataDigest C.hash = s.call.callMetadataDigest ∧
          s'.call = .rebuild C drain { s.call.ledger with retry := retry } s.entries
            (closeObserved s.entries))) := by
  unfold restart at h
  split at h
  · cases h
  · next hretry =>
    have hfence (r : DrainIdentity) (hr : retry = some r) :
        s.call.applied < r.sequence ∧ s.call.finalized = false := by
      simpa [hr] using hretry
    split at h
    · next hempty =>
      cases h
      exact ⟨hfence, rfl, rfl, .inl ⟨hempty, rfl⟩⟩
    · next hne =>
      split at h
      · next hdigest =>
        cases h
        exact ⟨hfence, rfl, rfl, .inr ⟨hne, hdigest, rfl⟩⟩
      · cases h

theorem LedgerOf.restart {retry : Option DrainIdentity} (h : LedgerOf C s)
    (hs : s.restart C drain retry = some s') : LedgerOf C s' := by
  obtain ⟨hfence, haccepted, hrestarts, ⟨hempty, hcall⟩ | ⟨hne, -, hcall⟩⟩ := restart_cases hs
  · have hclosed : closeObserved s'.entries = false := by
      simp [entries, haccepted, hempty, closeObserved, finalizeOf]
    have happlied : s.call.applied = 0 := by
      obtain ⟨d, r, hfresh⟩ := h.fresh hempty
      rw [hfresh]
      rfl
    constructor
    · rw [hcall]
      exact ringOf_nil
    · rw [hcall]
      exact .inl ⟨rfl, rfl⟩
    · intro r hr
      rw [hcall] at hr ⊢
      have hlt := (hfence r hr).1
      rw [happlied] at hlt
      exact ⟨hlt, rfl⟩
    · rw [hcall]
      rfl
    · rw [hcall, hclosed]
      rfl
    · exact fun _ => ⟨drain, retry, hcall⟩
    · simp [haccepted, hempty]
    · simp [haccepted, hempty]
  · have hentries : s'.entries = s.entries := by simp [entries, haccepted]
    have hdigests : s'.call.digests = s.call.digests := by
      rw [hcall]
      exact h.ring.insertionSort_eq
    have happlied : s'.call.applied = s.call.applied := by rw [hcall]; rfl
    constructor
    · rw [hdigests, happlied]
      exact h.ring
    · rw [hcall]
      exact h.span
    · intro r hr
      rw [hcall] at hr
      obtain ⟨hlt, hfin⟩ := hfence r hr
      refine ⟨happlied ▸ hlt, ?_⟩
      rw [hcall, ← hfin]
      exact h.finalized.symm
    · rw [hcall]
      exact h.bound
    · rw [hcall, hentries]
      rfl
    · intro hempty
      exact absurd (haccepted ▸ hempty) hne
    · rw [haccepted, hdigests, happlied]
      exact h.latest
    · intro a ha
      rw [hrestarts]
      exact (h.restarts a (haccepted ▸ ha)).trans (Nat.le_succ _)

theorem le_maxFactSequence {entries : List JournalEntry} {f : Fact} (h : f ∈ factsOf entries) :
    f.sequence ≤ maxFactSequence entries := by
  have hfold (facts : List Fact) (highest : ℕ) :
      highest ≤ facts.foldl (fun highest f => max highest f.sequence) highest ∧
        ∀ f ∈ facts, f.sequence ≤
          facts.foldl (fun highest f => max highest f.sequence) highest := by
    induction facts generalizing highest with
    | nil => simp
    | cons g facts ih =>
        obtain ⟨hle, hall⟩ := ih (max highest g.sequence)
        rw [List.foldl_cons]
        refine ⟨(le_max_left _ _).trans hle, fun f hf => ?_⟩
        rcases List.mem_cons.mp hf with rfl | hf
        · exact (le_max_right _ _).trans hle
        · exact hall f hf
  exact (hfold _ 0).2 f h

theorem Kept.restart {retry : Option DrainIdentity} (hk : Kept C s) (h : LedgerOf C s)
    (hs : s.restart C drain retry = some s') : Kept C s' := by
  obtain ⟨-, haccepted, hrestarts, ⟨hempty, hcall⟩ | ⟨hne, -, hcall⟩⟩ := restart_cases hs
  · exact kept_of_opened (haccepted.trans hempty) (by rw [hcall]; rfl)
  · obtain ⟨hheld, hfacts, -, -, hcov, hevents, hsamples, homissions, hclosed⟩ :=
      Recorder.opened_spec C.recorder
    have hold : s.recorded = s.entries := by
      rw [recorded, hk.newEntries, if_neg hne, List.append_nil]
    have hentries : s'.entries = s.entries := by simp [entries, haccepted]
    have hrecorded : s'.recorded = s.entries := by
      rw [recorded, hentries, hcall]
      exact List.append_nil _
    have hcurrent : s'.current = [] := by
      simp only [current, haccepted, hrestarts, List.flatMap_eq_nil_iff, List.mem_filter]
      rintro a ⟨ha, hrestart⟩
      have := h.restarts a ha
      simp at hrestart
      omega
    obtain ⟨t, ht, -, hadapters, hclocks⟩ := hk.replays
    rw [hold] at ht
    have hreplays := Replay.replays_of_applyEach ht
    constructor
    · rw [haccepted, if_neg hne, hcall]
      rfl
    · rw [hrecorded, ← hold]
      exact hk.opening
    · refine ⟨t, by rw [hrecorded, ht], ?_, hadapters, hclocks⟩
      rw [hcall]
      exact hreplays.coverage
    · rw [hcall]
      rfl
    · rw [hcall]
      rfl
    · rw [hcall, hcurrent]
      exact hevents
    · rw [hcall, hcurrent]
      exact hsamples
    · rw [hcall, hcurrent]
      exact homissions
    · intro hlimit
      rw [hcall]
      refine (Replay.replays_of_applyEach hheld).limits fun e he => hlimit e ?_
      rw [hrecorded, ← hold]
      exact hk.opening.subset he
    · rw [hrecorded, ← hold]
      exact hk.ordered
    · intro f hf
      rw [hrecorded] at hf
      rw [hcall]
      exact le_maxFactSequence hf
    · intro _
      rw [hcall]
      exact hclosed

/-- **The invariant of a run.** -/
structure Sound (C : CaptureConfig Carry) (s : CallRun Carry) : Prop where
  ledger : LedgerOf C s
  kept : Kept C s
  framed : Framed C s

theorem sound_opened (drain : CaptureDrain) : Sound C (opened C drain) :=
  ⟨ledgerOf_opened drain, kept_of_opened rfl rfl, [], rfl, Nat.zero_le _⟩

/-- Every drain accepted and every restart keeps it. -/
theorem Sound.step {op : CallOp} (h : Sound C s) (hs : step C s op = some s') : Sound C s' := by
  cases op with
  | drain drain => exact ⟨h.ledger.accept h.kept hs, h.kept.accept hs, .accept hs⟩
  | restart drain retry =>
      obtain ⟨bytes, hjournal, hlength⟩ := h.framed
      obtain ⟨-, haccepted, -⟩ := restart_cases hs
      refine ⟨h.ledger.restart hs, h.kept.restart h.ledger hs, bytes, ?_, hlength⟩
      rw [journal, entries, haccepted]
      exact hjournal

theorem Reached.sound (h : Reached C s) : Sound C s := by
  obtain ⟨drain, ops, rfl⟩ := h
  exact Transition.run_invariant (fun _ _ _ hs hop => hs.step hop) ops _ (sound_opened drain)

theorem Reached.step (op : CallOp) (h : Reached C s) (hs : step C s op = some s') :
    Reached C s' := by
  obtain ⟨drain, ops, rfl⟩ := h
  exact ⟨drain, ops ++ [op], (Transition.run_concat hs).symm⟩

end CallRun

end Earshot
