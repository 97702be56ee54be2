import Earshot.Client.Transport
/-!
# What the delivery loop keeps

An invariant of the transport is read together with a desk: the payloads the
loop holds, the one it is delivering and the one it delivered but has not
settled with. `Rules` says what such an invariant has to survive, one rule for
each thing the loop does with a payload; `Kept.step` is the induction over the
loop, done once for all of them.

The desk of a transport that waits is read off its run (`desk`), and `Coherent`
says what its run and its retained requests have to do with each other.
-/

namespace Earshot.Client

open Relational

/-! ## The desk -/

structure Desk where
  /-- Taken from the queue or still in it, in order. -/
  held : List CapturePayload
  /-- Being delivered. -/
  out : Option CapturePayload
  /-- Delivered, and not settled with. -/
  done : Option CapturePayload

namespace DrainRun

/-- The payload that waits for its session's retained request. -/
def inHand (run : DrainRun) : List CapturePayload :=
  match run.task with
  | .retry next => [next]
  | _ => []

/-- The idle sessions' requests that are left. -/
def rest (run : DrainRun) : List PendingExactRetry :=
  match run.task with
  | .idle rest => rest
  | _ => []

def out (run : DrainRun) : Option CapturePayload :=
  match run.stage with
  | .returned _ => none
  | _ => some run.payload

def done (run : DrainRun) : Option CapturePayload :=
  match run.stage with
  | .returned true => some run.payload
  | _ => none

end DrainRun

namespace Transport

variable {β : Type*}

/-- The desk of a transport that waits. -/
def desk (s : Transport β) : Desk :=
  ⟨s.run.elim [] (·.inHand) ++ s.queue, s.run.bind (·.out), s.run.bind (·.done)⟩

/-- The desk while a payload is being delivered. -/
theorem desk_delivering {s : Transport β} {run : DrainRun} (hrun : s.run = some run)
    (hstage : ∀ delivered, run.stage ≠ .returned delivered) :
    s.desk = ⟨run.inHand ++ s.queue, some run.payload, none⟩ := by
  have hout : run.out = some run.payload ∧ run.done = none := by
    unfold DrainRun.out DrainRun.done
    cases hs : run.stage with
    | returned delivered => exact absurd hs (hstage delivered)
    | _ => exact ⟨rfl, rfl⟩
  rw [desk, hrun]
  exact congrArg₂ (Desk.mk _) hout.1 hout.2

/-! ## The run and the retained requests -/

/-- A retained request is a numbered drain of its session. -/
def Rows (s : Transport β) : Prop :=
  ∀ retry ∈ s.pendingExactRetry,
    retry.payload.sessionId = retry.sessionId ∧ retry.payload.sequence.isSome = true

/-- The payload a run delivers is its session's retained request, or there is
none. -/
def Fits (s : Transport β) (run : DrainRun) : Prop :=
  match run.task with
  | .next => s.exactRetryOf run.payload.sessionId = none
  | .retry next =>
      run.payload.sessionId = next.sessionId ∧
        s.exactRetryOf run.payload.sessionId = some run.payload
  | .idle _ =>
      run.payload.sessionId ∈ run.attemptedExactRetries ∧
        s.exactRetryOf run.payload.sessionId = some run.payload

/-- The requests left are still retained, but for those attempted. -/
def Left (s : Transport β) (run : DrainRun) : Prop :=
  ∀ retry ∈ run.rest, retry.sessionId ∉ run.attemptedExactRetries → retry ∈ s.pendingExactRetry

structure Coherent (s : Transport β) : Prop where
  rows : s.Rows
  idle : s.run = none → s.queue = []
  fits : ∀ run, s.run = some run → run.stage ≠ .returned false → s.Fits run
  left : ∀ run, s.run = some run → s.Left run

/-- A payload that is delivered is its session's retained request, or there is
none. -/
def Offered (s : Transport β) (p : CapturePayload) : Prop :=
  s.exactRetryOf p.sessionId = none ∨ s.exactRetryOf p.sessionId = some p

theorem Fits.offered {s : Transport β} {run : DrainRun} (h : s.Fits run) :
    s.Offered run.payload := by
  unfold Fits at h
  cases htask : run.task with
  | next => rw [htask] at h; exact Or.inl h
  | retry | idle => rw [htask] at h; exact Or.inr h.2

theorem exactRetryOf_of_mem {s : Transport β} (h : s.Rows) {retry : PendingExactRetry}
    (hmem : retry ∈ s.pendingExactRetry) : s.exactRetryOf retry.payload.sessionId = some retry.payload := by
  rw [(h retry hmem).1, exactRetryOf, Table.find?_of_mem hmem, Option.map_some]

theorem mem_of_exactRetryOf {s : Transport β} {sessionId : String} {p : CapturePayload}
    (h : s.exactRetryOf sessionId = some p) : ⟨sessionId, p⟩ ∈ s.pendingExactRetry := by
  obtain ⟨retry, hfind, rfl⟩ := Option.map_eq_some_iff.mp h
  obtain ⟨hmem, rfl⟩ := Table.find?_eq_some.mp hfind
  exact hmem

theorem sessionId_of_exactRetryOf {s : Transport β} (h : s.Rows) {sessionId : String}
    {p : CapturePayload} (hp : s.exactRetryOf sessionId = some p) :
    p.sessionId = sessionId ∧ p.sequence.isSome = true :=
  h _ (mem_of_exactRetryOf hp)

theorem exactRetryOf_congr {s s' : Transport β} (h : s'.pendingExactRetry = s.pendingExactRetry)
    (sessionId : String) : s'.exactRetryOf sessionId = s.exactRetryOf sessionId := by
  rw [exactRetryOf, exactRetryOf, h]

theorem Rows.congr {s s' : Transport β} (hs : s.Rows)
    (h : s'.pendingExactRetry = s.pendingExactRetry) : s'.Rows := by
  unfold Rows
  rw [h]
  exact hs

theorem Fits.congr {s s' : Transport β} {run : DrainRun} (hs : s.Fits run)
    (h : s'.pendingExactRetry = s.pendingExactRetry) : s'.Fits run := by
  unfold Fits at hs ⊢
  simp only [exactRetryOf_congr h]
  exact hs

theorem Left.congr {s s' : Transport β} {run : DrainRun} (hs : s.Left run)
    (h : s'.pendingExactRetry = s.pendingExactRetry) : s'.Left run := by
  unfold Left
  rw [h]
  exact hs

/-! ## What each operation leaves alone -/

/-- Remembering a lost drain changes two fields. -/
theorem rememberDroppedDrain_frame (o : TransportOptions) (s : Transport β) (p : CapturePayload) :
    ∃ resync saturated, (s.rememberDroppedDrain o p).1 =
      { s with pendingResync := resync, recoverySaturated := saturated } := by
  unfold rememberDroppedDrain
  split
  · exact ⟨_, _, rfl⟩
  · dsimp only
    split
    · exact ⟨_, _, rfl⟩
    · split
      · exact ⟨_, _, rfl⟩
      · exact ⟨_, _, rfl⟩

section Sink

variable (sink : β → CaptureCoverage → β) (o : TransportOptions)

/-- Giving up changes four fields. -/
theorem giveUp_frame (s : Transport β) (p : CapturePayload) (cause : Cause) (attempts : ℕ)
    (retained : Option Bool) (track : Bool) :
    ∃ resync saturated coverage history, s.giveUp sink o p cause attempts retained track =
      { s with
        pendingResync := resync
        recoverySaturated := saturated
        coverage
        history } := by
  unfold giveUp
  cases track with
  | false => exact ⟨_, _, _, _, rfl⟩
  | true =>
      obtain ⟨resync, saturated, h⟩ := rememberDroppedDrain_frame o s p
      dsimp only
      rw [if_pos rfl, h]
      exact ⟨_, _, _, _, rfl⟩

variable {sink o} {s : Transport β} {p : CapturePayload} {cause : Cause} {attempts : ℕ}
  {retained : Option Bool} {track : Bool}

@[simp] theorem giveUp_run : (s.giveUp sink o p cause attempts retained track).run = s.run := by
  obtain ⟨_, _, _, _, h⟩ := giveUp_frame sink o s p cause attempts retained track
  rw [h]

@[simp] theorem giveUp_queue :
    (s.giveUp sink o p cause attempts retained track).queue = s.queue := by
  obtain ⟨_, _, _, _, h⟩ := giveUp_frame sink o s p cause attempts retained track
  rw [h]

@[simp] theorem giveUp_pendingExactRetry :
    (s.giveUp sink o p cause attempts retained track).pendingExactRetry =
      s.pendingExactRetry := by
  obtain ⟨_, _, _, _, h⟩ := giveUp_frame sink o s p cause attempts retained track
  rw [h]

/-- Retaining a request keeps it, or gives it up and says so. -/
theorem rememberExactRetry_frame (o : TransportOptions) (s : Transport β) (p : CapturePayload) :
    ∃ retry saturated, (s.rememberExactRetry o p).1 =
        { s with pendingExactRetry := retry, recoverySaturated := saturated } ∧
      (retry = s.pendingExactRetry ∨
        s.exactRetryOf p.sessionId = none ∧
          retry = s.pendingExactRetry.insert ⟨p.sessionId, p⟩) := by
  unfold rememberExactRetry
  split
  · exact ⟨_, _, rfl, Or.inl rfl⟩
  · next hnone =>
    dsimp only
    split
    · exact ⟨_, _, rfl, Or.inl rfl⟩
    · split
      · exact ⟨_, _, rfl, Or.inl rfl⟩
      · exact ⟨_, _, rfl, Or.inr ⟨hnone, rfl⟩⟩

/-- **How a request is retained**: it is already, it cannot be, or it is added. -/
theorem rememberExactRetry_cases (o : TransportOptions) (hoffered : s.Offered p) :
    (s.exactRetryOf p.sessionId = some p ∧ s.rememberExactRetry o p = (s, true)) ∨
    (∃ s', s.rememberExactRetry o p = (s', false) ∧ s.exactRetryOf p.sessionId = none ∧
      s'.recoverySaturated = true ∧ s'.pendingResync = s.pendingResync ∧
      s'.pendingExactRetry = s.pendingExactRetry ∧ s'.coverage = s.coverage ∧
      s'.history = s.history ∧ s'.sent = s.sent ∧
      s.pendingResync.find? p.sessionId = none) ∨
    s.exactRetryOf p.sessionId = none ∧ s.rememberExactRetry o p =
      ({ s with pendingExactRetry := s.pendingExactRetry.insert ⟨p.sessionId, p⟩ }, true) := by
  unfold rememberExactRetry
  rcases hoffered with hnone | hsome
  · refine Or.inr ?_
    rw [hnone]
    dsimp only
    split
    · next h =>
      simp only [Bool.and_eq_true, Option.isNone_iff_eq_none] at h
      exact Or.inl ⟨s, rfl, rfl, h.1, rfl, rfl, rfl, rfl, rfl, h.2⟩
    · split
      · next h =>
        simp only [Bool.and_eq_true, Option.isNone_iff_eq_none] at h
        exact Or.inl ⟨_, rfl, rfl, rfl, rfl, rfl, rfl, rfl, rfl, h.1⟩
      · exact Or.inr ⟨rfl, rfl⟩
  · rw [hsome]
    exact Or.inl ⟨rfl, congrArg (Prod.mk s) (decide_eq_true rfl)⟩

@[simp] theorem retainExactRetry_queue :
    (s.retainExactRetry sink o p cause attempts).queue = s.queue := by
  obtain ⟨_, _, h, -⟩ := rememberExactRetry_frame o s p
  unfold retainExactRetry
  dsimp only
  split <;> simp [h]

/-- What is retained stays, and only the request itself may be added. -/
theorem pendingExactRetry_retainExactRetry (sink : β → CaptureCoverage → β)
    (o : TransportOptions) (s : Transport β) (p : CapturePayload) (cause : Cause) (attempts : ℕ) :
    (s.retainExactRetry sink o p cause attempts).pendingExactRetry = s.pendingExactRetry ∨
      s.exactRetryOf p.sessionId = none ∧
        (s.retainExactRetry sink o p cause attempts).pendingExactRetry =
          s.pendingExactRetry.insert ⟨p.sessionId, p⟩ := by
  obtain ⟨retry, _, h, hretry⟩ := rememberExactRetry_frame o s p
  have hkeep : (s.retainExactRetry sink o p cause attempts).pendingExactRetry = retry := by
    unfold retainExactRetry
    dsimp only
    split <;> simp [h]
  rw [hkeep]
  exact hretry

theorem Rows.retainExactRetry (h : s.Rows) (hp : p.sequence.isSome = true) :
    (s.retainExactRetry sink o p cause attempts).Rows := by
  rcases pendingExactRetry_retainExactRetry sink o s p cause attempts with heq | ⟨-, heq⟩
  · exact h.congr heq
  · unfold Rows
    rw [heq]
    intro retry hretry
    rcases Table.mem_insert.mp hretry with hretry | ⟨rfl, -⟩
    · exact h retry hretry
    · exact ⟨rfl, hp⟩

theorem Left.retainExactRetry {run : DrainRun} (h : s.Left run) :
    (s.retainExactRetry sink o p cause attempts).Left run := by
  intro retry hrest hnew
  rcases pendingExactRetry_retainExactRetry sink o s p cause attempts with heq | ⟨-, heq⟩
  · rw [heq]
    exact h retry hrest hnew
  · rw [heq]
    exact Table.mem_insert.mpr (Or.inl (h retry hrest hnew))

end Sink

theorem exactRetryOf_forgetRetry (s : Transport β) (sessionId key : String) :
    (s.forgetRetry sessionId).exactRetryOf key = if key = sessionId then none else s.exactRetryOf key := by
  unfold exactRetryOf forgetRetry
  split
  · next heq =>
    subst heq
    rw [Table.find?_delete]
    cases hfind : s.pendingExactRetry.find? key with
    | none => rfl
    | some retry =>
        have hkey := Table.key_of_find? hfind
        rw [Option.filter_some, if_neg (by simp [hkey]), Option.map_none]
  · next hne =>
    rw [Table.find?_delete_of_ne]
    intro retry _ hkey
    rw [hkey]
    exact decide_eq_false hne

theorem Rows.forgetRetry {s : Transport β} (h : s.Rows) (sessionId : String) :
    (s.forgetRetry sessionId).Rows :=
  fun retry hretry => h retry (Table.mem_delete.mp hretry).1

theorem Left.forgetRetry {s : Transport β} {run : DrainRun} (h : s.Left run)
    {sessionId : String} (hattempted : run.rest ≠ [] → sessionId ∈ run.attemptedExactRetries) :
    (s.forgetRetry sessionId).Left run := by
  intro retry hrest hnew
  refine Table.mem_delete.mpr ⟨h retry hrest hnew, decide_eq_false fun heq => hnew ?_⟩
  rw [heq]
  exact hattempted (List.ne_nil_of_mem hrest)

/-- Clearing changes one field. -/
theorem clearResync_frame (s : Transport β) (p : CapturePayload) :
    ∃ resync, s.clearResync p = { s with pendingResync := resync } := by
  unfold clearResync
  split
  · split
    · exact ⟨_, rfl⟩
    · split
      · exact ⟨_, rfl⟩
      · exact ⟨_, rfl⟩
  · exact ⟨_, rfl⟩

@[simp] theorem clearResync_queue (s : Transport β) (p : CapturePayload) :
    (s.clearResync p).queue = s.queue := by
  obtain ⟨_, h⟩ := clearResync_frame s p
  rw [h]

@[simp] theorem clearResync_pendingExactRetry (s : Transport β) (p : CapturePayload) :
    (s.clearResync p).pendingExactRetry = s.pendingExactRetry := by
  obtain ⟨_, h⟩ := clearResync_frame s p
  rw [h]

@[simp] theorem sessionId_prepareResync (s : Transport β) (p : CapturePayload) :
    (s.prepareResync p).sessionId = p.sessionId := by
  unfold prepareResync
  split
  · dsimp only
    split <;> rfl
  · rfl

/-! ## The rules -/

/-- **What an invariant has to survive**, one rule for each thing the loop does
with a payload. -/
structure Rules (sink : β → CaptureCoverage → β) (o : TransportOptions)
    (I : Transport β → Desk → Prop) : Prop where
  /-- It reads five fields. -/
  frame : ∀ {s s' : Transport β} {d : Desk}, I s d → s'.pendingResync = s.pendingResync →
    s'.pendingExactRetry = s.pendingExactRetry → s'.coverage = s.coverage →
    s'.history = s.history → s'.sent = s.sent → I s' d
  /-- A held payload is given up. -/
  drop : ∀ {s : Transport β} {front back : List CapturePayload} {out done : Option CapturePayload}
    (p : CapturePayload) (cause : Cause) (attempts : ℕ), I s ⟨front ++ p :: back, out, done⟩ →
    I (s.giveUp sink o p cause attempts none true) ⟨front ++ back, out, done⟩
  /-- The first held payload is prepared. -/
  prepare : ∀ {s : Transport β} {held : List CapturePayload} {p : CapturePayload},
    I s ⟨p :: held, none, none⟩ → s.exactRetryOf p.sessionId = none →
    I s ⟨held, some (s.prepareResync p), none⟩
  /-- A retained request is taken up again. -/
  again : ∀ {s : Transport β} {held : List CapturePayload} {p : CapturePayload}, s.Rows →
    I s ⟨held, none, none⟩ → s.exactRetryOf p.sessionId = some p → I s ⟨held, some p, none⟩
  post : ∀ {s : Transport β} {held : List CapturePayload} {p : CapturePayload}, s.Rows →
    I s ⟨held, some p, none⟩ → s.Offered p →
    I { s with
        history := .posted p (s.pendingExactRetry.rows.map (·.payload)) :: s.history }
      ⟨held, some p, none⟩
  /-- A delivery ends and the request is to be retained. -/
  retain : ∀ {s : Transport β} {held : List CapturePayload} {p : CapturePayload} (cause : Cause)
    (attempts : ℕ), s.Rows → I s ⟨held, some p, none⟩ → s.Offered p →
    p.sequence.isSome = true → I (s.retainExactRetry sink o p cause attempts) ⟨held, none, none⟩
  /-- A delivery ends and the payload is given up. -/
  lose : ∀ {s : Transport β} {held : List CapturePayload} {p : CapturePayload} (cause : Cause)
    (attempts : ℕ), I s ⟨held, some p, none⟩ → s.exactRetryOf p.sessionId = none →
    I (s.giveUp sink o p cause attempts none true) ⟨held, none, none⟩
  /-- So it is where the payload was retained. -/
  reject : ∀ {s : Transport β} {held : List CapturePayload} {p : CapturePayload} (cause : Cause)
    (attempts : ℕ), s.Rows → I s ⟨held, some p, none⟩ → s.exactRetryOf p.sessionId = some p →
    I ((s.giveUp sink o p cause attempts none true).forgetRetry p.sessionId) ⟨held, none, none⟩
  accept : ∀ {s : Transport β} {held : List CapturePayload} {p : CapturePayload}, s.Rows →
    I s ⟨held, some p, none⟩ → s.Offered p →
    I { s with history := .accepted p :: s.history } ⟨held, none, some p⟩
  settle : ∀ {s : Transport β} {held : List CapturePayload} {p : CapturePayload},
    I s ⟨held, none, some p⟩ → s.exactRetryOf p.sessionId = none → I (s.clearResync p) ⟨held, none, none⟩
  /-- So it is where the payload was retained. -/
  release : ∀ {s : Transport β} {held : List CapturePayload} {p : CapturePayload}, s.Rows →
    I s ⟨held, none, some p⟩ → s.exactRetryOf p.sessionId = some p →
    I ((s.forgetRetry p.sessionId).clearResync p) ⟨held, none, none⟩

/-- The invariant holds of a transport that waits. -/
structure Kept (I : Transport β → Desk → Prop) (s : Transport β) : Prop where
  coherent : s.Coherent
  holds : I s s.desk

section Kept

variable {sink : β → CaptureCoverage → β} {o : TransportOptions}
  {I : Transport β → Desk → Prop} {s : Transport β} {run : DrainRun}

/-- A delivery that failed. -/
theorem Rules.failed (rules : Rules sink o I) (hrows : s.Rows) (hleft : s.Left run)
    (h : I s ⟨run.inHand ++ s.queue, none, none⟩) : Kept I (s.settle run false) where
  coherent := {
    rows := hrows
    idle := fun hnone => by cases hnone
    fits := fun run' hrun hstage => by
      obtain rfl := Option.some.inj hrun
      exact absurd rfl hstage
    left := fun run' hrun => by
      obtain rfl := Option.some.inj hrun
      exact hleft }
  holds := rules.frame h rfl rfl rfl rfl rfl

/-- A delivery that goes on. -/
theorem Kept.ongoing (hrun : s.run = some run) (hrows : s.Rows) (hfits : s.Fits run)
    (hleft : s.Left run) (hstage : ∀ delivered, run.stage ≠ .returned delivered)
    (h : I s ⟨run.inHand ++ s.queue, some run.payload, none⟩) : Kept I s where
  coherent := {
    rows := hrows
    idle := fun hnone => by rw [hrun] at hnone; cases hnone
    fits := fun run' hrun' _ => by
      rw [hrun] at hrun'
      obtain rfl := Option.some.inj hrun'
      exact hfits
    left := fun run' hrun' => by
      rw [hrun] at hrun'
      obtain rfl := Option.some.inj hrun'
      exact hleft }
  holds := by
    rw [desk_delivering hrun hstage]
    exact h

theorem Rules.block (rules : Rules sink o I) (hrows : s.Rows) (hfits : s.Fits run)
    (hleft : s.Left run) (h : I s ⟨run.inHand ++ s.queue, some run.payload, none⟩) :
    Kept I (s.blockForAuthContextChange sink o run) := by
  unfold blockForAuthContextChange
  split
  · next hsome =>
    refine rules.failed (hrows.retainExactRetry hsome) hleft.retainExactRetry ?_
    rw [retainExactRetry_queue]
    exact rules.retain _ _ hrows h hfits.offered hsome
  · next hnone =>
    refine rules.failed (hrows.congr giveUp_pendingExactRetry)
      (hleft.congr giveUp_pendingExactRetry) ?_
    rw [giveUp_queue]
    refine rules.lose _ _ h (hfits.offered.resolve_right fun hretry => hnone ?_)
    exact (sessionId_of_exactRetryOf hrows hretry).2

theorem Rules.attempt (rules : Rules sink o I) (hrows : s.Rows) (hfits : s.Fits run)
    (hleft : s.Left run) (h : I s ⟨run.inHand ++ s.queue, some run.payload, none⟩) :
    Kept I (s.attempt sink o run) := by
  unfold Transport.attempt
  split
  · exact rules.block hrows hfits hleft h
  · have hpost := rules.post hrows h hfits.offered
    exact Kept.ongoing rfl hrows hfits hleft (fun delivered hstage => by cases hstage)
      (rules.frame hpost rfl rfl rfl rfl rfl)

/-- A payload leaves `deliver` undelivered after its last attempt. -/
theorem Rules.fail (rules : Rules sink o I) (hrows : s.Rows) (hfits : s.Fits run)
    (hleft : s.Left run) (h : I s ⟨run.inHand ++ s.queue, some run.payload, none⟩)
    (cause : Cause) : Kept I (s.fail sink o run cause) := by
  unfold Transport.fail
  split
  · next hretain =>
    rw [Bool.and_eq_true] at hretain
    refine rules.failed (hrows.retainExactRetry hretain.2) hleft.retainExactRetry ?_
    rw [retainExactRetry_queue]
    exact rules.retain _ _ hrows h hfits.offered hretain.2
  · dsimp only
    have hrows' : (s.giveUp sink o run.payload cause run.attempts none true).Rows :=
      hrows.congr giveUp_pendingExactRetry
    have hleft' : (s.giveUp sink o run.payload cause run.attempts none true).Left run :=
      hleft.congr giveUp_pendingExactRetry
    rcases hfits.offered with hnone | hsome
    · rw [hnone, Option.any_none, if_neg Bool.false_ne_true]
      refine rules.failed hrows' hleft' ?_
      rw [giveUp_queue]
      exact rules.lose _ _ h hnone
    · rw [hsome, Option.any_some, decide_eq_true rfl, if_pos rfl]
      refine rules.failed (hrows'.forgetRetry _) (hleft'.forgetRetry fun hrest => ?_) ?_
      · unfold Fits at hfits
        unfold DrainRun.rest at hrest
        cases htask : run.task with
        | next | retry => rw [htask] at hrest; exact absurd rfl hrest
        | idle rest => rw [htask] at hfits; exact hfits.1
      · change I _ ⟨run.inHand ++ (s.giveUp sink o run.payload cause run.attempts none true).queue,
          none, none⟩
        rw [giveUp_queue]
        exact rules.reject _ _ hrows h hsome

theorem Rules.dropFirst (rules : Rules sink o I) {held : List CapturePayload}
    {out done : Option CapturePayload} (p : CapturePayload) (cause : Cause) (attempts : ℕ)
    (h : I s ⟨p :: held, out, done⟩) :
    I (s.giveUp sink o p cause attempts none true) ⟨held, out, done⟩ := by
  rw [← List.nil_append held]
  exact rules.drop p cause attempts h

theorem Rules.takeQueue (rules : Rules sink o I) {retryIdle : Bool} {attempted : List String} :
    ∀ (queue : List CapturePayload) (s : Transport β), s.Rows → I s ⟨queue, none, none⟩ →
      Kept I (s.takeQueue sink o retryIdle attempted queue) := by
  intro queue
  induction queue with
  | nil =>
      intro s hrows h
      unfold Transport.takeQueue
      split
      · exact ⟨⟨hrows, fun _ => rfl, fun run hrun => (by cases hrun), fun run hrun => (by cases hrun)⟩,
          rules.frame h rfl rfl rfl rfl rfl⟩
      · next retry rest hfilter =>
        -- the retained requests of the sessions not attempted yet
        have hsub : ∀ x ∈ retry :: rest, x ∈ s.pendingExactRetry := by
          intro x hx
          rw [← hfilter] at hx
          have hmem := (List.mem_filter.mp hx).1
          cases retryIdle with
          | false => exact absurd hmem List.not_mem_nil
          | true => exact hmem
        have hretry := hsub retry List.mem_cons_self
        refine rules.attempt hrows ⟨?_, exactRetryOf_of_mem hrows hretry⟩
          (fun x hx _ => hsub x (List.mem_cons_of_mem _ hx))
          (rules.frame (rules.again hrows h (exactRetryOf_of_mem hrows hretry)) rfl rfl rfl rfl rfl)
        dsimp only
        rw [(hrows retry hretry).1]
        exact List.mem_cons_self
  | cons next queue ih =>
      intro s hrows h
      have hdrop : ∀ cause, Kept I
          ((s.giveUp sink o next cause 0 none true).takeQueue sink o retryIdle attempted queue) :=
        fun cause => ih _ (hrows.congr giveUp_pendingExactRetry)
          (rules.dropFirst next cause 0 h)
      unfold Transport.takeQueue
      split
      · exact hdrop _
      · split
        · exact hdrop _
        · split
          · next retry hretry =>
            split
            · exact hdrop _
            · obtain ⟨hsession, -⟩ := sessionId_of_exactRetryOf hrows hretry
              rw [← hsession] at hretry
              exact rules.attempt hrows ⟨hsession, hretry⟩ (fun x hx => absurd hx List.not_mem_nil)
                (rules.frame (rules.again hrows h hretry) rfl rfl rfl rfl rfl)
          · next hnone =>
            refine rules.attempt hrows ?_ (fun x hx => absurd hx List.not_mem_nil)
              (rules.frame (rules.prepare h hnone) rfl rfl rfl rfl rfl)
            change s.exactRetryOf (s.prepareResync next).sessionId = none
            rw [sessionId_prepareResync]
            exact hnone

theorem Rules.deliverNext (rules : Rules sink o I) {next : CapturePayload} (hrows : s.Rows)
    (h : I s ⟨next :: s.queue, none, none⟩) (hnone : s.exactRetryOf next.sessionId = none) :
    Kept I (s.deliverNext sink o run next) := by
  unfold Transport.deliverNext
  split
  · exact rules.takeQueue _ _ (hrows.congr giveUp_pendingExactRetry) (rules.dropFirst next _ 0 h)
  · refine rules.attempt hrows ?_ (fun x hx => absurd hx List.not_mem_nil) (rules.prepare h hnone)
    change s.exactRetryOf (s.prepareResync next).sessionId = none
    rw [sessionId_prepareResync]
    exact hnone

/-- The requests of idle sessions that are left. -/
theorem Rules.idleRest (rules : Rules sink o I) {rest : List PendingExactRetry} (hrows : s.Rows)
    (hrest : ∀ retry ∈ rest, retry.sessionId ∉ run.attemptedExactRetries →
      retry ∈ s.pendingExactRetry) (h : I s ⟨s.queue, none, none⟩) :
    Kept I
      (match rest.filter fun retry => !run.attemptedExactRetries.contains retry.sessionId with
      | [] => s.takeQueue sink o false run.attemptedExactRetries s.queue
      | retry :: rest =>
          s.deliver sink o false (retry.sessionId :: run.attemptedExactRetries) (.idle rest)
            retry.payload) := by
  split
  · exact rules.takeQueue _ _ hrows h
  · next retry rest' hfilter =>
    have hsub : ∀ x ∈ retry :: rest', x ∈ s.pendingExactRetry := by
      intro x hx
      rw [← hfilter] at hx
      obtain ⟨hmem, hnew⟩ := List.mem_filter.mp hx
      exact hrest x hmem (by simpa using hnew)
    have hretry := hsub retry List.mem_cons_self
    refine rules.attempt hrows ⟨?_, exactRetryOf_of_mem hrows hretry⟩
      (fun x hx _ => hsub x (List.mem_cons_of_mem _ hx))
      (rules.again hrows h (exactRetryOf_of_mem hrows hretry))
    dsimp only
    rw [(hrows retry hretry).1]
    exact List.mem_cons_self

/-- **The loop goes on** after a delivery. -/
theorem Rules.resume (rules : Rules sink o I) {delivered : Bool} (hkept : Kept I s)
    (hrun : s.run = some run) (hstage : run.stage = .returned delivered) :
    Kept I (s.resume sink o run delivered) := by
  obtain ⟨⟨hrows, -, hfits, hleft⟩, h⟩ := hkept
  have hleft := hleft run hrun
  have hdesk : s.desk =
      ⟨run.inHand ++ s.queue, none, if delivered then some run.payload else none⟩ := by
    rw [desk, hrun]
    dsimp only [Option.bind_some, Option.elim_some, DrainRun.out, DrainRun.done]
    rw [hstage]
    cases delivered <;> rfl
  rw [hdesk] at h
  have hfits : delivered = true → s.Fits run := fun hd => hfits run hrun (by
    rw [hstage, hd]
    exact fun heq => by cases heq)
  unfold DrainRun.inHand at h
  unfold Left DrainRun.rest at hleft
  unfold Fits at hfits
  unfold Transport.resume
  cases htask : run.task with
  | next =>
      rw [htask] at h hfits
      cases delivered with
      | true =>
          refine rules.takeQueue _ _ (hrows.congr (clearResync_pendingExactRetry s _)) ?_
          rw [if_pos rfl]
          exact rules.settle h (hfits rfl)
      | false => exact rules.takeQueue _ _ hrows h
  | retry next =>
      rw [htask] at h hfits
      cases delivered with
      | true =>
          obtain ⟨hsession, hretry⟩ := hfits rfl
          have hrelease := rules.release hrows h hretry
          rw [hsession] at hrelease
          refine rules.deliverNext ((hrows.forgetRetry _).congr (clearResync_pendingExactRetry _ _))
            ?_ ?_
          · rw [clearResync_queue]
            exact hrelease
          · rw [exactRetryOf_congr (clearResync_pendingExactRetry _ _), exactRetryOf_forgetRetry, if_pos rfl]
      | false =>
          dsimp only
          rw [if_neg Bool.false_ne_true]
          split
          · refine rules.takeQueue _ _ (hrows.congr giveUp_pendingExactRetry) ?_
            exact rules.dropFirst next _ 0 h
          · next hretained =>
            rw [Bool.or_eq_true, not_or, Option.not_isSome_iff_eq_none] at hretained
            exact rules.deliverNext hrows h hretained.1
  | idle rest =>
      rw [htask] at h hfits hleft
      cases delivered with
      | true =>
          obtain ⟨hattempted, hretry⟩ := hfits rfl
          refine rules.idleRest (s := (s.forgetRetry run.payload.sessionId).clearResync run.payload)
            ((hrows.forgetRetry _).congr (clearResync_pendingExactRetry _ _)) ?_ ?_
          · intro retry hmem hnew
            rw [clearResync_pendingExactRetry]
            refine Table.mem_delete.mpr ⟨hleft retry hmem hnew, decide_eq_false fun heq => hnew ?_⟩
            rw [heq]
            exact hattempted
          · rw [clearResync_queue]
            exact rules.release hrows h hretry
      | false => exact rules.idleRest hrows hleft h

/-- What a waiting delivery has of its run. -/
theorem Kept.delivering (hkept : Kept I s) (hrun : s.run = some run)
    (hstage : ∀ delivered, run.stage ≠ .returned delivered) :
    s.Rows ∧ s.Fits run ∧ s.Left run ∧ I s ⟨run.inHand ++ s.queue, some run.payload, none⟩ := by
  refine ⟨hkept.coherent.rows, hkept.coherent.fits run hrun (hstage false),
    hkept.coherent.left run hrun, ?_⟩
  rw [← desk_delivering hrun hstage]
  exact hkept.holds

/-- The delivery waits at another stage. -/
theorem Rules.moved (rules : Rules sink o I) {stage : Stage} (hrows : s.Rows) (hfits : s.Fits run)
    (hleft : s.Left run) (hstage : ∀ delivered, stage ≠ .returned delivered)
    (h : I s ⟨run.inHand ++ s.queue, some run.payload, none⟩) :
    Kept I { s with run := some { run with stage } } :=
  Kept.ongoing rfl hrows hfits hleft hstage (rules.frame h rfl rfl rfl rfl rfl)

theorem Rules.fetched (rules : Rules sink o I) (hrows : s.Rows) (hfits : s.Fits run)
    (hleft : s.Left run) (h : I s ⟨run.inHand ++ s.queue, some run.payload, none⟩)
    (outcome : FetchOutcome) : Kept I (s.fetched sink o run outcome) := by
  unfold Transport.fetched
  split
  · exact rules.block hrows hfits hleft h
  · cases outcome with
    | rejected =>
        dsimp only
        split
        · exact rules.fail hrows hfits hleft h _
        · exact rules.moved hrows hfits hleft (fun delivered hs => by cases hs) h
    | response status ok =>
        dsimp only
        split
        · exact rules.moved hrows hfits hleft (fun delivered hs => by cases hs) h
        · split
          · exact rules.fail hrows hfits hleft h _
          · exact rules.moved hrows hfits hleft (fun delivered hs => by cases hs) h

theorem Rules.read (rules : Rules sink o I) (hrows : s.Rows) (hfits : s.Fits run)
    (hleft : s.Left run) (h : I s ⟨run.inHand ++ s.queue, some run.payload, none⟩) :
    Kept I (s.read sink o run) := by
  unfold Transport.read
  split
  · exact rules.block hrows hfits hleft h
  · exact rules.moved hrows hfits hleft (fun delivered hs => by cases hs) h

theorem Rules.notified (rules : Rules sink o I) (hrows : s.Rows) (hfits : s.Fits run)
    (hleft : s.Left run) (h : I s ⟨run.inHand ++ s.queue, some run.payload, none⟩) :
    Kept I (s.notified run) where
  coherent := {
    rows := hrows
    idle := fun hnone => by cases hnone
    fits := fun run' hrun _ => by
      obtain rfl := Option.some.inj hrun
      exact hfits
    left := fun run' hrun => by
      obtain rfl := Option.some.inj hrun
      exact hleft }
  holds := rules.frame (rules.accept hrows h hfits.offered) rfl rfl rfl rfl rfl

/-! ## What the host calls -/

theorem Coherent.congr {s' : Transport β} (hs : s.Coherent) (hrun : s'.run = s.run)
    (hqueue : s'.queue = s.queue) (hretry : s'.pendingExactRetry = s.pendingExactRetry) :
    s'.Coherent where
  rows := hs.rows.congr hretry
  idle hnone := by rw [hqueue]; exact hs.idle (hrun ▸ hnone)
  fits run h hstage := (hs.fits run (hrun ▸ h) hstage).congr hretry
  left run h := (hs.left run (hrun ▸ h)).congr hretry

theorem desk_congr {s s' : Transport β} (hrun : s'.run = s.run) (hqueue : s'.queue = s.queue) :
    s'.desk = s.desk := by
  rw [desk, desk, hrun, hqueue]

/-- A payload just sent is given up. -/
theorem Rules.dropLast (rules : Rules sink o I) {p : CapturePayload} (hs : s.Coherent)
    (h : I s ⟨s.desk.held ++ [p], s.desk.out, s.desk.done⟩) (cause : Cause) :
    Kept I (s.giveUp sink o p cause 0 none true) where
  coherent := hs.congr giveUp_run giveUp_queue giveUp_pendingExactRetry
  holds := by
    rw [desk_congr giveUp_run giveUp_queue]
    have hdrop := rules.drop p cause 0 h
    rw [List.append_nil] at hdrop
    exact hdrop

/-- The oldest payloads of the queue make room. -/
theorem Rules.evict (rules : Rules sink o I) (front back : List CapturePayload)
    {out done : Option CapturePayload} : ∀ (queue : List CapturePayload) (s : Transport β),
    I s ⟨front ++ (queue ++ back), out, done⟩ →
    I (s.evict sink o queue) ⟨front ++ ((s.evict sink o queue).queue ++ back), out, done⟩ ∧
      (s.evict sink o queue).run = s.run ∧
      (s.evict sink o queue).pendingExactRetry = s.pendingExactRetry := by
  intro queue
  induction queue with
  | nil => exact fun s h => ⟨rules.frame h rfl rfl rfl rfl rfl, rfl, rfl⟩
  | cons evicted queue ih =>
      intro s h
      unfold Transport.evict
      split
      · obtain ⟨hI, hrun, hretry⟩ :=
          ih (s.drop sink o evicted .queueOverflow false) (rules.drop evicted _ 0 h)
        exact ⟨hI, hrun.trans giveUp_run, hretry.trans giveUp_pendingExactRetry⟩
      · exact ⟨rules.frame h rfl rfl rfl rfl rfl, rfl, rfl⟩

/-- **`send`**, from what holds once the payload has been taken. -/
theorem Rules.send (rules : Rules sink o I) {p : CapturePayload} (serializes : Bool)
    (hs : s.Coherent)
    (henter : I { s with sent := p :: s.sent }
      ⟨s.desk.held ++ [p], s.desk.out, s.desk.done⟩)
    (hrefuse : s.stopped = false → s.authCurrent = false →
      I (({ s with sent := p :: s.sent } : Transport β).giveUp sink o p
        ⟨.blocked, none, false, true⟩ 0 none false) s.desk) :
    Kept I (s.send sink o p serializes) := by
  have hs' : Coherent { s with sent := p :: s.sent } := hs.congr rfl rfl rfl
  unfold Transport.send
  dsimp only
  split
  · exact rules.dropLast hs' henter _
  · next hstopped =>
    split
    · next hauth =>
      exact ⟨hs'.congr giveUp_run giveUp_queue giveUp_pendingExactRetry, by
        rw [desk_congr giveUp_run giveUp_queue]
        exact hrefuse (eq_false_of_ne_true hstopped) (eq_false_of_ne_true hauth)⟩
    · split
      · exact rules.dropLast hs' henter _
      · split
        · exact rules.dropLast hs' henter _
        · obtain ⟨hI, hrun, hretry⟩ := rules.evict (s.run.elim [] (·.inHand)) [p] s.queue
            { s with sent := p :: s.sent } (by
              rw [← List.append_assoc]
              exact henter)
          generalize ({ s with sent := p :: s.sent } : Transport β).evict sink o s.queue = room
            at hI hrun hretry ⊢
          dsimp only at hrun hretry
          split
          · next hsome =>
            refine ⟨⟨hs.rows.congr hretry, fun hnone => ?_,
              fun run h hstage => (hs.fits run (hrun ▸ h) hstage).congr hretry,
              fun run h => (hs.left run (hrun ▸ h)).congr hretry⟩, ?_⟩
            · rw [show room.run = none from hnone] at hsome
              cases hsome
            · rw [desk]
              dsimp only
              rw [hrun]
              exact rules.frame hI rfl rfl rfl rfl rfl
          · next hnone =>
            rw [hrun, Option.not_isSome_iff_eq_none] at hnone
            refine rules.takeQueue _ _ (hs.rows.congr hretry) ?_
            rw [desk, hnone] at hI
            exact rules.frame hI rfl rfl rfl rfl rfl

theorem Rules.flush (rules : Rules sink o I) (hkept : Kept I s) (hrun : s.run = none) :
    Kept I (s.flush sink o) := by
  unfold Transport.flush
  split
  · exact hkept
  · have h := hkept.holds
    unfold desk at h
    rw [hrun] at h
    exact rules.takeQueue _ _ hkept.coherent.rows h

/-- Payloads are given up one after the other. -/
theorem Rules.dropAll (rules : Rules sink o I) {front : List CapturePayload}
    {out done : Option CapturePayload} : ∀ (queue : List CapturePayload) (s : Transport β),
    I s ⟨front ++ queue, out, done⟩ →
    ∃ s', queue.foldl (fun s queued => s.drop sink o queued .transport false) s = s' ∧
      I s' ⟨front, out, done⟩ ∧ s'.run = s.run ∧ s'.queue = s.queue ∧
      s'.pendingExactRetry = s.pendingExactRetry := by
  intro queue
  induction queue with
  | nil =>
      intro s h
      rw [List.append_nil] at h
      exact ⟨s, rfl, h, rfl, rfl, rfl⟩
  | cons queued queue ih =>
      intro s h
      obtain ⟨s', heq, hI, hrun, hqueue, hretry⟩ :=
        ih (s.drop sink o queued .transport false) (rules.drop queued _ 0 h)
      exact ⟨s', heq, hI, hrun.trans giveUp_run, hqueue.trans giveUp_queue,
        hretry.trans giveUp_pendingExactRetry⟩

theorem Rules.stop (rules : Rules sink o I) (hkept : Kept I s) : Kept I (s.stop sink o) := by
  unfold Transport.stop
  split
  · exact hkept
  · obtain ⟨s', heq, hI, hrun, hqueue, hretry⟩ :=
      rules.dropAll s.queue { s with stopped := true, queue := [] }
        (rules.frame hkept.holds rfl rfl rfl rfl rfl)
    rw [heq]
    exact ⟨⟨hkept.coherent.rows.congr hretry, fun _ => hqueue,
        fun run h hstage => (hkept.coherent.fits run (hrun ▸ h) hstage).congr hretry,
        fun run h => (hkept.coherent.left run (hrun ▸ h)).congr hretry⟩, by
      rw [desk, hrun, hqueue, List.append_nil]
      exact hI⟩

theorem run_of_waitsAt {stage : Stage} (h : s.waitsAt stage = some run) :
    s.run = some run ∧ run.stage = stage := by
  obtain ⟨hrun, hstage⟩ := Option.filter_eq_some_iff.mp h
  exact ⟨hrun, of_decide_eq_true hstage⟩

/-- **Every event keeps an invariant that survives the rules**, if `send`
brings it about. -/
theorem Rules.step (rules : Rules sink o I) {event : Event} {s' : Transport β} (hkept : Kept I s)
    (hsend : ∀ p serializes, event = .send p serializes → Kept I (s.send sink o p serializes))
    (h : s.step sink o event = some s') : Kept I s' := by
  cases event with
  | send p serializes =>
      obtain rfl := Option.some.inj h
      exact hsend p serializes rfl
  | flush =>
      rw [Transport.step.eq_2] at h
      split at h
      · cases h
      · next hrun =>
        obtain rfl := Option.some.inj h
        exact rules.flush hkept (Option.not_isSome_iff_eq_none.mp hrun)
  | stop =>
      obtain rfl := Option.some.inj h
      exact rules.stop hkept
  | authContext current =>
      obtain rfl := Option.some.inj h
      exact ⟨hkept.coherent.congr rfl rfl rfl, rules.frame hkept.holds rfl rfl rfl rfl rfl⟩
  | fetched outcome =>
      obtain ⟨run, hwaits, rfl⟩ := Option.map_eq_some_iff.mp h
      obtain ⟨hrun, hstage⟩ := run_of_waitsAt hwaits
      obtain ⟨hrows, hfits, hleft, hI⟩ := hkept.delivering hrun (by simp [hstage])
      exact rules.fetched hrows hfits hleft hI outcome
  | slept =>
      obtain ⟨run, hwaits, rfl⟩ := Option.map_eq_some_iff.mp h
      obtain ⟨hrun, hstage⟩ := run_of_waitsAt hwaits
      obtain ⟨hrows, hfits, hleft, hI⟩ := hkept.delivering hrun (by simp [hstage])
      exact rules.attempt hrows hfits hleft hI
  | read =>
      obtain ⟨run, hwaits, rfl⟩ := Option.map_eq_some_iff.mp h
      obtain ⟨hrun, hstage⟩ := run_of_waitsAt hwaits
      obtain ⟨hrows, hfits, hleft, hI⟩ := hkept.delivering hrun (by simp [hstage])
      exact rules.read hrows hfits hleft hI
  | notified =>
      obtain ⟨run, hwaits, rfl⟩ := Option.map_eq_some_iff.mp h
      obtain ⟨hrun, hstage⟩ := run_of_waitsAt hwaits
      obtain ⟨hrows, hfits, hleft, hI⟩ := hkept.delivering hrun (by simp [hstage])
      exact rules.notified hrows hfits hleft hI
  | resumed =>
      obtain ⟨run, hrun, h⟩ := Option.bind_eq_some_iff.mp h
      split at h
      · next delivered hstage =>
        obtain rfl := Option.some.inj h
        exact rules.resume hkept hrun hstage
      · cases h

end Kept

end Transport

end Earshot.Client
