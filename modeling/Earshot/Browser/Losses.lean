import Mathlib.Algebra.BigOperators.Group.List.Basic
import Mathlib.Algebra.Order.Ring.Nat
import Earshot.Browser.Invariant
/-!
# Declared loss

Every number up to the drain applied is resolved once, as a drain or as one
a gap declared lost, and no delta is taken across either a loss or a
restart. The count a call's journal declares is another matter: coverage is
kept one note a signal, so a second gap's count is dropped, as is one the
recorder had no room for or cannot represent. `accounted_iff` says when the
count is the total.
-/

namespace Earshot

/-! ## One note a signal -/

namespace Recorder

variable {R : RecorderConfig} {r r' : Recorder} {signal : String}

/-- The note of a signal. -/
def noteOf (r : Recorder) (signal : String) : Option Coverage :=
  r.coverage.find? (·.signal = signal)

theorem find?_set_of_ne {coverage : List Coverage} {index : ℕ} {existing c : Coverage}
    (hexisting : coverage[index]? = some existing) (h : existing.signal ≠ signal)
    (hc : c.signal ≠ signal) :
    (coverage.set index c).find? (·.signal = signal) = coverage.find? (·.signal = signal) := by
  induction coverage generalizing index with
  | nil => rfl
  | cons first coverage ih =>
      cases index with
      | zero =>
          cases hexisting
          simp [h, hc]
      | succ index =>
          rw [List.set_cons_succ, List.find?_cons, List.find?_cons, ih hexisting]

/-- A note of another signal changes nothing of this one's. -/
theorem noteOf_recordCoverage_of_ne {note : Coverage} (h : note.signal ≠ signal) :
    (r.recordCoverage R note).noteOf signal = r.noteOf signal := by
  unfold recordCoverage
  dsimp only
  split
  · unfold appendCoverage
    obtain ⟨e, r', htaken, hlogs⟩ | ⟨r', htaken, hheld, -, -⟩ := tryAdmit_cases R r .coverage
      (R.coverageSize { note with droppedCount := boundedLossCount note.droppedCount })
    · rw [htaken]
      have := (Replay.replays_of_applyEach hlogs.held).coverage
      exact congrArg (List.find? _) this
    · rw [htaken]
      have hcov : r'.coverage = r.coverage := congrArg Replay.coverage hheld
      simp [noteOf, push, hcov, List.find?_append, h]
  · next index hindex =>
    split
    · rfl
    · next existing hexisting =>
      have hsignal : existing.signal = note.signal := by
        obtain ⟨hlt, hp, -⟩ := List.findIdx?_eq_some_iff_getElem.mp hindex
        rw [List.getElem?_eq_getElem hlt] at hexisting
        cases hexisting
        simpa using hp
      split
      · rfl
      · split
        · unfold supersede
          dsimp only
          split
          · rfl
          · split
            · rfl
            · exact find?_set_of_ne hexisting (hsignal ▸ h) h
        · rfl

/-- **The first note of a signal**, where the recorder has room for it. -/
theorem noteOf_recordCoverage {note : Coverage} (h : r.noteOf note.signal = none) :
    (r.recordCoverage R note).noteOf note.signal =
      if (r.tryAdmit R .coverage
          (R.coverageSize { note with droppedCount := boundedLossCount note.droppedCount })).1 then
        some { note with droppedCount := boundedLossCount note.droppedCount }
      else none := by
  have hnone : r.coverage.findIdx? (·.signal = note.signal) = none := by
    rw [List.findIdx?_eq_none_iff]
    intro c hc
    simpa using List.find?_eq_none.mp h c hc
  unfold recordCoverage
  dsimp only
  rw [hnone]
  unfold appendCoverage
  obtain ⟨e, r', htaken, hlogs⟩ | ⟨r', htaken, hheld, -, -⟩ := tryAdmit_cases R r .coverage
    (R.coverageSize { note with droppedCount := boundedLossCount note.droppedCount })
  · rw [htaken]
    have := (Replay.replays_of_applyEach hlogs.held).coverage
    exact (congrArg (List.find? _) this).trans h
  · rw [htaken]
    have hcov : r'.coverage = r.coverage := congrArg Replay.coverage hheld
    have hfind : r.coverage.find? (·.signal = note.signal) = none := h
    simp [noteOf, push, hcov, List.find?_append, hfind]

/-- A second note that is not `available` changes nothing. -/
theorem noteOf_recordCoverage_of_some {note existing : Coverage}
    (h : r.noteOf note.signal = some existing) (hpart : note.availability ≠ "available") :
    (r.recordCoverage R note).noteOf note.signal = some existing := by
  unfold recordCoverage
  dsimp only
  split
  · next hnone =>
    rw [List.findIdx?_eq_none_iff] at hnone
    have hmem := List.mem_of_find?_eq_some h
    have := hnone existing hmem
    have hsignal := List.find?_some h
    simp_all
  · split
    · exact h
    · split
      · exact h
      · rw [if_neg (fun hc => hpart hc.1)]
        exact h

theorem noteOf_recordFact (f : Fact) : (r.recordFact R f).noteOf signal = r.noteOf signal := by
  unfold recordFact
  obtain ⟨e, r', htaken, hlogs⟩ | ⟨r', htaken, hheld, -, -⟩ :=
    tryAdmit_cases R r (.fact f.kind) (R.factSize f.toFactDraft)
  · rw [htaken]
    exact congrArg (List.find? _) (Replay.replays_of_applyEach hlogs.held).coverage
  · rw [htaken]
    exact congrArg (List.find? _) (congrArg Replay.coverage hheld)

end Recorder

namespace Turn

variable {R : RecorderConfig} {signal : String}

/-- Records that note other signals. -/
theorem noteOf_recordAll {ops : List RecorderOp}
    (h : ∀ note, .coverage note ∈ ops → note.signal ≠ signal) (t : Turn) :
    (t.recordAll R ops).2.recorder.noteOf signal = t.recorder.noteOf signal := by
  induction ops generalizing t with
  | nil => rfl
  | cons op ops ih =>
      have hop : (t.record R op).2.recorder.noteOf signal = t.recorder.noteOf signal := by
        cases op with
        | coverage note => exact Recorder.noteOf_recordCoverage_of_ne (h note List.mem_cons_self)
        | fact draft =>
            simp only [record]
            split
            · exact Recorder.noteOf_recordFact _
            · rfl
      unfold recordAll
      split
      · next t' heq =>
        rw [heq] at hop
        exact hop
      · next t' heq =>
        rw [heq] at hop
        rw [ih (fun note hmem => h note (List.mem_cons_of_mem _ hmem)) t', hop]

end Turn

/-! ## The note of what gaps lost -/

theorem RejectionSignal.label_ne (signal : RejectionSignal) :
    signal.label ≠ DRAIN_SEQUENCE_SIGNAL := by
  cases signal <;> decide

theorem EngineSignal.label_ne (signal : EngineSignal) : signal.label ≠ DRAIN_SEQUENCE_SIGNAL := by
  cases signal <;> decide

namespace CaptureCall

variable {Carry : Type} {C : CaptureConfig Carry} {call call' : CaptureCall Carry}
variable {drain : CaptureDrain} {decision : Decision}

theorem namespaceClientCoverage_ne (signal : String) :
    namespaceClientCoverage signal ≠ DRAIN_SEQUENCE_SIGNAL := by
  intro h
  have hprefix : "browser.".toList.isPrefixOf (namespaceClientCoverage signal).toList = true := by
    unfold namespaceClientCoverage
    split
    · next hp => exact hp
    · rw [String.toList_append]
      exact List.isPrefixOf_iff_prefix.mpr (List.prefix_append _ _)
  rw [h] at hprefix
  exact absurd hprefix (by decide)

theorem clientCoverage_ne (note : Coverage) (h : .coverage note ∈ clientCoverage drain) :
    note.signal ≠ DRAIN_SEQUENCE_SIGNAL := by
  obtain ⟨client, -, hnote⟩ := List.mem_map.mp h
  cases hnote
  exact namespaceClientCoverage_ne _

theorem rejections_ne (note : Coverage) (h : .coverage note ∈ rejections drain) :
    note.signal ≠ DRAIN_SEQUENCE_SIGNAL := by
  obtain ⟨rejection, -, hnote⟩ := List.mem_map.mp h
  cases hnote
  exact rejection.signal.label_ne

theorem applyFacts_ne (facts : EngineFacts) (note : Coverage)
    (h : .coverage note ∈ applyFacts facts) : note.signal ≠ DRAIN_SEQUENCE_SIGNAL := by
  rcases List.mem_append.mp h with h | h
  · obtain ⟨engine, -, hnote⟩ := List.mem_map.mp h
    cases hnote
    exact engine.signal.label_ne
  · obtain ⟨draft, -, hdraft⟩ := List.mem_map.mp h
    cases hdraft

theorem closeOps_ne {first : Option ℚ} {endMs : ℚ} (note : Coverage)
    (h : .coverage note ∈ closeOps first endMs) : note.signal ≠ DRAIN_SEQUENCE_SIGNAL := by
  have hnote : note = ⟨CALL_CLOSE_SIGNAL, "available", some CALL_CLOSE_REASON, none⟩ := by
    simpa [closeOps, boundFact] using h
  rw [hnote]
  decide

theorem abandonOps_ne {first last : Option ℚ} (note : Coverage)
    (h : .coverage note ∈ abandonOps first last) : note.signal ≠ DRAIN_SEQUENCE_SIGNAL := by
  have hnote : note =
      ⟨CALL_DURATION_SIGNAL, "partial", some CALL_DURATION_UNOBSERVED_REASON, none⟩ := by
    unfold abandonOps at h
    rcases List.mem_append.mp h with h | h
    · split at h
      · split at h
        · simp [boundFact] at h
        · cases h
      · cases h
    · simpa using h
  rw [hnote]
  decide

/-- The call's note of the drains lost. -/
def lossNote (call : CaptureCall Carry) : Option Coverage :=
  call.turn.recorder.noteOf DRAIN_SEQUENCE_SIGNAL

theorem lossNote_recording {ops : List RecorderOp}
    (h : ∀ note, .coverage note ∈ ops → note.signal ≠ DRAIN_SEQUENCE_SIGNAL)
    (call : CaptureCall Carry) : (call.recording C ops).2.lossNote = call.lossNote :=
  Turn.noteOf_recordAll h call.turn

/-- What follows the boundary does not touch the note. -/
theorem lossNote_project (h : call.project C drain decision = (true, call')) :
    call'.lossNote = (call.atFacts C drain decision).lossNote := by
  unfold project at h
  split at h
  · cases h
  · next call₁ h₁ =>
    have hfacts : call₁.lossNote = (call.atFacts C drain decision).lossNote := by
      generalize call.atFacts C drain decision = call₀ at h₁ ⊢
      unfold journalFacts at h₁
      dsimp only at h₁
      split at h₁
      · cases h₁
      · next call₂ h₂ =>
        have hsecond := lossNote_recording (C := C) (applyFacts_ne (C.applyAudioGraph
          drain.deviceEvents)) { call₂ with
            carry := (C.applyWebrtcStats call₀.carry drain.snapshots).carry }
        rw [h₁] at hsecond
        have hfirst := lossNote_recording (C := C) (show ∀ note, .coverage note ∈
            clientCoverage drain ++ rejections drain ++ applyFacts (C.applyWebrtcStats call₀.carry
              drain.snapshots).toEngineFacts → note.signal ≠ DRAIN_SEQUENCE_SIGNAL from
          fun note hmem => by
            rcases List.mem_append.mp hmem with hmem | hmem
            · rcases List.mem_append.mp hmem with hmem | hmem
              · exact clientCoverage_ne note hmem
              · exact rejections_ne note hmem
            · exact applyFacts_ne _ note hmem) call₀
        rw [h₂] at hfirst
        exact hsecond.trans hfirst
    rw [← hfacts]
    split at h
    · cases h
      rfl
    · next ending hending =>
      unfold recordEnd at h
      split at h
      · have hclose := lossNote_recording (C := C) (@closeOps_ne call₁.firstObservedMs
          ending.timestampMs) call₁
        split at h
        · cases h
        · next call₂ h₂ =>
          rw [h₂] at hclose
          cases h
          rw [← hclose]
          unfold lossNote Recorder.finalizeJournal
          dsimp only
          split <;> rfl
      · have habandon := lossNote_recording (C := C) (@abandonOps_ne
          call₁.firstObservedMs call₁.lastObservedMs) call₁
        rw [h] at habandon
        exact habandon

/-- The recorder where a gap's loss is noted. -/
def atLoss (C : CaptureConfig Carry) (call : CaptureCall Carry) : Recorder :=
  ((call.declareIdentity C).crossRestart C).turn.recorder

theorem atLoss_noteOf (call : CaptureCall Carry) :
    (call.atLoss C).noteOf DRAIN_SEQUENCE_SIGNAL = call.lossNote := by
  have hidentity : (call.declareIdentity C).lossNote = call.lossNote := by
    unfold declareIdentity
    split
    · rfl
    · exact Recorder.noteOf_recordCoverage_of_ne (by decide)
  rw [← hidentity]
  show ((call.declareIdentity C).crossRestart C).lossNote = _
  unfold crossRestart
  split
  · exact Recorder.noteOf_recordCoverage_of_ne (by decide)
  · rfl

/-- The note a gap asks for. -/
def gapNote (call : CaptureCall Carry) (resync : ResyncClaim) : Coverage where
  signal := DRAIN_SEQUENCE_SIGNAL
  availability := "partial"
  reason := some resync.reason
  droppedCount := some (lostDrains call.applied resync)

/-- The gap's note is the call's where it is the first; a drain without a
gap leaves the note. -/
theorem lossNote_atFacts (call : CaptureCall Carry) (drain : CaptureDrain) (decision : Decision) :
    (call.atFacts C drain decision).lossNote =
      match decision with
      | .applyGap resync =>
          ((call.atLoss C).recordCoverage C.recorder (call.gapNote resync)).noteOf
            DRAIN_SEQUENCE_SIGNAL
      | .apply | .replay => call.lossNote := by
  obtain ⟨first, last, heq, -⟩ := observeSamples_eq call drain
  unfold atFacts
  rw [heq]
  dsimp only
  generalize hcall : ({ call with
    firstObservedMs := first
    lastObservedMs := last
    lossy := _ } : CaptureCall Carry) = observed
  have hloss : observed.atLoss C = call.atLoss C := by
    subst hcall
    cases hid : call.identityDeclared <;> cases hr : call.restarted <;>
      simp [atLoss, declareIdentity, crossRestart, noting, hid, hr]
  have hnote : observed.lossNote = call.lossNote := by
    subst hcall
    rfl
  have happlied : observed.applied = call.applied := by
    subst hcall
    rfl
  have hbefore : ((observed.declareIdentity C).crossRestart C).applied = observed.applied :=
    ((settles_declareIdentity observed).trans (settles_crossRestart _)).recorded.applied
  cases decision with
  | applyGap resync =>
      refine (Recorder.noteOf_recordCoverage_of_ne (by decide)).trans ?_
      show (Recorder.recordCoverage C.recorder (observed.atLoss C) ⟨DRAIN_SEQUENCE_SIGNAL,
        "partial", some resync.reason, some (lostDrains _ resync)⟩).noteOf _ = _
      rw [hbefore, happlied, hloss]
      rfl
  | apply | replay =>
      rw [← hnote]
      exact atLoss_noteOf observed

end CaptureCall

/-! ## The loss accounted -/

variable {Carry : Type}

/-- The numbers a drain resolves: those it declares lost, and its own. -/
def Accepted.resolved (a : Accepted Carry) : List ℕ := a.lost ++ [a.drain.drainSequence]

/-- The count a call's coverage declares of the drains lost. -/
def declaredDropped (coverage : List Coverage) : ℕ :=
  ((coverage.find? (·.signal = DRAIN_SEQUENCE_SIGNAL)).bind (·.droppedCount)).getD 0

namespace CallRun

variable {C : CaptureConfig Carry} {s s' : CallRun Carry} {drain : CaptureDrain}

/-- How many drains were declared lost. -/
def lostTotal (s : CallRun Carry) : ℕ := (s.accepted.map (·.lost.length)).sum

/-- **A call's loss accounted**: every number resolved once, the total
declared, and every delta taken from the drain before it in one process. -/
structure LossAccounted (C : CaptureConfig Carry) (s : CallRun Carry) : Prop where
  resolved : s.accepted.flatMap (·.resolved) = List.range' 1 s.call.applied
  dropped : declaredDropped (replayCoverage s.entries) = s.lostTotal
  carries : ∀ a ∈ s.accepted, ∀ carry, a.carryIn C = some carry →
    ∃ b ∈ s.accepted, b.drain.drainSequence + 1 = a.drain.drainSequence ∧
      b.restarts = a.restarts ∧ b.carryOut C = some carry

/-- A gap's loss is the call's first, can be counted, and there is room to
note it. -/
def GapNoted (C : CaptureConfig Carry) (s : CallRun Carry) : CallOp → Prop
  | .restart _ _ => True
  | .drain drain => ∀ resync, s.call.classify C drain = .ok (.applyGap resync) →
      (∀ a ∈ s.accepted, a.lost = []) ∧
        CaptureCall.lostDrains s.call.applied resync ≤ MAX_LOSS_COUNT ∧
        ((s.call.atLoss C).tryAdmit C.recorder .coverage
          (C.recorder.coverageSize (s.call.gapNote resync))).1 = true

theorem classify_apply {call : CaptureCall Carry} (h : call.classify C drain = .ok .apply) :
    drain.drainSequence = call.applied + 1 := by
  unfold CaptureCall.classify at h
  dsimp only at h
  repeat' split at h
  all_goals first | assumption | cases h

/-- A gap's claim ends where its drain begins, and reaches what is applied. -/
theorem classify_applyGap {call : CaptureCall Carry} {resync : ResyncClaim}
    (h : call.classify C drain = .ok (.applyGap resync)) :
    call.applied + 1 < drain.drainSequence ∧
      resync.missedThrough = drain.drainSequence - 1 ∧
      resync.missedFrom ≤ call.applied + 1 := by
  unfold CaptureCall.classify at h
  dsimp only at h
  split at h
  · cases h
  · split at h
    · split at h <;> cases h
    · split at h
      · cases h
      · split at h
        · cases h
        · split at h
          · split at h
            · next hclaim =>
              cases h
              exact ⟨by omega, hclaim⟩
            · split at h <;> cases h
          · cases h

/-- What an accepted drain resolves follows what was resolved. -/
theorem resolved_of_classify {call : CaptureCall Carry} {decision : Decision}
    {entries : List JournalEntry} {restarts : ℕ}
    (h : call.classify C drain = .ok decision) (hne : decision ≠ .replay) :
    (⟨call, drain, decision, entries, restarts⟩ : Accepted Carry).resolved =
      List.range' (call.applied + 1) (drain.drainSequence - call.applied) := by
  cases decision with
  | apply =>
      have hseq := classify_apply h
      simp [Accepted.resolved, Accepted.lost, hseq]
  | applyGap resync =>
      obtain ⟨hlt, hthrough, hfrom⟩ := classify_applyGap h
      have hlost : CaptureCall.lostDrains call.applied resync =
          drain.drainSequence - call.applied - 1 := by
        unfold CaptureCall.lostDrains
        omega
      have hsplit : drain.drainSequence - call.applied =
          drain.drainSequence - call.applied - 1 + 1 := by omega
      simp only [Accepted.resolved, Accepted.lost, hlost, max_eq_right hfrom]
      rw [hsplit, List.range'_concat]
      congr 2
      omega
  | replay => exact absurd rfl hne

/-- The journal's note is the recorder's. -/
theorem Kept.lossNote_eq (hk : Kept C s) :
    s.call.lossNote =
      (replayCoverage s.entries).find? (·.signal = DRAIN_SEQUENCE_SIGNAL) := by
  obtain ⟨t, ht, hcov, -⟩ := hk.replays
  have hreplay : replayCoverage s.recorded = s.call.turn.recorder.coverage :=
    (Replay.replays_of_applyEach ht).coverage.symm.trans hcov
  have hentries : replayCoverage s.entries = s.call.turn.recorder.coverage := by
    by_cases hempty : s.accepted = []
    · have hnone : s.entries = [] := by simp [entries, hempty]
      obtain ⟨hheld, -, -, -, hopen, -⟩ := Recorder.opened_spec C.recorder
      have hopened := (Replay.replays_of_applyEach hheld).coverage
      rw [← hreplay, recorded, hnone, List.nil_append, hk.newEntries, if_pos hempty]
      exact hopen.symm.trans hopened
    · rw [← hreplay, recorded, hk.newEntries, if_neg hempty, List.append_nil]
  rw [hentries]
  rfl

theorem Kept.declaredDropped_eq (hk : Kept C s) :
    declaredDropped (replayCoverage s.entries) =
      (s.call.lossNote.bind (·.droppedCount)).getD 0 := by
  rw [hk.lossNote_eq]
  rfl

/-- What holds of the loss after any run, whatever is noted of it. -/
structure Tallied (C : CaptureConfig Carry) (s : CallRun Carry) : Prop where
  resolved : s.accepted.flatMap (·.resolved) = List.range' 1 s.call.applied
  carries : ∀ a ∈ s.accepted, ∀ carry, a.carryIn C = some carry →
    ∃ b ∈ s.accepted, b.drain.drainSequence + 1 = a.drain.drainSequence ∧
      b.restarts = a.restarts ∧ b.carryOut C = some carry
  carried : ∀ carry, s.call.carry = some carry → ∃ b, s.accepted.getLast? = some b ∧
    b.restarts = s.restarts ∧ b.carryOut C = some carry
  declared : (s.call.lossNote.bind (·.droppedCount)).getD 0 ≤ s.lostTotal
  unnoted : s.lostTotal = 0 → s.call.lossNote = none

theorem lostTotal_accepted {a : Accepted Carry} (h : s'.accepted = s.accepted ++ [a]) :
    s'.lostTotal = s.lostTotal + a.lost.length := by
  unfold lostTotal
  rw [h, List.map_append, List.sum_append]
  simp

/-- **An accepted drain's note**: the first gap's, where it can be made. -/
theorem lossNote_accept {decision : Decision} {call : CaptureCall Carry}
    (hproject : s.call.project C drain decision = (true, call))
    (hcall : s'.call = { (call.settle drain (s.call.identityOf C drain)).2 with
      outcomes := s'.call.outcomes }) :
    s'.call.lossNote = (s.call.atFacts C drain decision).lossNote := by
  rw [← CaptureCall.lossNote_project hproject, hcall]
  rfl

theorem lost_length {call : CaptureCall Carry} {decision : Decision}
    {entries : List JournalEntry} {restarts : ℕ} :
    (⟨call, drain, decision, entries, restarts⟩ : Accepted Carry).lost.length =
      match decision with
      | .applyGap resync => CaptureCall.lostDrains call.applied resync
      | .apply | .replay => 0 := by
  cases decision <;> simp [Accepted.lost]

theorem lostDrains_pos {call : CaptureCall Carry} {resync : ResyncClaim}
    (h : call.classify C drain = .ok (.applyGap resync)) :
    0 < CaptureCall.lostDrains call.applied resync := by
  obtain ⟨hlt, hthrough, hfrom⟩ := classify_applyGap h
  unfold CaptureCall.lostDrains
  omega

/-- The note after a gap: the one there was, or the gap's own if it could be
made. -/
theorem lossNote_gap (call : CaptureCall Carry) (resync : ResyncClaim) :
    (call.atFacts C drain (.applyGap resync)).lossNote =
      match call.lossNote with
      | some note => some note
      | none =>
          if ((call.atLoss C).tryAdmit C.recorder .coverage (C.recorder.coverageSize
              { call.gapNote resync with
                droppedCount := Recorder.boundedLossCount (call.gapNote resync).droppedCount })).1
          then some { call.gapNote resync with
            droppedCount := Recorder.boundedLossCount (call.gapNote resync).droppedCount }
          else none := by
  rw [CaptureCall.lossNote_atFacts]
  have hnote := CaptureCall.atLoss_noteOf (C := C) call
  cases hcall : call.lossNote with
  | none => exact Recorder.noteOf_recordCoverage (hnote.trans hcall)
  | some note =>
      have hpart : (call.gapNote resync).availability ≠ "available" := by
        show "partial" ≠ "available"
        decide
      exact Recorder.noteOf_recordCoverage_of_some (hnote.trans hcall) hpart

theorem tallied_opened (drain : CaptureDrain) : Tallied C (opened C drain) where
  resolved := rfl
  carries := by simp [opened]
  carried := by simp [opened, CaptureCall.fresh]
  declared := by
    have hnone : (opened C drain).call.lossNote = none := by
      show (Recorder.opened C.recorder).coverage.find? _ = none
      rw [(Recorder.opened_spec C.recorder).2.2.2.2.1]
      rfl
    rw [hnone]
    exact Nat.zero_le _
  unnoted := by
    intro _
    show (Recorder.opened C.recorder).coverage.find? _ = none
    rw [(Recorder.opened_spec C.recorder).2.2.2.2.1]
    rfl

theorem Tallied.accept (h : Tallied C s) (hk : Sound C s) (hs : s.accept C drain = some s') :
    Tallied C s' := by
  obtain ⟨decision, call, hclassify, hne, -, hproject, -, happlied, -, hcall, haccepted,
    hrestarts⟩ := accept_cases hs
  obtain ⟨t, hp, -, hcarry⟩ := CaptureCall.projects_project hproject
  have hlt := applied_lt_of_classify hclassify hne
  have hnote := lossNote_accept hproject hcall
  have htotal := lostTotal_accepted haccepted
  rw [lost_length] at htotal
  have hcarry' : s'.call.carry =
      (C.applyWebrtcStats (s.call.atFacts C drain decision).carry drain.snapshots).carry := by
    rw [hcall]
    exact hcarry
  constructor
  · rw [haccepted, List.flatMap_append, h.resolved, List.flatMap_singleton,
      resolved_of_classify hclassify hne, happlied, Nat.add_comm s.call.applied 1,
      List.range'_append_1]
    congr 1
    omega
  · intro a ha carry hin
    rw [haccepted] at ha ⊢
    rcases List.mem_append.mp ha with ha | ha
    · obtain ⟨b, hb, hrest⟩ := h.carries a ha carry hin
      exact ⟨b, List.mem_append_left _ hb, hrest⟩
    · rw [List.mem_singleton.mp ha] at hin ⊢
      rw [Accepted.carryIn, CaptureCall.carry_atFacts] at hin
      -- only a drain that is next, in the process that kept the carry, has one
      cases decision with
      | applyGap resync => cases hin
      | replay => exact absurd rfl hne
      | apply =>
          dsimp only at hin
          split at hin
          · cases hin
          · obtain ⟨b, hlast, hrest, hout⟩ := h.carried carry hin
            refine ⟨b, List.mem_append_left _ (List.mem_of_getLast? hlast), ?_, hrest, hout⟩
            rw [(hk.ledger.latest b hlast).2.1]
            exact (classify_apply hclassify).symm
  · intro carry hsome
    refine ⟨_, by rw [haccepted, List.getLast?_concat], hrestarts.symm, ?_⟩
    rw [← hsome, hcarry']
    rfl
  · rw [hnote, htotal]
    have hdeclared := h.declared
    cases decision with
    | applyGap resync =>
        rw [lossNote_gap]
        dsimp only
        split
        · next note heq =>
          rw [heq] at hdeclared
          exact hdeclared.trans (Nat.le_add_right _ _)
        · split
          · refine le_trans ?_ (Nat.le_add_left _ _)
            simp only [Option.bind_some, CaptureCall.gapNote, Recorder.boundedLossCount]
            cases hfilter : Option.filter (fun n => decide (n ≤ MAX_LOSS_COUNT))
              (some (CaptureCall.lostDrains s.call.applied resync)) with
            | none => exact Nat.zero_le _
            | some n =>
                rw [Option.filter_eq_some_iff] at hfilter
                cases hfilter.1
                exact Nat.le_refl _
          · exact Nat.zero_le _
    | apply | replay =>
        rw [CaptureCall.lossNote_atFacts]
        exact hdeclared
  · intro hzero
    rw [htotal] at hzero
    rw [hnote]
    cases decision with
    | applyGap resync =>
        have hpos := lostDrains_pos hclassify
        dsimp only at hzero
        omega
    | apply | replay =>
        rw [CaptureCall.lossNote_atFacts]
        exact h.unnoted (by simpa using hzero)

/-- A restart neither notes nor loses a drain. -/
theorem restart_lossNote {retry : Option DrainIdentity} (hk : Sound C s)
    (hs : s.restart C drain retry = some s') :
    s'.call.lossNote = s.call.lossNote ∧ s'.lostTotal = s.lostTotal := by
  have hk' := hk.kept.restart hk.ledger hs
  obtain ⟨-, haccepted, -⟩ := restart_cases hs
  have hentries : s'.entries = s.entries := by simp [entries, haccepted]
  refine ⟨?_, by simp [lostTotal, haccepted]⟩
  rw [hk'.lossNote_eq, hk.kept.lossNote_eq, hentries]

theorem Tallied.restart {retry : Option DrainIdentity} (h : Tallied C s) (hk : Sound C s)
    (hs : s.restart C drain retry = some s') : Tallied C s' := by
  obtain ⟨hnote, htotal⟩ := restart_lossNote hk hs
  obtain ⟨-, haccepted, -, hcases⟩ := restart_cases hs
  have hcall : s'.call.applied = s.call.applied ∧ s'.call.carry = none := by
    rcases hcases with ⟨hempty, hcall⟩ | ⟨-, -, hcall⟩
    · obtain ⟨d, r, hfresh⟩ := hk.ledger.fresh hempty
      rw [hcall, hfresh]
      exact ⟨rfl, rfl⟩
    · rw [hcall]
      exact ⟨rfl, rfl⟩
  constructor
  · rw [haccepted, hcall.1, h.resolved]
  · rw [haccepted]
    exact h.carries
  · intro carry hsome
    rw [hcall.2] at hsome
    cases hsome
  · rw [hnote, htotal]
    exact h.declared
  · rw [hnote, htotal]
    exact h.unnoted

/-- What every step keeps, whatever is noted. -/
def Accounting (C : CaptureConfig Carry) (s : CallRun Carry) : Prop := Sound C s ∧ Tallied C s

theorem accounting_step {op : CallOp} (h : Accounting C s) (hs : step C s op = some s') :
    Accounting C s' := by
  refine ⟨h.1.step hs, ?_⟩
  cases op with
  | drain drain => exact h.2.accept h.1 hs
  | restart drain retry => exact h.2.restart h.1 hs

/-- Whether the total is declared is all that is left. -/
theorem lossAccounted_iff (h : Accounting C s) :
    LossAccounted C s ↔ (s.call.lossNote.bind (·.droppedCount)).getD 0 = s.lostTotal := by
  rw [← h.1.kept.declaredDropped_eq]
  exact ⟨fun ha => ha.dropped, fun hd => ⟨h.2.resolved, hd, h.2.carries⟩⟩

theorem lostTotal_eq_zero : s.lostTotal = 0 ↔ ∀ a ∈ s.accepted, a.lost = [] := by
  unfold lostTotal
  induction s.accepted with
  | nil => simp
  | cons a accepted ih => simp [ih]

/-- **What an accepted drain adds** to the note and to the total. -/
theorem accept_lossNote (hs : s.accept C drain = some s') :
    ∃ decision, s.call.classify C drain = .ok decision ∧
      s'.call.lossNote = (s.call.atFacts C drain decision).lossNote ∧
      s'.lostTotal = s.lostTotal +
        match decision with
        | .applyGap resync => CaptureCall.lostDrains s.call.applied resync
        | .apply | .replay => 0 := by
  obtain ⟨decision, call, hclassify, -, -, hproject, -, -, -, hcall, haccepted, -⟩ :=
    accept_cases hs
  exact ⟨decision, hclassify, lossNote_accept hproject hcall,
    (lostTotal_accepted haccepted).trans (by rw [lost_length])⟩

theorem boundedLossCount_of_le {count : ℕ} (h : count ≤ MAX_LOSS_COUNT) :
    Recorder.boundedLossCount (some count) = some count := by
  simp [Recorder.boundedLossCount, h]

theorem boundedLossCount_of_lt {count : ℕ} (h : MAX_LOSS_COUNT < count) :
    Recorder.boundedLossCount (some count) = none := by
  simp [Recorder.boundedLossCount, h]

/-- A gap that is noted is counted. -/
theorem lossAccounted_keep {op : CallOp} (h : Accounting C s) (hacc : LossAccounted C s)
    (hgap : GapNoted C s op) (hs : step C s op = some s') : LossAccounted C s' := by
  rw [lossAccounted_iff (accounting_step h hs)]
  have hdropped := (lossAccounted_iff h).mp hacc
  cases op with
  | restart drain retry =>
      obtain ⟨hnote, htotal⟩ := restart_lossNote h.1 hs
      rw [hnote, htotal, hdropped]
  | drain drain =>
      obtain ⟨decision, hclassify, hnote, htotal⟩ := accept_lossNote hs
      cases decision with
      | applyGap resync =>
          obtain ⟨hfirst, hbound, hroom⟩ := hgap resync hclassify
          have hzero := lostTotal_eq_zero.mpr hfirst
          have hcount : Recorder.boundedLossCount (s.call.gapNote resync).droppedCount =
              (s.call.gapNote resync).droppedCount := boundedLossCount_of_le hbound
          rw [hnote, lossNote_gap, h.2.unnoted hzero, hcount, htotal, hzero]
          dsimp only
          rw [if_pos hroom, Nat.zero_add]
          rfl
      | apply | replay =>
          rw [hnote, CaptureCall.lossNote_atFacts, htotal]
          exact hdropped

/-- A gap that is not leaves the count short. -/
theorem lossAccounted_short {op : CallOp} (h : Accounting C s) (hgap : ¬ GapNoted C s op)
    (hs : step C s op = some s') : ¬ LossAccounted C s' := by
  rw [lossAccounted_iff (accounting_step h hs)]
  cases op with
  | restart drain retry => exact absurd trivial hgap
  | drain drain =>
      obtain ⟨decision, hclassify, hnote, htotal⟩ := accept_lossNote hs
      cases decision with
      | applyGap resync =>
          have hpos := lostDrains_pos hclassify
          have hdeclared := h.2.declared
          rw [hnote, lossNote_gap, htotal]
          dsimp only
          cases hold : s.call.lossNote with
          | some note =>
              rw [hold] at hdeclared
              dsimp only at hdeclared ⊢
              omega
          | none =>
              dsimp only
              split
              · next hroom =>
                by_cases hbound : CaptureCall.lostDrains s.call.applied resync ≤ MAX_LOSS_COUNT
                · -- it was noted, so an earlier gap was not
                  have hcount : Recorder.boundedLossCount (s.call.gapNote resync).droppedCount =
                      (s.call.gapNote resync).droppedCount := boundedLossCount_of_le hbound
                  rw [hcount] at hroom ⊢
                  have hearlier : s.lostTotal ≠ 0 := by
                    intro hzero
                    refine hgap fun resync' hclassify' => ?_
                    rw [hclassify] at hclassify'
                    cases hclassify'
                    exact ⟨lostTotal_eq_zero.mp hzero, hbound, hroom⟩
                  simp only [CaptureCall.gapNote, Option.bind_some, Option.getD_some]
                  omega
                · have hcount : Recorder.boundedLossCount (s.call.gapNote resync).droppedCount =
                      none := boundedLossCount_of_lt (Nat.lt_of_not_le hbound)
                  rw [hcount]
                  simp only [Option.bind_some, Option.getD_none]
                  omega
              · simp only [Option.bind_none, Option.getD_none]
                omega
      | apply | replay =>
          refine absurd (fun resync hgap' => ?_) hgap
          rw [hclassify] at hgap'
          cases hgap'

/-- **Loss is accounted exactly while every gap is the call's first and can
be noted.** -/
theorem accounted_iff (drain : CaptureDrain) (ops : List CallOp) :
    (∀ pre, pre <+: ops → LossAccounted C (Transition.run (step C) (opened C drain) pre)) ↔
      ∀ pre op post, ops = pre ++ op :: post →
        (step C (Transition.run (step C) (opened C drain) pre) op).isSome = true →
        GapNoted C (Transition.run (step C) (opened C drain) pre) op := by
  have hopened : Accounting C (opened C drain) := ⟨sound_opened drain, tallied_opened drain⟩
  refine Transition.forall_prefix_iff (I := Accounting C)
    (fun _ _ _ hI hs => accounting_step hI hs)
    (fun _ _ _ hI hP hG hs => lossAccounted_keep hI hP hG hs)
    (fun _ _ _ hI _ hG hs => lossAccounted_short hI hG hs) hopened ?_ ops
  rw [lossAccounted_iff hopened]
  have hzero : (opened C drain).lostTotal = 0 := rfl
  rw [hopened.2.unnoted hzero, hzero]
  rfl

/-- What two gaps of one drain each journal. -/
def gapTable : List JournalEntry :=
  [.opened, .adapter, .clockDomain,
    .coverage ⟨IDENTITY_SIGNAL, "partial", some IDENTITY_REASON, none⟩ none,
    .coverage ⟨DRAIN_SEQUENCE_SIGNAL, "partial", some "upload_failed_payload_dropped", some 1⟩
      none,
    .coverage ⟨STATS_CONTINUITY_SIGNAL, "partial", some STATS_CONTINUITY_REASON, none⟩ none,
    .fact ⟨⟨.event, "first", none, "first", 0, []⟩, 1⟩,
    .fact ⟨⟨.event, "second", none, "second", 0, []⟩, 2⟩]

/-- A drain whose predecessor was given up. -/
def gapDrain (sequence : ℕ) (event : String) : CaptureDrain :=
  smallDrain sequence [event]
    (some ⟨sequence - 1, sequence - 1, "upload_failed_payload_dropped"⟩) none

/-- Drains 2 and 4 arrive, 1 and 3 are declared lost. -/
def gapRun : CallRun Sample :=
  Transition.run (step (smallCapture gapTable)) (opened (smallCapture gapTable) (gapDrain 2 "first"))
    [.drain (gapDrain 2 "first"), .drain (gapDrain 4 "second")]

/-- **A second gap is not counted**: two drains were lost, and the call
declares one. -/
theorem gapRun_unaccounted : ¬ LossAccounted (smallCapture gapTable) gapRun := by
  intro h
  have hdropped := h.dropped
  have hdeclared : declaredDropped (replayCoverage gapRun.entries) = 1 := by decide
  have htotal : gapRun.lostTotal = 2 := by decide
  omega

end CallRun

end Earshot
