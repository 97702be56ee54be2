import Earshot.Browser.Journaled
import Earshot.Browser.Runs
/-!
# What accepting a drain does

Recording a drain touches the turn, the carry, the observed span and the
flags, and no more (`Recorded`); what it journals is what the turn logged,
closed by a finalize entry if the drain ended the call. From that come the
equations of one accepted drain (`accept_cases`) and the invariant of a run
(`CallRun.Sound`): what was journaled, the call's recorder and its ledger
agree after any drains and restarts.
-/

namespace Earshot

namespace CaptureCall

variable {Carry : Type} {C : CaptureConfig Carry} {call call' call'' : CaptureCall Carry}
variable {drain : CaptureDrain} {decision : Decision}

/-- What recording leaves as it was. -/
structure Recorded (call call' : CaptureCall Carry) : Prop where
  applied : call'.applied = call.applied
  digests : call'.digests = call.digests
  outcomes : call'.outcomes = call.outcomes
  retry : call'.retry = call.retry
  finalized : call'.finalized = call.finalized
  callMetadataDigest : call'.callMetadataDigest = call.callMetadataDigest
  callMetadataBound : call'.callMetadataBound = call.callMetadataBound
  recordLimitRefusal : call'.recordLimitRefusal = call.recordLimitRefusal

theorem Recorded.refl (call : CaptureCall Carry) : Recorded call call := by
  constructor <;> rfl

theorem Recorded.trans (h : Recorded call call') (h' : Recorded call' call'') :
    Recorded call call'' where
  applied := h'.applied.trans h.applied
  digests := h'.digests.trans h.digests
  outcomes := h'.outcomes.trans h.outcomes
  retry := h'.retry.trans h.retry
  finalized := h'.finalized.trans h.finalized
  callMetadataDigest := h'.callMetadataDigest.trans h.callMetadataDigest
  callMetadataBound := h'.callMetadataBound.trans h.callMetadataBound
  recordLimitRefusal := h'.recordLimitRefusal.trans h.recordLimitRefusal

/-! ## The observed span -/

/-- Both bounds are known or neither, and in order. -/
def SpanOrdered (first last : Option ℚ) : Prop :=
  (first = none ∧ last = none) ∨ ∃ a b, first = some a ∧ last = some b ∧ a ≤ b

/-- Observing touches the span alone. -/
theorem observeSamples_eq (call : CaptureCall Carry) (drain : CaptureDrain) :
    ∃ first last, call.observeSamples drain =
        { call with firstObservedMs := first, lastObservedMs := last } ∧
      (SpanOrdered call.firstObservedMs call.lastObservedMs → SpanOrdered first last) := by
  unfold observeSamples
  generalize drain.snapshots ++ drain.deviceEvents = samples
  induction samples generalizing call with
  | nil => exact ⟨_, _, rfl, id⟩
  | cons sample samples ih =>
      rw [List.foldl_cons]
      cases hreading : sample.timestampMs with
      | none => exact ih call
      | some reading =>
          obtain ⟨first, last, heq, hspan⟩ := ih
            { call with
              firstObservedMs := some (call.firstObservedMs.elim reading (min reading))
              lastObservedMs := some (call.lastObservedMs.elim reading (max reading)) }
          refine ⟨first, last, heq, fun h => hspan ?_⟩
          rcases h with ⟨hf, hl⟩ | ⟨a, b, hf, hl, hab⟩
          · simp [SpanOrdered, hf, hl]
          · simp only [SpanOrdered, hf, hl]
            exact .inr ⟨_, _, rfl, rfl, (min_le_left _ _).trans (le_max_left _ _)⟩

/-! ## Coverage and facts -/

theorem exists_logs_noting (call : CaptureCall Carry) (signal availability reason : String)
    (dropped : Option ℕ) :
    ∃ entries, call.turn.Logs (call.noting C signal availability reason dropped).turn entries := by
  obtain ⟨entries, hlogs, hfacts⟩ := Recorder.exists_logs_recordCoverage (R := C.recorder)
    (r := call.turn.recorder) ⟨signal, availability, some reason, dropped⟩
  exact ⟨entries, .of_recorder hlogs hfacts⟩

/-- What settling the boundary does: notes on the turn, and the carry. -/
structure Settles (call call' : CaptureCall Carry) : Prop where
  recorded : Recorded call call'
  first : call'.firstObservedMs = call.firstObservedMs
  last : call'.lastObservedMs = call.lastObservedMs
  logs : ∃ entries, call.turn.Logs call'.turn entries

theorem Settles.refl (call : CaptureCall Carry) : Settles call call :=
  ⟨.refl call, rfl, rfl, [], .refl _⟩

theorem Settles.trans (h : Settles call call') (h' : Settles call' call'') :
    Settles call call'' := by
  obtain ⟨entries, hlogs⟩ := h.logs
  obtain ⟨entries', hlogs'⟩ := h'.logs
  exact ⟨h.recorded.trans h'.recorded, h'.first.trans h.first, h'.last.trans h.last,
    entries ++ entries', hlogs.trans hlogs'⟩

/-- A note, and whatever else the boundary flags. -/
theorem settles_noting (call : CaptureCall Carry) (signal availability reason : String)
    (dropped : Option ℕ) : Settles call (call.noting C signal availability reason dropped) :=
  ⟨by constructor <;> rfl, rfl, rfl, exists_logs_noting call _ _ _ _⟩

theorem settles_declareIdentity (call : CaptureCall Carry) :
    Settles call (call.declareIdentity C) := by
  unfold declareIdentity
  split
  · exact .refl call
  · obtain ⟨hrecorded, hfirst, hlast, hlogs⟩ :=
      settles_noting (C := C) call IDENTITY_SIGNAL "partial" IDENTITY_REASON none
    exact ⟨⟨hrecorded.1, hrecorded.2, hrecorded.3, hrecorded.4, hrecorded.5, hrecorded.6,
      hrecorded.7, hrecorded.8⟩, hfirst, hlast, hlogs⟩

theorem settles_crossRestart (call : CaptureCall Carry) : Settles call (call.crossRestart C) := by
  unfold crossRestart
  split
  · obtain ⟨hrecorded, hfirst, hlast, hlogs⟩ := settles_noting (C := C) call
      STATS_CONTINUITY_SIGNAL "partial" STATS_CONTINUITY_RESTART_REASON none
    exact ⟨⟨hrecorded.1, hrecorded.2, hrecorded.3, hrecorded.4, hrecorded.5, hrecorded.6,
      hrecorded.7, hrecorded.8⟩, hfirst, hlast, hlogs⟩
  · exact .refl call

theorem settles_declareLoss (call : CaptureCall Carry) (decision : Decision) :
    Settles call (call.declareLoss C decision) := by
  unfold declareLoss
  split
  · next resync =>
    obtain ⟨hrecorded, hfirst, hlast, hlogs⟩ :=
      (settles_noting (C := C) call DRAIN_SEQUENCE_SIGNAL "partial" resync.reason
        (some (lostDrains call.applied resync))).trans (settles_noting (C := C) _
          STATS_CONTINUITY_SIGNAL "partial" STATS_CONTINUITY_REASON none)
    exact ⟨⟨hrecorded.1, hrecorded.2, hrecorded.3, hrecorded.4, hrecorded.5, hrecorded.6,
      hrecorded.7, hrecorded.8⟩, hfirst, hlast, hlogs⟩
  · exact .refl call
  · exact .refl call

/-- The carry survives the boundary only where nothing was lost. -/
theorem carry_settleBoundary (call : CaptureCall Carry) (decision : Decision) :
    (call.settleBoundary C decision).carry =
      match decision with
      | .applyGap _ => none
      | .apply | .replay => if call.restarted then none else call.carry := by
  have hidentity : (call.declareIdentity C).carry = call.carry ∧
      (call.declareIdentity C).restarted = call.restarted := by
    unfold declareIdentity
    split <;> exact ⟨rfl, rfl⟩
  have hcross : ((call.declareIdentity C).crossRestart C).carry =
      if call.restarted then none else call.carry := by
    unfold crossRestart
    rw [hidentity.2]
    split
    · rfl
    · exact hidentity.1
  cases decision with
  | applyGap resync => rfl
  | apply | replay => exact hcross

theorem restarted_settleBoundary (call : CaptureCall Carry) (decision : Decision) :
    (call.settleBoundary C decision).restarted = false := by
  have hcross : ((call.declareIdentity C).crossRestart C).restarted = false := by
    unfold crossRestart
    split
    · rfl
    · next h => exact Bool.eq_false_iff.mpr h
  cases decision with
  | applyGap resync => exact hcross
  | apply | replay => exact hcross

theorem settles_settleBoundary (call : CaptureCall Carry) (decision : Decision) :
    Settles call (call.settleBoundary C decision) :=
  ((settles_declareIdentity call).trans (settles_crossRestart _)).trans
    (settles_declareLoss _ decision)

/-! ## A drain recorded -/

/-- What a recorded drain leaves: its turn logged, its boundary behind it. -/
structure Projects (call call' : CaptureCall Carry) (t : Turn) : Prop where
  recorded : Recorded call call'
  span : SpanOrdered call.firstObservedMs call.lastObservedMs →
    SpanOrdered call'.firstObservedMs call'.lastObservedMs
  restarted : call'.restarted = false
  logs : ∃ entries, call.turn.Logs t entries

theorem projects_atFacts (call : CaptureCall Carry) (drain : CaptureDrain) (decision : Decision) :
    Projects call (call.atFacts C drain decision) (call.atFacts C drain decision).turn := by
  unfold atFacts
  obtain ⟨first, last, heq, hspan⟩ := observeSamples_eq call drain
  rw [heq]
  dsimp only
  generalize hcall : ({ call with
    firstObservedMs := first
    lastObservedMs := last
    lossy := _ } : CaptureCall Carry) = observed
  have hsettles := settles_settleBoundary (C := C) observed decision
  subst hcall
  refine ⟨.trans (by constructor <;> rfl) hsettles.recorded, fun h => ?_,
    restarted_settleBoundary _ _, hsettles.logs⟩
  rw [hsettles.first, hsettles.last]
  exact hspan h

/-- What the deltas are taken from: the carry, where nothing was lost. -/
theorem carry_atFacts (call : CaptureCall Carry) (drain : CaptureDrain) (decision : Decision) :
    (call.atFacts C drain decision).carry =
      match decision with
      | .applyGap _ => none
      | .apply | .replay => if call.restarted then none else call.carry := by
  unfold atFacts
  obtain ⟨first, last, heq, -⟩ := observeSamples_eq call drain
  rw [heq]
  exact carry_settleBoundary _ decision

/-- Recording more on the turn. -/
theorem Projects.recording {t : Turn} (h : Projects call call' t) (ht : call'.turn = t)
    (ops : List RecorderOp) :
    Projects call (call'.recording C ops).2 (call'.recording C ops).2.turn := by
  obtain ⟨entries, hlogs⟩ := h.logs
  obtain ⟨entries', hlogs'⟩ := Turn.exists_logs_recordAll (R := C.recorder) ops t
  subst ht
  exact ⟨h.recorded.trans (by constructor <;> rfl), h.span, h.restarted, entries ++ entries',
    hlogs.trans hlogs'⟩

theorem projects_journalFacts (h : Projects call call' call'.turn)
    (hfacts : call'.journalFacts C drain = (true, call'')) :
    Projects call call'' call''.turn ∧
      call''.carry = (C.applyWebrtcStats call'.carry drain.snapshots).carry := by
  unfold journalFacts at hfacts
  dsimp only at hfacts
  split at hfacts
  · cases hfacts
  · next call₁ h₁ =>
    have hp₁ := h.recording (C := C) rfl (clientCoverage drain ++ rejections drain ++
      applyFacts (C.applyWebrtcStats call'.carry drain.snapshots).toEngineFacts)
    rw [h₁] at hp₁
    have hcarry : Projects call
        { call₁ with carry := (C.applyWebrtcStats call'.carry drain.snapshots).carry }
        call₁.turn :=
      ⟨hp₁.recorded.trans (by constructor <;> rfl), hp₁.span, hp₁.restarted, hp₁.logs⟩
    have hp₂ := hcarry.recording (C := C) rfl (applyFacts (C.applyAudioGraph drain.deviceEvents))
    have heq := congrArg Prod.snd hfacts
    dsimp only at heq
    rw [← heq]
    exact ⟨hp₂, rfl⟩

/-- The turn once an ended drain is recorded. -/
def closedTurn (call : CaptureCall Carry) (drain : CaptureDrain) (t : Turn) : Turn :=
  match drain.ending with
  | some ending =>
      if ending.finalizes then
        { t with
          recorder := t.recorder.finalizeJournal ending.timestampMs
            (if call.lossy then STATUS_INCOMPLETE else STATUS_COMPLETE) }
      else t
  | none => t

/-- **A drain recorded without a verb raising.** -/
theorem projects_project (h : call.project C drain decision = (true, call')) :
    ∃ t, Projects call call' t ∧ call'.turn = call'.closedTurn drain t ∧
      call'.carry = (C.applyWebrtcStats (call.atFacts C drain decision).carry
        drain.snapshots).carry := by
  unfold project at h
  split at h
  · cases h
  · next call₁ h₁ =>
    obtain ⟨hp, hcarry⟩ := projects_journalFacts (projects_atFacts call drain decision) h₁
    unfold closedTurn
    cases hending : drain.ending with
    | none =>
        rw [hending] at h
        cases h
        exact ⟨_, hp, rfl, hcarry⟩
    | some ending =>
        rw [hending] at h
        dsimp only at h ⊢
        unfold recordEnd at h
        split at h
        · next hfin =>
          have hp' := hp.recording (C := C) rfl
            (closeOps call₁.firstObservedMs ending.timestampMs)
          split at h
          · cases h
          · next call₂ h₂ =>
            rw [h₂] at hp'
            have hcarry₂ : call₂.carry = call₁.carry := by
              rw [← congrArg (·.2.carry) h₂]
              rfl
            cases h
            refine ⟨call₂.turn, ⟨hp'.recorded.trans (by constructor <;> rfl), hp'.span,
              hp'.restarted, hp'.logs⟩, ?_, hcarry₂.trans hcarry⟩
            rw [if_pos hfin]
        · next hfin =>
          have hp' := hp.recording (C := C) rfl
            (abandonOps call₁.firstObservedMs call₁.lastObservedMs)
          have heq := congrArg Prod.snd h
          dsimp only at heq
          rw [heq] at hp'
          refine ⟨call'.turn, hp', ?_, ?_⟩
          · rw [if_neg hfin]
          · rw [← heq]
            exact hcarry

/-- The entry an ended drain is closed with. -/
def closing (call : CaptureCall Carry) (drain : CaptureDrain) (r : Recorder) : List JournalEntry :=
  match drain.ending with
  | some ending =>
      if ending.finalizes then
        [.finalize ⟨if call.lossy then STATUS_INCOMPLETE else STATUS_COMPLETE, ending.timestampMs,
          r.limits, r.counts⟩]
      else []
  | none => []

/-- A turn not closed yet is closed by one entry. -/
theorem closedTurn_eq {t : Turn} (h : t.recorder.closed = false) :
    call.closedTurn drain t =
      { t with
        recorder := { t.recorder with
          newEntries := t.recorder.newEntries ++ call.closing drain t.recorder
          closed := drain.finalizes } } := by
  unfold closedTurn closing CaptureDrain.finalizes
  cases drain.ending with
  | none => simp [← h]
  | some ending =>
      dsimp only
      split
      · next hfin => simp [Recorder.finalizeJournal, h, Recorder.push, hfin]
      · next hfin => simp [hfin, ← h]

theorem finalizeOf_closing (call : CaptureCall Carry) (drain : CaptureDrain) (r : Recorder) :
    (finalizeOf (call.closing drain r)).isSome = drain.finalizes := by
  unfold closing CaptureDrain.finalizes
  cases drain.ending with
  | none => rfl
  | some ending =>
      dsimp only
      split
      · next hfin => simp [finalizeOf, hfin]
      · next hfin => simp [finalizeOf, hfin]

theorem factsOf_closing (call : CaptureCall Carry) (drain : CaptureDrain) (r : Recorder) :
    factsOf (call.closing drain r) = [] := by
  unfold closing
  split
  · split <;> rfl
  · rfl

/-- A finalize entry changes no list. -/
theorem applyEach_closing (call : CaptureCall Carry) (drain : CaptureDrain) (r : Recorder)
    (add : ℕ → ℕ → ℕ) (t : Replay) : t.applyEach add (call.closing drain r) = some t := by
  unfold closing
  split
  · split <;> rfl
  · rfl

end CaptureCall

/-! ## A recorder just opened -/

/-- **The call's opening** is in the journal as the recorder holds it. -/
theorem Recorder.opened_spec (R : RecorderConfig) :
    Replay.empty.applyEach saturatingAdd (opened R).newEntries = some (opened R).held ∧
      factsOf (opened R).newEntries = [] ∧ finalizeOf (opened R).newEntries = none ∧
      (opened R).newEntries.head? = some .opened ∧ (opened R).coverage = [] ∧
      (opened R).events = [] ∧ (opened R).qualitySamples = [] ∧ (opened R).omissions = [] ∧
      (opened R).closed = false := by
  unfold opened tryAdmit
  dsimp only
  split
  · next h => cases h
  · split
    · exact ⟨rfl, rfl, rfl, rfl, rfl, rfl, rfl, rfl, rfl⟩
    · split
      · exact ⟨rfl, rfl, rfl, rfl, rfl, rfl, rfl, rfl, rfl⟩
      · exact ⟨rfl, rfl, rfl, rfl, rfl, rfl, rfl, rfl, rfl⟩

end Earshot
