import Earshot.Live.Registry
/-!
# What the loop of an upload does to a session

A frame only adds to what a session holds (`Below`), so a session that is
unchanged when the loop ends was unchanged throughout. What the loop
publishes is what can be rendered (`feed_rendered`), and the frames kept are
those of the history where they were before, unless they outgrow their cap
(`feed_sealed_iff`).
-/

namespace Earshot

namespace Live

open Checkpoint

variable {α κ π : Type} [DecidableEq κ] {R : Governance α κ π} {C : LiveConfig}
variable {session session' : LiveSession κ π}

/-! ## Growth -/

/-- One gate holds what the other does, and more. -/
structure ExportGate.Below (gate gate' : ExportGate κ π) : Prop where
  captured : gate.captured <+: gate'.captured
  policy : gate'.policy = gate.policy ∨ gate'.policy = none

namespace ExportGate.Below

variable {gate gate' gate'' : ExportGate κ π}

omit [DecidableEq κ] in
theorem refl (gate : ExportGate κ π) : gate.Below gate := ⟨List.prefix_refl _, .inl rfl⟩

omit [DecidableEq κ] in
theorem trans (h : gate.Below gate') (h' : gate'.Below gate'') : gate.Below gate'' := by
  refine ⟨h.captured.trans h'.captured, ?_⟩
  rcases h'.policy with heq | hnone
  · rw [heq]
    exact h.policy
  · exact .inr hnone

omit [DecidableEq κ] in
theorem antisymm (h : gate.Below gate') (h' : gate'.Below gate) : gate = gate' := by
  have hcaptured := h.captured.eq_of_length_le h'.captured.length_le
  have hpolicy : gate.policy = gate'.policy := by
    rcases h.policy with heq | hnone
    · exact heq.symm
    · rcases h'.policy with heq | hnone'
      · exact heq
      · rw [hnone, hnone']
  cases gate
  cases gate'
  cases hcaptured
  cases hpolicy
  rfl

theorem add (gate : ExportGate κ π) (captureClass : κ) : gate.Below (gate.add captureClass) := by
  unfold ExportGate.add
  split
  · exact .refl gate
  · exact ⟨List.prefix_append _ _, .inl rfl⟩

/-- Classes are only ever added. -/
theorem foldl_add (classes : List κ) (gate : ExportGate κ π) :
    gate.Below (classes.foldl ExportGate.add gate) := by
  induction classes generalizing gate with
  | nil => exact .refl gate
  | cons captureClass classes ih => exact (add gate captureClass).trans (ih _)

theorem foldl_name (classes : List (Option κ)) (gate : ExportGate κ π) :
    gate.Below (classes.foldl ExportGate.name gate) := by
  induction classes generalizing gate with
  | nil => exact .refl gate
  | cons captureClass classes ih =>
    refine trans ?_ (ih _)
    cases captureClass with
    | none => exact ⟨List.prefix_refl _, .inr rfl⟩
    | some captureClass => exact add gate captureClass

/-- An entry only adds to what the gate has seen. -/
theorem absorb (gate : ExportGate κ π) (entry : Checkpoint.JournalEntry α)
    (observed : Option (List κ)) :
    gate.Below (gate.absorb R entry observed) := by
  unfold ExportGate.absorb
  cases entry with
  | record value =>
    dsimp only
    have hnamed := foldl_name (R.retainedClasses value) gate
    split
    · exact hnamed
    · split
      · exact hnamed.trans ⟨List.prefix_refl _, .inr rfl⟩
      · exact hnamed.trans (foldl_add _ _)
  | _ => exact .refl gate

/-- Projecting an entry only adds to what the gate has seen. -/
theorem governed (gate : ExportGate κ π) (journalId : String) (entry : Checkpoint.JournalEntry α)
    (sequence : ℕ) (observed : Option (List κ)) :
    gate.Below (governedEntryEvent R gate journalId entry sequence observed).1 := by
  unfold governedEntryEvent
  dsimp only
  split
  · exact ⟨List.prefix_refl _, .inr rfl⟩
  · exact absorb gate entry observed

end ExportGate.Below

/-- One session holds what the other does, and more, and is otherwise the
same. -/
structure LiveSession.Below (session session' : LiveSession κ π) : Prop where
  same : session' = { session with
    exportGate := session'.exportGate
    closeObserved := session'.closeObserved
    journalComplete := session'.journalComplete
    frames := session'.frames
    framesComplete := session'.framesComplete
    frameChecksums := session'.frameChecksums }
  gate : session.exportGate.Below session'.exportGate
  closed : session.closeObserved = true → session'.closeObserved = true
  incomplete : session.journalComplete = false → session'.journalComplete = false
  frames : ∀ frames', session'.frames = some frames' →
    ∃ frames, session.frames = some frames ∧ frames <+: frames'
  framesIncomplete : session.framesComplete = false → session'.framesComplete = false
  checksums : session.frameChecksums <+: session'.frameChecksums

namespace LiveSession.Below

variable {session'' : LiveSession κ π}

omit [DecidableEq κ] in
theorem refl (session : LiveSession κ π) : session.Below session :=
  ⟨rfl, .refl _, id, id, fun frames h => ⟨frames, h, List.prefix_refl _⟩, id, List.prefix_refl _⟩

omit [DecidableEq κ] in
theorem trans (h : session.Below session') (h' : session'.Below session'') :
    session.Below session'' := by
  refine ⟨?_, h.gate.trans h'.gate, fun hc => h'.closed (h.closed hc),
    fun hc => h'.incomplete (h.incomplete hc), fun frames'' hframes => ?_,
    fun hc => h'.framesIncomplete (h.framesIncomplete hc), h.checksums.trans h'.checksums⟩
  · rw [h'.same, h.same]
  · obtain ⟨frames', hframes', hprefix'⟩ := h'.frames frames'' hframes
    obtain ⟨frames, hframes, hprefix⟩ := h.frames frames' hframes'
    exact ⟨frames, hframes, hprefix.trans hprefix'⟩

omit [DecidableEq κ] in
theorem antisymm (h : session.Below session') (h' : session'.Below session) :
    session = session' := by
  have hbool {a b : Bool} (hab : a = false → b = false) (hba : b = false → a = false) :
      a = b := by
    cases a with
    | false => exact (hab rfl).symm
    | true =>
      cases b with
      | false => exact hba rfl
      | true => rfl
  have hgate := h.gate.antisymm h'.gate
  have hclosed : session.closeObserved = session'.closeObserved :=
    hbool (fun hc => by simpa [hc] using h'.closed) (fun hc => by simpa [hc] using h.closed)
  have hcomplete := hbool h.incomplete h'.incomplete
  have hframesComplete := hbool h.framesIncomplete h'.framesIncomplete
  have hchecksums := h.checksums.eq_of_length_le h'.checksums.length_le
  have hframes : session.frames = session'.frames := by
    cases hs : session.frames with
    | none =>
      cases hs' : session'.frames with
      | none => rfl
      | some frames' =>
        obtain ⟨frames, hframes, -⟩ := h.frames frames' hs'
        rw [hs] at hframes
        cases hframes
    | some frames =>
      obtain ⟨frames', hframes', hprefix'⟩ := h'.frames frames hs
      obtain ⟨frames'', hframes'', hprefix⟩ := h.frames frames' hframes'
      obtain rfl : frames = frames'' := Option.some.inj (hs.symm.trans hframes'')
      rw [hframes', hprefix.eq_of_length_le hprefix'.length_le]
  rw [h.same, ← hgate, ← hclosed, ← hcomplete, ← hframes, ← hframesComplete, ← hchecksums]

omit [DecidableEq κ] in
theorem sessionId (h : session.Below session') :
    session'.sessionId = session.sessionId := by rw [h.same]

omit [DecidableEq κ] in
theorem projectId (h : session.Below session') :
    session'.projectId = session.projectId := by rw [h.same]

omit [DecidableEq κ] in
theorem source (h : session.Below session') : session'.source = session.source := by rw [h.same]

omit [DecidableEq κ] in
theorem journalId (h : session.Below session') :
    session'.journalId = session.journalId := by rw [h.same]

omit [DecidableEq κ] in
theorem openEvent (h : session.Below session') :
    session'.openEvent = session.openEvent := by rw [h.same]

omit [DecidableEq κ] in
theorem events (h : session.Below session') : session'.events = session.events := by rw [h.same]

omit [DecidableEq κ] in
theorem lastSequence (h : session.Below session') :
    session'.lastSequence = session.lastSequence := by rw [h.same]

omit [DecidableEq κ] in
theorem subscribers (h : session.Below session') :
    session'.subscribers = session.subscribers := by rw [h.same]

omit [DecidableEq κ] in
theorem published (h : session.Below session') :
    session'.published = session.published := by rw [h.same]

omit [DecidableEq κ] in
theorem recorded (h : session.Below session') :
    session'.recorded = session.recorded := by rw [h.same]

omit [DecidableEq κ] in
/-- A frame is retained at the end, or none is any more. -/
theorem retainFrame (session : LiveSession κ π) (frame : Bytes) :
    session.Below (session.retainFrame C frame) := by
  unfold LiveSession.retainFrame
  split
  · exact .refl session
  · next frames hframes =>
    split
    · exact ⟨rfl, .refl _, id, id, fun _ h => (by cases h), fun _ => rfl, List.prefix_refl _⟩
    · refine ⟨rfl, .refl _, id, id, fun frames' h => ?_, id, List.prefix_refl _⟩
      rw [← Option.some.inj h]
      exact ⟨frames, hframes, List.prefix_append _ _⟩

omit [DecidableEq κ] in
/-- A checksum that is remembered replaces none. -/
theorem rememberChecksum (session : LiveSession κ π) (sequence : ℕ) (checksum : Bytes) :
    session.Below (session.rememberChecksum sequence checksum) := by
  unfold LiveSession.rememberChecksum
  split
  · exact ⟨rfl, .refl _, id, id, fun frames h => ⟨frames, h, List.prefix_refl _⟩, id,
      List.prefix_append _ _⟩
  · exact .refl session

omit [DecidableEq κ] in
theorem absorb (session : LiveSession κ π) (entry : Checkpoint.JournalEntry α) :
    session.Below (session.absorb entry) := by
  unfold LiveSession.absorb
  split
  · refine ⟨rfl, .refl _, fun _ => rfl, fun h => ?_,
      fun frames h => ⟨frames, h, List.prefix_refl _⟩, id, List.prefix_refl _⟩
    dsimp only
    rw [h]
    rfl
  · exact ⟨rfl, .refl _, id, fun _ => rfl, fun frames h => ⟨frames, h, List.prefix_refl _⟩, id,
      List.prefix_refl _⟩
  · exact .refl session

omit [DecidableEq κ] in
theorem withGate {gate : ExportGate κ π} (h : session.exportGate.Below gate) :
    session.Below { session with exportGate := gate } :=
  ⟨rfl, h, id, id, fun frames h => ⟨frames, h, List.prefix_refl _⟩, id, List.prefix_refl _⟩

end LiveSession.Below

omit [DecidableEq κ] in
/-- Keeping a frame publishes nothing. -/
theorem LiveSession.Below.keepFrame (session : LiveSession κ π) (decoded : Decoded α) :
    session.Below (session.keepFrame C decoded) :=
  (retainFrame session decoded.frame).trans (rememberChecksum _ _ _)

omit [DecidableEq κ] in
@[simp] theorem LiveSession.keepFrame_exportGate (session : LiveSession κ π)
    (decoded : Decoded α) : (session.keepFrame C decoded).exportGate = session.exportGate := by
  unfold LiveSession.keepFrame LiveSession.rememberChecksum LiveSession.retainFrame
  split <;> split <;> (try split) <;> rfl

omit [DecidableEq κ] in
@[simp] theorem LiveSession.keepFrame_journalId (session : LiveSession κ π)
    (decoded : Decoded α) : (session.keepFrame C decoded).journalId = session.journalId := by
  unfold LiveSession.keepFrame LiveSession.rememberChecksum LiveSession.retainFrame
  split <;> split <;> (try split) <;> rfl

/-- A frame after the header is kept, and its event is fed. -/
theorem feedFrame_eq (session : LiveSession κ π) (decoded : Decoded α) (classes : List κ) :
    feedFrame R C session decoded classes =
      if 1 < decoded.sequence then
        feedEvent { session.keepFrame C decoded with
          exportGate := (eventOf R session.exportGate session.journalId decoded classes).1 }
          decoded.entry (eventOf R session.exportGate session.journalId decoded classes).2
      else (session.keepFrame C decoded, none) := by
  unfold feedFrame
  simp only [LiveSession.keepFrame_exportGate, LiveSession.keepFrame_journalId]

omit [DecidableEq κ] in
/-- An entry's event adds to a session. -/
theorem LiveSession.Below.feedEvent (session : LiveSession κ π)
    (entry : Checkpoint.JournalEntry α) (event : Option LiveEvent) :
    session.Below (feedEvent session entry event).1 := by
  cases event with
  | none => exact .refl session
  | some event => exact .absorb session entry

/-- **One frame adds to a session.** -/
theorem LiveSession.Below.feedFrame (session : LiveSession κ π) (decoded : Decoded α)
    (classes : List κ) : session.Below (feedFrame R C session decoded classes).1 := by
  rw [feedFrame_eq]
  have hkeep := keepFrame (C := C) session decoded
  have hgate : (session.keepFrame C decoded).exportGate.Below
      (eventOf R session.exportGate session.journalId decoded classes).1 := by
    rw [LiveSession.keepFrame_exportGate]
    exact .governed _ _ _ _ _
  split
  · exact (hkeep.trans (withGate hgate)).trans (feedEvent _ _ _)
  · exact hkeep

/-- **A whole batch adds to a session.** -/
theorem LiveSession.Below.feed (fresh : List (Decoded α × List κ)) (session : LiveSession κ π) :
    session.Below (feed R C session fresh).1 := by
  induction fresh generalizing session with
  | nil => exact .refl session
  | cons item rest ih =>
    obtain ⟨decoded, classes⟩ := item
    have hframe := feedFrame (R := R) (C := C) session decoded classes
    unfold Live.feed
    split
    · next heq =>
      rw [heq] at hframe
      exact hframe
    · next heq =>
      rw [heq] at hframe
      exact hframe.trans (ih _)
    · next heq =>
      rw [heq] at hframe
      exact hframe.trans (ih _)

/-! ## What can be rendered -/

/-- Every new entry is projected to an event that can be rendered. -/
def Rendered (R : Governance α κ π) (journalId : String) :
    ExportGate κ π → List (Decoded α × List κ) → Prop
  | _, [] => True
  | gate, (decoded, classes) :: rest =>
      if 1 < decoded.sequence then
        (eventOf R gate journalId decoded classes).2 ≠ none ∧
          Rendered R journalId (eventOf R gate journalId decoded classes).1 rest
      else Rendered R journalId gate rest

omit [DecidableEq κ] in
@[simp] theorem LiveSession.absorb_exportGate (session : LiveSession κ π)
    (entry : Checkpoint.JournalEntry α) :
    (session.absorb entry).exportGate = session.exportGate := by
  unfold LiveSession.absorb
  split <;> rfl

omit [DecidableEq κ] in
@[simp] theorem LiveSession.absorb_journalId (session : LiveSession κ π)
    (entry : Checkpoint.JournalEntry α) :
    (session.absorb entry).journalId = session.journalId := by
  unfold LiveSession.absorb
  split <;> rfl

/-- **The loop raises** exactly where an event cannot be rendered. -/
theorem feed_rendered (fresh : List (Decoded α × List κ)) (session : LiveSession κ π) :
    (feed R C session fresh).2 ≠ none ↔
      Rendered R session.journalId session.exportGate fresh := by
  induction fresh generalizing session with
  | nil => simp [feed, Rendered]
  | cons item rest ih =>
    obtain ⟨decoded, classes⟩ := item
    unfold feed Rendered
    rw [feedFrame_eq]
    by_cases hsequence : 1 < decoded.sequence
    · rw [if_pos hsequence, if_pos hsequence]
      cases hevent : (eventOf R session.exportGate session.journalId decoded classes).2 with
      | none => simp [feedEvent]
      | some event =>
        unfold feedEvent
        dsimp only
        rw [ne_eq, Option.map_eq_none_iff, ← ne_eq, ih]
        simp
    · rw [if_neg hsequence, if_neg hsequence]
      dsimp only
      rw [ih]
      simp

/-! ## A raise that leaves no trace -/

/-- A session that keeps neither the frame nor its checksum. -/
def LiveSession.Ignores (session : LiveSession κ π) (decoded : Decoded α) : Prop :=
  session.frames = none ∧
    session.frameChecksums.length ≠ (decoded.sequence - 1) * CHECKSUM_SIZE

/-- Everything up to the entry that cannot be rendered leaves the session as
it was: no frames are kept, and neither the gate nor what the session knows of
its end is moved. -/
def Untouched (R : Governance α κ π) (session : LiveSession κ π) :
    List (Decoded α × List κ) → Prop
  | [] => False
  | (decoded, classes) :: rest =>
      session.Ignores decoded ∧
        if 1 < decoded.sequence then
          (eventOf R session.exportGate session.journalId decoded classes).1 =
              session.exportGate ∧
            ((eventOf R session.exportGate session.journalId decoded classes).2 = none ∨
              session.absorb decoded.entry = session ∧ Untouched R session rest)
        else Untouched R session rest

omit [DecidableEq κ] in
/-- Only a frame that is ignored leaves a session as it was. -/
theorem LiveSession.keepFrame_eq_iff {decoded : Decoded α} (hframe : 4 ≤ decoded.frame.length) :
    session.keepFrame C decoded = session ↔ session.Ignores decoded := by
  have hchecksum : (decoded.frame.drop (decoded.frame.length - CHECKSUM_SIZE)).length = 4 := by
    rw [List.length_drop, CHECKSUM_SIZE]
    omega
  constructor
  · intro h
    have hretained := Below.retainFrame (C := C) session decoded.frame
    have hremembered := Below.rememberChecksum (session.retainFrame C decoded.frame)
      decoded.sequence (decoded.frame.drop (decoded.frame.length - CHECKSUM_SIZE))
    have hfirst : session.retainFrame C decoded.frame = session := by
      unfold LiveSession.keepFrame at h
      rw [h] at hremembered
      exact hremembered.antisymm hretained
    refine ⟨?_, fun hlength => ?_⟩
    · cases hframes : session.frames with
      | none => rfl
      | some frames =>
        have heq := congrArg LiveSession.frames hfirst
        unfold LiveSession.retainFrame at heq
        rw [hframes] at heq
        dsimp only at heq
        split at heq
        · cases heq
        · have hlength := congrArg List.length (Option.some.inj heq)
          rw [List.length_append] at hlength
          omega
    · unfold LiveSession.keepFrame at h
      rw [hfirst] at h
      have heq := congrArg (fun s => s.frameChecksums.length) h
      unfold LiveSession.rememberChecksum at heq
      rw [if_pos hlength, List.length_append, hchecksum] at heq
      omega
  · rintro ⟨hframes, hlength⟩
    unfold LiveSession.keepFrame LiveSession.retainFrame
    rw [hframes]
    exact if_neg hlength

omit [DecidableEq κ] in
/-- What lies between a session and itself is that session. -/
theorem LiveSession.Below.squeeze {session'' : LiveSession κ π} (h : session.Below session')
    (h' : session'.Below session'') (heq : session'' = session) : session' = session := by
  rw [heq] at h'
  exact h'.antisymm h

/-- **A raise leaves the session as it was** exactly where nothing was kept
before it. -/
theorem feed_untouched (fresh : List (Decoded α × List κ)) (session : LiveSession κ π)
    (hframes : ∀ item ∈ fresh, 4 ≤ item.1.frame.length)
    (hraises : (feed R C session fresh).2 = none) :
    (feed R C session fresh).1 = session ↔ Untouched R session fresh := by
  induction fresh generalizing session with
  | nil => simp [feed] at hraises
  | cons item rest ih =>
    obtain ⟨decoded, classes⟩ := item
    have hkeep : session.keepFrame C decoded = session ↔ session.Ignores decoded :=
      LiveSession.keepFrame_eq_iff (hframes (decoded, classes) List.mem_cons_self)
    have hrest : ∀ item ∈ rest, 4 ≤ item.1.frame.length := fun item hitem =>
      hframes item (List.mem_cons_of_mem _ hitem)
    have hbelow := LiveSession.Below.keepFrame (C := C) session decoded
    have hgate : (session.keepFrame C decoded).exportGate.Below
        (eventOf R session.exportGate session.journalId decoded classes).1 := by
      rw [LiveSession.keepFrame_exportGate]
      exact .governed _ _ _ _ _
    unfold feed at hraises ⊢
    unfold Untouched
    rw [feedFrame_eq] at hraises ⊢
    by_cases hsequence : 1 < decoded.sequence
    · rw [if_pos hsequence] at hraises ⊢
      rw [if_pos hsequence]
      cases hevent : (eventOf R session.exportGate session.journalId decoded classes).2 with
      | none =>
        unfold feedEvent
        dsimp only
        rw [← hkeep]
        constructor
        · intro h
          have hfirst := hbelow.squeeze (.withGate hgate) h
          rw [hfirst] at h
          exact ⟨hfirst, congrArg LiveSession.exportGate h, .inl rfl⟩
        · rintro ⟨hfirst, hsame, -⟩
          rw [hfirst, hsame]
      | some event =>
        rw [hevent] at hraises
        unfold feedEvent at hraises ⊢
        dsimp only at hraises ⊢
        rw [Option.map_eq_none_iff] at hraises
        rw [← hkeep]
        have hmoved := (LiveSession.Below.withGate hgate).trans
          (.absorb ({ session.keepFrame C decoded with
            exportGate := (eventOf R session.exportGate session.journalId decoded classes).1
            } : LiveSession κ π) decoded.entry)
        constructor
        · intro h
          have hfirst := hbelow.squeeze (hmoved.trans (.feed rest _)) h
          rw [hfirst] at h hgate hraises
          have hgated := (LiveSession.Below.withGate hgate).squeeze
            ((LiveSession.Below.absorb _ decoded.entry).trans (.feed rest _)) h
          rw [hgated] at h hraises
          have habsorbed := (LiveSession.Below.absorb session decoded.entry).squeeze
            (.feed rest _) h
          rw [habsorbed] at h hraises
          refine ⟨hfirst, congrArg LiveSession.exportGate hgated, .inr ⟨habsorbed, ?_⟩⟩
          exact (ih session hrest hraises).mp h
        · rintro ⟨hfirst, hsame, hnone | ⟨habsorbed, huntouched⟩⟩
          · cases hnone
          · rw [hfirst, hsame] at hraises ⊢
            have heta : ({ session with exportGate := session.exportGate } : LiveSession κ π) =
              session := rfl
            rw [heta, habsorbed] at hraises ⊢
            exact (ih session hrest hraises).mpr huntouched
    · rw [if_neg hsequence] at hraises ⊢
      rw [if_neg hsequence]
      dsimp only at hraises ⊢
      rw [← hkeep]
      constructor
      · intro h
        have hfirst := hbelow.squeeze (.feed rest _) h
        rw [hfirst] at h hraises
        exact ⟨hfirst, (ih session hrest hraises).mp h⟩
      · rintro ⟨hfirst, huntouched⟩
        rw [hfirst] at hraises ⊢
        exact (ih session hrest hraises).mpr huntouched

/-! ## The frames kept -/

/-- The frames kept are all of the history's. -/
def LiveSession.Exact (session : LiveSession κ π) : Prop :=
  session.frames = some session.recorded.flatten ∧ session.framesComplete = true

/-- They are, or the session says that they are not. -/
def LiveSession.Sealed (session : LiveSession κ π) : Prop :=
  session.Exact ∨ session.frames = none ∧ session.framesComplete = false

/-- New frames that outgrow what may be kept. -/
def LiveSession.Overflows (C : LiveConfig) (session : LiveSession κ π)
    (fresh : List (Decoded α × List κ)) : Prop :=
  fresh ≠ [] ∧ ∃ frames, session.frames = some frames ∧
    C.maxSealBytes <
      frames.length + (fresh.map fun item => item.1.frame).flatten.length

omit [DecidableEq κ] in
@[simp] theorem LiveSession.absorb_frames (session : LiveSession κ π)
    (entry : Checkpoint.JournalEntry α) :
    (session.absorb entry).frames = session.frames := by
  unfold LiveSession.absorb
  split <;> rfl

omit [DecidableEq κ] in
@[simp] theorem LiveSession.absorb_framesComplete (session : LiveSession κ π)
    (entry : Checkpoint.JournalEntry α) :
    (session.absorb entry).framesComplete = session.framesComplete := by
  unfold LiveSession.absorb
  split <;> rfl

omit [DecidableEq κ] in
theorem LiveSession.rememberChecksum_frames (session : LiveSession κ π) (sequence : ℕ)
    (checksum : Bytes) :
    (session.rememberChecksum sequence checksum).frames = session.frames ∧
      (session.rememberChecksum sequence checksum).framesComplete = session.framesComplete := by
  unfold LiveSession.rememberChecksum
  split <;> exact ⟨rfl, rfl⟩

/-- One frame in the buffer. -/
theorem feedFrame_frames (session : LiveSession κ π) (decoded : Decoded α) (classes : List κ) :
    (feedFrame R C session decoded classes).1.frames =
        (session.retainFrame C decoded.frame).frames ∧
      (feedFrame R C session decoded classes).1.framesComplete =
        (session.retainFrame C decoded.frame).framesComplete := by
  have hkeep := LiveSession.rememberChecksum_frames (session.retainFrame C decoded.frame)
    decoded.sequence (decoded.frame.drop (decoded.frame.length - CHECKSUM_SIZE))
  rw [feedFrame_eq]
  split
  · unfold feedEvent
    split
    · exact hkeep
    · rw [LiveSession.absorb_frames, LiveSession.absorb_framesComplete]
      exact hkeep
  · exact hkeep

/-- A loop that ends takes every frame. -/
theorem feed_of_cons {decoded : Decoded α} {classes : List κ}
    {rest : List (Decoded α × List κ)}
    (h : (feed R C session ((decoded, classes) :: rest)).2 ≠ none) :
    (feed R C session ((decoded, classes) :: rest)).1 =
        (feed R C (feedFrame R C session decoded classes).1 rest).1 ∧
      (feed R C (feedFrame R C session decoded classes).1 rest).2 ≠ none := by
  rw [feed_cons] at h ⊢
  cases hframe : feedFrame R C session decoded classes with
  | mk session' event =>
    rw [hframe] at h
    cases event with
    | none => exact ⟨rfl, h⟩
    | some event =>
      cases event with
      | none => exact absurd rfl h
      | some event =>
        dsimp only at h ⊢
        rw [ne_eq, Option.map_eq_none_iff] at h
        exact ⟨rfl, h⟩

/-- **The buffer after a loop that ends**: the new frames after the old, or
nothing where they outgrow the cap. -/
theorem feed_frames (fresh : List (Decoded α × List κ)) (session : LiveSession κ π)
    (h : (feed R C session fresh).2 ≠ none) :
    (session.frames = none → (feed R C session fresh).1.frames = none ∧
        (feed R C session fresh).1.framesComplete = session.framesComplete) ∧
      ∀ frames, session.frames = some frames →
        (session.Overflows C fresh → (feed R C session fresh).1.frames = none ∧
          (feed R C session fresh).1.framesComplete = false) ∧
        (¬ session.Overflows C fresh →
          (feed R C session fresh).1.frames =
            some (frames ++ (fresh.map fun item => item.1.frame).flatten) ∧
          (feed R C session fresh).1.framesComplete = session.framesComplete) := by
  induction fresh generalizing session with
  | nil =>
    refine ⟨fun hnone => ⟨hnone, rfl⟩, fun frames hframes => ⟨fun hover => absurd rfl hover.1,
      fun _ => ⟨?_, rfl⟩⟩⟩
    rw [List.map_nil, List.flatten_nil, List.append_nil]
    exact hframes
  | cons item rest ih =>
    obtain ⟨decoded, classes⟩ := item
    obtain ⟨heq, hrest⟩ := feed_of_cons h
    obtain ⟨hframe, hcomplete⟩ := feedFrame_frames (R := R) (C := C) session decoded
      classes
    obtain ⟨hih, hih'⟩ := ih _ hrest
    rw [heq]
    unfold LiveSession.retainFrame at hframe hcomplete
    constructor
    · intro hnone
      rw [hnone] at hframe hcomplete
      dsimp only at hframe hcomplete
      obtain ⟨h₁, h₂⟩ := hih (hframe.trans hnone)
      exact ⟨h₁, h₂.trans hcomplete⟩
    · intro frames hframes
      rw [hframes] at hframe hcomplete
      dsimp only at hframe hcomplete
      have htotal : (((decoded, classes) :: rest).map fun item => item.1.frame).flatten.length =
          decoded.frame.length + (rest.map fun item => item.1.frame).flatten.length := by
        rw [List.map_cons, List.flatten_cons, List.length_append]
      by_cases hfull : C.maxSealBytes < frames.length + decoded.frame.length
      · rw [if_pos hfull] at hframe hcomplete
        obtain ⟨h₁, h₂⟩ := hih hframe
        refine ⟨fun _ => ⟨h₁, h₂.trans hcomplete⟩, fun hnot => ?_⟩
        exact absurd ⟨by simp, frames, hframes, by omega⟩ hnot
      · rw [if_neg hfull] at hframe hcomplete
        obtain ⟨hover, hfits⟩ := hih' _ hframe
        have hiff : session.Overflows C ((decoded, classes) :: rest) ↔
            (feedFrame R C session decoded classes).1.Overflows C rest := by
          constructor
          · rintro ⟨-, frames', hframes', hlt⟩
            obtain rfl := Option.some.inj (hframes.symm.trans hframes')
            refine ⟨fun hnil => ?_, _, hframe, ?_⟩
            · rw [htotal, hnil] at hlt
              simp only [List.map_nil, List.flatten_nil, List.length_nil] at hlt
              omega
            · rw [List.length_append]
              omega
          · rintro ⟨-, frames', hframes', hlt⟩
            obtain rfl := Option.some.inj (hframe.symm.trans hframes')
            rw [List.length_append] at hlt
            exact ⟨by simp, frames, hframes, by omega⟩
        rw [hiff]
        refine ⟨fun h => hover h, fun h => ?_⟩
        obtain ⟨h₁, h₂⟩ := hfits h
        refine ⟨?_, h₂.trans hcomplete⟩
        rw [h₁, List.map_cons, List.flatten_cons, List.append_assoc]

/-- **The buffer is exact after** a loop that ends exactly where it was
before, or the frames outgrow it. -/
theorem feed_sealed_iff (fresh : List (Decoded α × List κ)) (session : LiveSession κ π)
    (h : (feed R C session fresh).2 ≠ none) :
    ((feed R C session fresh).1.record fresh).Sealed ↔
      session.Sealed ∨ session.Overflows C fresh := by
  obtain ⟨hnone, hsome⟩ := feed_frames fresh session h
  have hrecorded : ((feed R C session fresh).1.record fresh).recorded.flatten =
      session.recorded.flatten ++ (fresh.map fun item => item.1.frame).flatten := by
    have hsame := (LiveSession.Below.feed (R := R) (C := C) fresh session).recorded
    show ((feed R C session fresh).1.recorded ++ _).flatten = _
    rw [hsame, List.flatten_append]
  have hframes : ((feed R C session fresh).1.record fresh).frames =
      (feed R C session fresh).1.frames := rfl
  have hcomplete : ((feed R C session fresh).1.record fresh).framesComplete =
      (feed R C session fresh).1.framesComplete := rfl
  unfold LiveSession.Sealed LiveSession.Exact
  rw [hrecorded, hframes, hcomplete]
  cases hbuffer : session.frames with
  | none =>
    obtain ⟨h₁, h₂⟩ := hnone hbuffer
    have hover : ¬ session.Overflows C fresh := by
      rintro ⟨-, frames, hframes, -⟩
      rw [hbuffer] at hframes
      cases hframes
    rw [h₁, h₂]
    simp [hover]
  | some frames =>
    obtain ⟨hover, hfits⟩ := hsome frames hbuffer
    by_cases hoverflows : session.Overflows C fresh
    · obtain ⟨h₁, h₂⟩ := hover hoverflows
      rw [h₁, h₂]
      simp [hoverflows]
    · obtain ⟨h₁, h₂⟩ := hfits hoverflows
      rw [h₁, h₂]
      simp [hoverflows]

end Live

end Earshot
