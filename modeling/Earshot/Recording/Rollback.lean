import Earshot.Recording.Changes
/-!
# Rollback

A checkpoint of a recorder keeps the lengths of its lists, and its other fields
as they are. Every operation only appends to those lists, coverage apart, which
is kept whole; so a batch of any operations is undone by cutting the lists back
and putting the rest in place.
-/

namespace Earshot.Recording

open Privacy (CaptureClass)

variable {ν β : Type} [DecidableEq ν]

/-- `RecorderRollbackCheckpoint` -/
structure RollbackCheckpoint (β : Type) where
  participants : ℕ
  streams : ℕ
  operations : ℕ
  events : ℕ
  qualitySamples : ℕ
  mediaRefs : ℕ
  omissions : ℕ
  adapters : ℕ
  rawOtlpChunks : ℕ
  extraClockDomains : ℕ
  clockRelations : ℕ
  coverage : List Coverage
  retainedClasses : Finset CaptureClass
  journaledClasses : Finset CaptureClass
  journaledOmissions : ℕ
  omittedByKind : RecordKind → ℕ
  omittedByClass : CaptureClass → ℕ
  capturedRecords : ℕ
  capturedBytes : ℕ
  rawOtlpBytes : ℕ
  truncatedRecords : ℕ
  estimatedOmittedBytes : ℕ
  firstLimitReason : Option String
  admissionFrozen : Bool
  pendingTruncationDiagnostic : Bool
  truncationDiagnosticEmitted : Bool
  status : String
  closed : Bool
  closeNotified : Bool
  bundle : Option β
  closeError : Option Failure
  lastExportError : Option Failure
  exportAccepted : Option Bool

/-- `rollback_checkpoint` -/
def Recorder.rollbackCheckpoint (r : Recorder ν β) : RollbackCheckpoint β where
  participants := r.participants.length
  streams := r.streams.length
  operations := r.operations.length
  events := r.events.length
  qualitySamples := r.qualitySamples.length
  mediaRefs := r.mediaRefs.length
  omissions := r.omissions.length
  adapters := r.adapters.length
  rawOtlpChunks := r.rawOtlpChunks.length
  extraClockDomains := r.extraClockDomains.length
  clockRelations := r.clockRelations.length
  coverage := r.coverage
  retainedClasses := r.retainedClasses
  journaledClasses := r.journaledClasses
  journaledOmissions := r.journaledOmissions
  omittedByKind := r.omittedRecordsByKind
  omittedByClass := r.omittedRecordsByClass
  capturedRecords := r.capturedRecords
  capturedBytes := r.capturedBytes
  rawOtlpBytes := r.rawOtlpBytes
  truncatedRecords := r.truncatedRecords
  estimatedOmittedBytes := r.estimatedOmittedBytes
  firstLimitReason := r.firstLimitReason
  admissionFrozen := r.admissionFrozen
  pendingTruncationDiagnostic := r.pendingTruncationDiagnostic
  truncationDiagnosticEmitted := r.truncationDiagnosticEmitted
  status := r.status
  closed := r.closed
  closeNotified := r.closeNotified
  bundle := r.bundle
  closeError := r.closeError
  lastExportError := r.lastExportError
  exportAccepted := r.exportAccepted

/-- `restore_rollback_checkpoint` -/
def Recorder.restore (r : Recorder ν β) (c : RollbackCheckpoint β) : Recorder ν β where
  participants := r.participants.take c.participants
  streams := r.streams.take c.streams
  operations := r.operations.take c.operations
  events := r.events.take c.events
  qualitySamples := r.qualitySamples.take c.qualitySamples
  mediaRefs := r.mediaRefs.take c.mediaRefs
  omissions := r.omissions.take c.omissions
  adapters := r.adapters.take c.adapters
  rawOtlpChunks := r.rawOtlpChunks.take c.rawOtlpChunks
  extraClockDomains := r.extraClockDomains.take c.extraClockDomains
  clockRelations := r.clockRelations.take c.clockRelations
  coverage := c.coverage
  retainedClasses := c.retainedClasses
  journaledClasses := c.journaledClasses
  journaledOmissions := c.journaledOmissions
  omittedRecordsByKind := c.omittedByKind
  omittedRecordsByClass := c.omittedByClass
  capturedRecords := c.capturedRecords
  capturedBytes := c.capturedBytes
  rawOtlpBytes := c.rawOtlpBytes
  truncatedRecords := c.truncatedRecords
  estimatedOmittedBytes := c.estimatedOmittedBytes
  firstLimitReason := c.firstLimitReason
  admissionFrozen := c.admissionFrozen
  pendingTruncationDiagnostic := c.pendingTruncationDiagnostic
  truncationDiagnosticEmitted := c.truncationDiagnosticEmitted
  status := c.status
  closed := c.closed
  closeNotified := c.closeNotified
  bundle := c.bundle
  closeError := c.closeError
  lastExportError := c.lastExportError
  exportAccepted := c.exportAccepted

/-! ## Appending -/

/-- **Lists extend others**: each that a checkpoint measures starts with what it
held. -/
structure Kept.Extends (k k' : Kept ν) : Prop where
  participants : k.participants <+: k'.participants
  streams : k.streams <+: k'.streams
  operations : k.operations <+: k'.operations
  events : k.events <+: k'.events
  qualitySamples : k.qualitySamples <+: k'.qualitySamples
  mediaRefs : k.mediaRefs <+: k'.mediaRefs
  omissions : k.omissions <+: k'.omissions
  adapters : k.adapters <+: k'.adapters
  rawOtlpChunks : k.rawOtlpChunks <+: k'.rawOtlpChunks

namespace Kept.Extends

variable {k k' k'' : Kept ν}

omit [DecidableEq ν] in
theorem refl (k : Kept ν) : Kept.Extends k k :=
  ⟨List.prefix_rfl, List.prefix_rfl, List.prefix_rfl, List.prefix_rfl, List.prefix_rfl,
    List.prefix_rfl, List.prefix_rfl, List.prefix_rfl, List.prefix_rfl⟩

omit [DecidableEq ν] in
theorem trans (h : Kept.Extends k k') (h' : Kept.Extends k' k'') : Kept.Extends k k'' where
  participants := h.participants.trans h'.participants
  streams := h.streams.trans h'.streams
  operations := h.operations.trans h'.operations
  events := h.events.trans h'.events
  qualitySamples := h.qualitySamples.trans h'.qualitySamples
  mediaRefs := h.mediaRefs.trans h'.mediaRefs
  omissions := h.omissions.trans h'.omissions
  adapters := h.adapters.trans h'.adapters
  rawOtlpChunks := h.rawOtlpChunks.trans h'.rawOtlpChunks

omit [DecidableEq ν] in
/-- A record at the end of its kind's list. -/
theorem push (k : Kept ν) (kind : RecordKind) (value : Record ν) :
    Kept.Extends k (k.push kind value) := by
  have happend : ∀ xs : List (Record ν), xs <+: xs ++ [value] := fun xs => List.prefix_append xs _
  constructor <;> cases kind <;> first | exact List.prefix_rfl | exact happend _

omit [DecidableEq ν] in
/-- An offer kept. -/
theorem keep (k : Kept ν) (o : Offer ν) : Kept.Extends k (k.keep o) := by
  cases o with
  | record kind draft =>
    refine (push k kind draft.record).trans ?_
    constructor <;> first | exact List.prefix_rfl | exact List.prefix_append _ _
  | omission value => constructor <;> first | exact List.prefix_rfl | exact List.prefix_append _ _
  | coverage | supersede => constructor <;> exact List.prefix_rfl
  | never kind => exact refl k

end Kept.Extends

/-- One recorder extends another. -/
structure Extends (r r' : Recorder ν β) : Prop where
  kept : Kept.Extends r.toKept r'.toKept
  domains : r.extraClockDomains <+: r'.extraClockDomains
  relations : r.clockRelations <+: r'.clockRelations

omit [DecidableEq ν] in
theorem Extends.refl (r : Recorder ν β) : Extends r r :=
  ⟨.refl _, List.prefix_rfl, List.prefix_rfl⟩

omit [DecidableEq ν] in
theorem Extends.trans {r r' r'' : Recorder ν β} (h : Extends r r') (h' : Extends r' r'') :
    Extends r r'' :=
  ⟨h.kept.trans h'.kept, h.domains.trans h'.domains, h.relations.trans h'.relations⟩

omit [DecidableEq ν] in
/-- **A recorder only appends.** -/
theorem Change.extends {C : RecorderConfig ν} {r r' : Recorder ν β}
    {log : List (Offer ν × Bool)} {notes : List Note} (h : Change C r log notes r') :
    Extends r r' := by
  induction h with
  | plain h => exact ⟨h.kept ▸ .refl _, h.domains, h.relations⟩
  | note | refused => exact ⟨.refl _, List.prefix_rfl, List.prefix_rfl⟩
  | kept o _ h => exact ⟨h.kept ▸ .keep _ o, h.domains, h.relations⟩
  | trans _ _ ih ih' => exact ih.trans ih'

omit [DecidableEq ν] in
/-- **What extends a recorder is cut back to it.** -/
theorem restore_of_extends {r r' : Recorder ν β} (h : Extends r r') :
    r'.restore r.rollbackCheckpoint = r := by
  have hcut : ∀ {α : Type} {xs ys : List α}, xs <+: ys → ys.take xs.length = xs :=
    fun hprefix => (List.prefix_iff_eq_take.mp hprefix).symm
  unfold Recorder.restore Recorder.rollbackCheckpoint
  dsimp only
  rw [hcut h.kept.participants, hcut h.kept.streams, hcut h.kept.operations, hcut h.kept.events,
    hcut h.kept.qualitySamples, hcut h.kept.mediaRefs, hcut h.kept.omissions,
    hcut h.kept.adapters, hcut h.kept.rawOtlpChunks, hcut h.domains, hcut h.relations]

/-! ## Batches -/

namespace Session

theorem apply_extends (C : RecorderConfig ν) (K : CloseConfig ν β) (s : Session ν β)
    (call : Call ν) : Recording.Extends s.recorder (s.apply C K call).2.recorder := by
  obtain ⟨log, _, h⟩ := apply_changes C K s call
  exact h.extends

theorem run_extends (C : RecorderConfig ν) (K : CloseConfig ν β) (s : Session ν β)
    (calls : List (Call ν)) : Recording.Extends s.recorder (s.run C K calls).2.recorder := by
  induction calls generalizing s with
  | nil => exact .refl _
  | cons call calls ih => exact (apply_extends C K s call).trans (ih _)

/-- `restore_rollback_checkpoint`, the journal rolled back by its own writer. -/
def rollBack (s : Session ν β) (c : RollbackCheckpoint β) (journal : List (JournalEntry ν)) :
    Session ν β :=
  ⟨s.recorder.restore c, journal⟩

/-- **A rollback undoes any batch.** From any state, whatever operations ran
after the checkpoint and whatever each returned or raised, the restored
recorder is the one the checkpoint was taken of, and any continuation returns,
journals and leaves what it would have from there. -/
theorem rollBack_run (C : RecorderConfig ν) (K : CloseConfig ν β) (s : Session ν β)
    (batch : List (Call ν)) :
    (s.run C K batch).2.recorder.restore s.recorder.rollbackCheckpoint = s.recorder ∧
      ∀ more : List (Call ν),
        ((s.run C K batch).2.rollBack s.recorder.rollbackCheckpoint s.journal).run C K more =
          s.run C K more := by
  have hrestored := restore_of_extends (run_extends C K s batch)
  refine ⟨hrestored, fun more => ?_⟩
  unfold rollBack
  rw [hrestored]

end Session

end Earshot.Recording
