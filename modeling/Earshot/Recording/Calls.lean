import Earshot.Recording.Recorder
/-!
# Closing, and any call

How a recorder is closed, with the artifact's builder, its validation and the
export as parameters, and every operation of the recorder as one call.
-/

namespace Earshot.Recording

variable {ν β : Type} [DecidableEq ν]

/-- What builds and validates the artifact, and whether the SDK owns the recorder. -/
structure CloseConfig (ν β : Type) where
  build : Snapshot ν → List (Record ν) → Except Failure β
  buildPartial : Snapshot ν → List (Record ν) → Except Failure β
  validate : β → Except Failure Unit
  owned : Bool

/-- What comes of the export. -/
inductive Delivery where
  | absent
  | submitted (accepted : Bool)
  /-- The export policy does not allow it. -/
  | refused (e : Failure)
  | failed (e : Failure)

/-- `_record_counts_locked` -/
def Recorder.recordCounts (r : Recorder ν β) : List ℕ :=
  [r.adapters.length, r.participants.length, r.streams.length, r.extraClockDomains.length,
    r.clockRelations.length, r.coverage.length, r.operations.length, r.events.length,
    r.qualitySamples.length, r.mediaRefs.length, r.omissions.length, r.rawOtlpChunks.length]

/-- `_snapshot_locked` -/
def Recorder.snapshot (r : Recorder ν β) (status : String)
    (statusAttributes : List (String × String)) (endedAt : Option ν) : Snapshot ν where
  toKept := r.toKept
  status := status
  statusAttributes := statusAttributes
  endedAt := endedAt
  extraClockDomains := r.extraClockDomains
  clockRelations := r.clockRelations
  retainedClasses := r.retainedClasses
  firstLimitReason := r.firstLimitReason
  omittedRecordsByClass := r.omittedRecordsByClass

/-- What comes of the export is noted. -/
def Recorder.delivered (r : Recorder ν β) : Delivery → Recorder ν β
  | .absent => r
  | .submitted accepted => { r with exportAccepted := some accepted }
  | .refused e => { r with exportAccepted := some false, lastExportError := some e }
  | .failed e => { r with lastExportError := some e }

namespace Session

/-- The journal's finalize entry, with the recorder's own totals. -/
def finalize (C : RecorderConfig ν) (s : Session ν β) (status : String)
    (statusAttributes : List (String × String)) (ended : ν) : Session ν β :=
  s.write C (.finalize {
    status := status
    statusAttributes := statusAttributes
    ended := ended
    firstLimitReason := s.recorder.firstLimitReason
    truncatedRecords := s.recorder.truncatedRecords
    estimatedOmittedBytes := s.recorder.estimatedOmittedBytes
    omittedRecordsByKind := s.recorder.omittedRecordsByKind
    omittedRecordsByClass := s.recorder.omittedRecordsByClass
    retainedClasses := s.recorder.retainedClasses
    recordCounts := s.recorder.recordCounts })

/-- `finalize_journal`; status attributes that are not governed are `none`. -/
def finalizeJournal (C : RecorderConfig ν) (s : Session ν β) (status : String)
    (statusAttributes : Option (List (String × String))) (ended : ν) :
    Outcome ν β (Answer ν β) :=
  let s := s.emitPendingTruncationDiagnostic
  if s.recorder.closed = true ∨ s.recorder.closeError.isSome = true then (.ok .nothing, s)
  else
    match statusAttributes with
    | none => (.error (.invalid "finalize status attributes are not recorder-governed"), s)
    | some attributes =>
      let s := s.finalize C status attributes ended
      (.ok .nothing, { s with recorder := { s.recorder with status := status, closed := true } })

/-- `_notify_close_once` -/
def notifyCloseOnce (s : Session ν β) : Session ν β :=
  { s with recorder := { s.recorder with closeNotified := true } }

/-- The end of `close`, once the artifact is built. -/
def closeBuilt (C : RecorderConfig ν) (K : CloseConfig ν β) (s : Session ν β) (status : String)
    (delivery : Delivery) (bundle : β) : Outcome ν β (Answer ν β) :=
  match K.validate bundle with
  | .error e =>
    let s := { s with recorder := { s.recorder with lastExportError := some e } }
    if K.owned = true then
      let s := { s with recorder := { s.recorder with
        status := status, closed := true, closeError := some e } }
      (.error e, (s.write C (.release false)).notifyCloseOnce)
    else (.error e, s.write C (.release false))
  | .ok _ =>
    let recorder := { s.recorder with status := status, closed := true, bundle := some bundle }
    let recorder := recorder.delivered delivery
    let s := { s with recorder := recorder }
    (.ok (.bundle bundle),
      (s.write C (.release (recorder.exportAccepted ≠ some false))).notifyCloseOnce)

/-- `close` -/
def close (C : RecorderConfig ν) (K : CloseConfig ν β) (s : Session ν β) (status : String)
    (statusAttributes : List (String × String)) (ended : ν) (delivery : Delivery) :
    Outcome ν β (Answer ν β) :=
  let s := s.emitPendingTruncationDiagnostic
  match s.recorder.closeError with
  | some e => (.error e, s)
  | none =>
    match s.recorder.bundle with
    | some bundle => (.ok (.bundle bundle), s)
    | none =>
      let s := s.finalize C status statusAttributes ended
      match K.build (s.recorder.snapshot status statusAttributes (some ended))
          s.recorder.rawOtlpChunks with
      | .error e => (.error e, s)
      | .ok bundle => s.closeBuilt C K status delivery bundle

/-- `close_partial`: no end was observed, so no finalize entry is written. -/
def closePartial (K : CloseConfig ν β) (s : Session ν β) (status : String)
    (closeObserved : Bool) : Outcome ν β (Answer ν β) :=
  if closeObserved = true then
    (.error (.invalid "close_partial requires a recovery whose close was not observed"), s)
  else
    match s.recorder.closeError with
    | some e => (.error e, s)
    | none =>
      match s.recorder.bundle with
      | some bundle => (.ok (.bundle bundle), s)
      | none =>
        if status = "completed" then
          (.error (.invalid "a partial observation cannot present as a completed session"), s)
        else
          match K.buildPartial (s.recorder.snapshot status [] none) s.recorder.rawOtlpChunks with
          | .error e => (.error e, s)
          | .ok bundle =>
            match K.validate bundle with
            | .error e => (.error e, s)
            | .ok _ =>
              (.ok (.bundle bundle), { s with recorder := { s.recorder with
                status := status, closed := true, bundle := some bundle } })

/-- `__exit__`: a close that fails does not hide the application's own error. -/
def exit (C : RecorderConfig ν) (K : CloseConfig ν β) (s : Session ν β) (status : String)
    (statusAttributes : List (String × String)) (ended : ν) (delivery : Delivery) :
    Outcome ν β (Answer ν β) :=
  match s.close C K status statusAttributes ended delivery with
  | (.ok _, s) => (.ok .nothing, s)
  | (.error e, s) =>
    (.ok .nothing, { s with recorder := { s.recorder with lastExportError := some e } })

end Session

/-! ## Calls -/

/-- A call of one of the recorder's operations. -/
inductive Call (ν : Type) where
  | addParticipant (prep : Prep ν (Draft ν))
  | addStream (prep : Prep ν (Draft ν))
  | registerClockDomain (domain : Record ν)
  | registerClockRelation (relation : Record ν)
  | recordCoverage (c : Coverage)
  | recordOmission (omission : Except Failure Omission)
  | registerAdapter (prep : Prep ν (Draft ν))
  | addRawOtlpChunk (signal : String) (payloadSize : ℕ) (chunk : Except Failure (Record ν))
  | recordOperation (prep : Prep ν (Draft ν))
  | openOperation (value : Record ν)
  | closeOperation (prep : Prep ν (Draft ν)) (applicationError : Bool)
  | recordEvent (prep : Prep ν (Draft ν))
  | recordQualitySample (prep : Prep ν (Draft ν))
  | addMediaRef (prep : Prep ν (Session.MediaDraft ν))
  | finalizeJournal (status : String) (statusAttributes : Option (List (String × String)))
      (ended : ν)
  | close (status : String) (statusAttributes : List (String × String)) (ended : ν)
      (delivery : Delivery)
  | closePartial (status : String) (closeObserved : Bool)
  | exit (status : String) (statusAttributes : List (String × String)) (ended : ν)
      (delivery : Delivery)

/-- One call. -/
def Session.apply (C : RecorderConfig ν) (K : CloseConfig ν β) (s : Session ν β) :
    Call ν → Outcome ν β (Answer ν β)
  | .addParticipant prep => s.addParticipant C prep
  | .addStream prep => s.addStream C prep
  | .registerClockDomain domain => s.registerClockDomain C domain
  | .registerClockRelation relation => s.registerClockRelation C relation
  | .recordCoverage c => s.recordCoverage C c
  | .recordOmission omission => s.recordOmission C omission
  | .registerAdapter prep => s.registerAdapter C prep
  | .addRawOtlpChunk signal payloadSize chunk => s.addRawOtlpChunk C signal payloadSize chunk
  | .recordOperation prep => s.recordOperation C prep
  | .openOperation value => s.openOperation C value
  | .closeOperation prep applicationError => s.closeOperation C prep applicationError
  | .recordEvent prep => s.recordEvent C prep
  | .recordQualitySample prep => s.recordQualitySample C prep
  | .addMediaRef prep => s.addMediaRef C prep
  | .finalizeJournal status attributes ended => s.finalizeJournal C status attributes ended
  | .close status attributes ended delivery => s.close C K status attributes ended delivery
  | .closePartial status closeObserved => s.closePartial K status closeObserved
  | .exit status attributes ended delivery => s.exit C K status attributes ended delivery

/-- Calls one after the other: what each returned or raised, and what is left. -/
def Session.run (C : RecorderConfig ν) (K : CloseConfig ν β) (s : Session ν β) :
    List (Call ν) → List (Except Failure (Answer ν β)) × Session ν β
  | [] => ([], s)
  | call :: calls =>
    let first := s.apply C K call
    let rest := first.2.run C K calls
    (first.1 :: rest.1, rest.2)

/-! ## Opening -/

/-- The recorder before its configured adapters. -/
def Recorder.empty : Recorder ν β where
  participants := []
  streams := []
  coverage := []
  operations := []
  events := []
  qualitySamples := []
  mediaRefs := []
  adapters := []
  rawOtlpChunks := []
  omissions := []
  extraClockDomains := []
  clockRelations := []
  retainedClasses := {Privacy.CaptureClass.metadata}
  journaledClasses := {Privacy.CaptureClass.metadata}
  journaledOmissions := 0
  omittedRecordsByKind := fun _ => 0
  omittedRecordsByClass := fun _ => 0
  capturedRecords := 0
  capturedBytes := 0
  rawOtlpBytes := 0
  truncatedRecords := 0
  estimatedOmittedBytes := 0
  firstLimitReason := none
  admissionFrozen := false
  pendingTruncationDiagnostic := false
  truncationDiagnosticEmitted := false
  status := "running"
  closed := false
  closeNotified := false
  bundle := none
  closeError := none
  lastExportError := none
  exportAccepted := none

/-- A configured adapter is admitted and journaled, or counted. -/
def Session.openAdapter (C : RecorderConfig ν) (s : Session ν β) (draft : Draft ν) :
    Bool × Session ν β :=
  let admitted := s.tryAdmit C .adapter .metadata draft.size 0
  if admitted.1 = true then
    (true, { admitted.2 with recorder := { admitted.2.recorder with
      toKept := admitted.2.recorder.toKept.push .adapter draft.record } }.journalLocked C
        RecordKind.adapter.name (some draft.record))
  else (false, admitted.2)

/-- The constructor's loop over the configured adapters, up to the first that
finds no room; with the classes their extensions retain. -/
def Session.openAdapters (C : RecorderConfig ν) :
    List (Prep ν (Draft ν)) → Session ν β → Outcome ν β (Finset Privacy.CaptureClass)
  | [], s => (.ok ∅, s)
  | prep :: preps, s =>
    match s.prepare C prep with
    | (.error e, s) => (.error e, s)
    | (.ok draft, s) =>
      let admitted := s.openAdapter C draft
      if admitted.1 = true then
        let r := openAdapters C preps admitted.2
        (r.1.map (draft.classes ∪ ·), r.2)
      else (.ok ∅, admitted.2)

/-- `__init__`; the journal already has its header. -/
def Session.opened (C : RecorderConfig ν) (adapters : List (Prep ν (Draft ν))) :
    Outcome ν β Unit :=
  match openAdapters C adapters ⟨.empty, []⟩ with
  | (.error e, s) => (.error e, s)
  | (.ok classes, s) =>
    if classes = ∅ then (.ok (), s)
    else
      (.ok (), { s with recorder := { s.recorder with
        retainedClasses := s.recorder.retainedClasses ∪ classes } }.journalLocked C "policy" none)

end Earshot.Recording
