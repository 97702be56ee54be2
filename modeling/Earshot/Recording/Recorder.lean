import Earshot.Recording.Records
/-!
# The recorder

The recorder's state and its operations. What is admitted is appended and takes
room in the budgets; the first record that finds none freezes admission, and
from then on every record is only counted. Coverage supersedes in place. Each
change under the lock is journaled, with the omissions and the classes that are
new since the last one.

A failing operation raises and keeps what it changed before.
-/

namespace Earshot.Recording

open Privacy (CaptureClass)

/-- The lists a recorder retains records in. -/
structure Kept (ν : Type) where
  participants : List (Record ν)
  streams : List (Record ν)
  coverage : List Coverage
  operations : List (Record ν)
  events : List (Record ν)
  qualitySamples : List (Record ν)
  mediaRefs : List (Record ν)
  adapters : List (Record ν)
  rawOtlpChunks : List (Record ν)
  omissions : List Omission

/-- What the journal's finalize entry says. -/
structure Finalize (ν : Type) where
  status : String
  statusAttributes : List (String × String)
  ended : ν
  firstLimitReason : Option String
  truncatedRecords : ℕ
  estimatedOmittedBytes : ℕ
  omittedRecordsByKind : RecordKind → ℕ
  omittedRecordsByClass : CaptureClass → ℕ
  retainedClasses : Finset CaptureClass
  /-- `_record_counts_locked`, in its order. -/
  recordCounts : List ℕ

inductive JournalEntry (ν : Type) where
  | record (kind : String) (value : Option (Record ν)) (omissions : List Omission)
      (classes : Finset CaptureClass)
  | coverage (value : Coverage) (omissions : List Omission) (classes : Finset CaptureClass)
      (replacesIndex : Option ℕ)
  | limit (note : Note)
  | operationOpen (value : Record ν)
  | finalize (totals : Finalize ν)
  | release (delivered : Bool)

/-- What `close` builds the artifact from. -/
structure Snapshot (ν : Type) extends Kept ν where
  status : String
  statusAttributes : List (String × String)
  endedAt : Option ν
  extraClockDomains : List (Record ν)
  clockRelations : List (Record ν)
  retainedClasses : Finset CaptureClass
  firstLimitReason : Option String
  omittedRecordsByClass : CaptureClass → ℕ

/-- `IncidentRecorder`, with an artifact of type `β`. -/
structure Recorder (ν β : Type) extends Kept ν where
  extraClockDomains : List (Record ν)
  clockRelations : List (Record ν)
  retainedClasses : Finset CaptureClass
  journaledClasses : Finset CaptureClass
  journaledOmissions : ℕ
  omittedRecordsByKind : RecordKind → ℕ
  omittedRecordsByClass : CaptureClass → ℕ
  capturedRecords : ℕ
  capturedBytes : ℕ
  rawOtlpBytes : ℕ
  truncatedRecords : ℕ
  estimatedOmittedBytes : ℕ
  firstLimitReason : Option String
  admissionFrozen : Bool
  pendingTruncationDiagnostic : Bool
  truncationDiagnosticEmitted : Bool
  status : String
  closed : Bool
  closeNotified : Bool
  bundle : Option β
  closeError : Option Failure
  lastExportError : Option Failure
  exportAccepted : Option Bool

/-- The recorder and the journal its writer holds. -/
structure Session (ν β : Type) where
  recorder : Recorder ν β
  journal : List (JournalEntry ν)

variable {ν β α : Type} [DecidableEq ν]

/-- An operation's result, and what it leaves. -/
abbrev Outcome (ν β α : Type) := Except Failure α × Session ν β

/-- What an operation returns. -/
inductive Answer (ν β : Type) where
  | nothing
  | record (value : Record ν)
  | kept (admitted : Bool)
  | bundle (value : β)

/-! ## Omissions -/

/-- The counters after `_note_omission_locked`. -/
def Recorder.noteOmission (r : Recorder ν β) (n : Note) : Recorder ν β :=
  { r with
    firstLimitReason := r.firstLimitReason.or (some n.reason)
    pendingTruncationDiagnostic :=
      r.pendingTruncationDiagnostic || r.firstLimitReason.isNone
    admissionFrozen := r.admissionFrozen || n.freeze
    truncatedRecords :=
      if n.wholeRecord = true then saturatingAdd r.truncatedRecords 1 else r.truncatedRecords
    omittedRecordsByKind := fun kind =>
      if n.wholeRecord = true ∧ kind = n.kind then saturatingAdd (r.omittedRecordsByKind kind) 1
      else r.omittedRecordsByKind kind
    omittedRecordsByClass := fun c =>
      if c = n.captureClass then saturatingAdd (r.omittedRecordsByClass c) 1
      else r.omittedRecordsByClass c
    estimatedOmittedBytes := saturatingAdd r.estimatedOmittedBytes n.estimatedBytes }

namespace Session

/-- An entry, where a journal is written. -/
def write (C : RecorderConfig ν) (s : Session ν β) (entry : JournalEntry ν) : Session ν β :=
  if C.journaled = true then { s with journal := s.journal ++ [entry] } else s

/-- `_note_omission_locked` -/
def noteOmission (C : RecorderConfig ν) (s : Session ν β) (n : Note) : Session ν β :=
  { s with recorder := s.recorder.noteOmission n }.write C (.limit n)

/-- Why there is no room for a record, and the bytes that are noted. -/
def refusal (C : RecorderConfig ν) (r : Recorder ν β) (estimatedBytes rawBytes : ℕ) :
    Option (String × ℕ) :=
  if r.admissionFrozen = true then
    some (r.firstLimitReason.getD "max_capture_bytes", estimatedBytes)
  else if rawBytes ≠ 0 ∧ C.maxRawOtlpBytes < r.rawOtlpBytes + rawBytes then
    some ("max_raw_otlp_bytes", rawBytes)
  else if C.maxRecords ≤ r.capturedRecords then some ("max_records", estimatedBytes)
  else if C.maxCaptureBytes < r.capturedBytes + estimatedBytes then
    some ("max_capture_bytes", estimatedBytes)
  else none

/-- `_try_admit_locked` -/
def tryAdmit (C : RecorderConfig ν) (s : Session ν β) (kind : RecordKind)
    (captureClass : CaptureClass) (estimatedBytes rawBytes : ℕ) : Bool × Session ν β :=
  match refusal C s.recorder estimatedBytes rawBytes with
  | some (reason, bytes) => (false, s.noteOmission C ⟨reason, kind, captureClass, bytes, true, true⟩)
  | none =>
    (true, { s with recorder := { s.recorder with
      capturedRecords := s.recorder.capturedRecords + 1
      capturedBytes := s.recorder.capturedBytes + estimatedBytes
      rawOtlpBytes := s.recorder.rawOtlpBytes + rawBytes } })

/-- `_emit_pending_truncation_diagnostic` -/
def emitPendingTruncationDiagnostic (s : Session ν β) : Session ν β :=
  if s.recorder.pendingTruncationDiagnostic = false ∨
      s.recorder.truncationDiagnosticEmitted = true then s
  else { s with recorder := { s.recorder with
    pendingTruncationDiagnostic := false
    truncationDiagnosticEmitted := true } }

/-- The omissions and classes not journaled yet, marked as journaled. -/
def flush (s : Session ν β) : Session ν β :=
  { s with recorder := { s.recorder with
    journaledOmissions := s.recorder.omissions.length
    journaledClasses := s.recorder.journaledClasses ∪ s.recorder.retainedClasses } }

/-- `_journal_locked`, but for coverage. -/
def journalLocked (C : RecorderConfig ν) (s : Session ν β) (kind : String)
    (value : Option (Record ν)) : Session ν β :=
  if C.journaled = true then
    let omissions := s.recorder.omissions.drop s.recorder.journaledOmissions
    let classes := s.recorder.retainedClasses \ s.recorder.journaledClasses
    if value = none ∧ omissions = [] ∧ classes = ∅ then s.flush
    else s.flush.write C (.record kind value omissions classes)
  else s

/-- `_journal_locked` of a coverage note. -/
def journalCoverage (C : RecorderConfig ν) (s : Session ν β) (value : Coverage)
    (replacesIndex : Option ℕ) : Session ν β :=
  if C.journaled = true then
    let omissions := s.recorder.omissions.drop s.recorder.journaledOmissions
    let classes := s.recorder.retainedClasses \ s.recorder.journaledClasses
    s.flush.write C (.coverage value omissions classes replacesIndex)
  else s

/-! ## Records -/

/-- A preparation, before the lock is taken. -/
def prepare (C : RecorderConfig ν) (s : Session ν β) (prep : Prep ν α) : Outcome ν β α :=
  let r := prep.run C (!s.recorder.closed)
  (r.1, r.2.foldl (noteOmission C) s)

/-- What is prepared, and then done under the lock on an open recorder. -/
def prepareThen (C : RecorderConfig ν) (s : Session ν β) (prep : Prep ν α)
    (f : α → Session ν β → Outcome ν β (Answer ν β)) : Outcome ν β (Answer ν β) :=
  match s.prepare C prep with
  | (.error e, s) => (.error e, s)
  | (.ok a, s) => if s.recorder.closed = true then (.error .closed, s) else f a s

end Session

/-- A record at the end of its kind's list. -/
def Kept.push (k : Kept ν) (kind : RecordKind) (value : Record ν) : Kept ν :=
  match kind with
  | .participant => { k with participants := k.participants ++ [value] }
  | .stream => { k with streams := k.streams ++ [value] }
  | .operation => { k with operations := k.operations ++ [value] }
  | .event => { k with events := k.events ++ [value] }
  | .qualitySample => { k with qualitySamples := k.qualitySamples ++ [value] }
  | .media => { k with mediaRefs := k.mediaRefs ++ [value] }
  | .adapter => { k with adapters := k.adapters ++ [value] }
  | .rawOtlp => { k with rawOtlpChunks := k.rawOtlpChunks ++ [value] }
  | .coverage => k
  | .omission => k

/-- The journal's name of a kind. -/
def RecordKind.name : RecordKind → String
  | .adapter => "adapter"
  | .coverage => "coverage"
  | .event => "event"
  | .media => "media"
  | .omission => "omission"
  | .operation => "operation"
  | .participant => "participant"
  | .qualitySample => "quality_sample"
  | .rawOtlp => "raw_otlp"
  | .stream => "stream"

/-- A record with the omissions made in it. -/
def Kept.add (k : Kept ν) (kind : RecordKind) (draft : Draft ν) : Kept ν :=
  let k := k.push kind draft.record
  { k with omissions := k.omissions ++ draft.omissions }

/-- What an admitted record leaves. -/
def Recorder.retain (r : Recorder ν β) (kind : RecordKind) (draft : Draft ν) : Recorder ν β :=
  { r with
    toKept := r.toKept.add kind draft
    retainedClasses := r.retainedClasses ∪ draft.classes }

namespace Session

/-- A record is admitted and journaled, or counted. -/
def admitRecord (C : RecorderConfig ν) (s : Session ν β) (kind : RecordKind) (draft : Draft ν) :
    Bool × Session ν β :=
  let admitted := s.tryAdmit C kind draft.captureClass draft.size 0
  if admitted.1 = true then
    (true, { admitted.2 with
      recorder := admitted.2.recorder.retain kind draft }.journalLocked C kind.name
        (some draft.record))
  else (false, admitted.2)

/-- `add_participant` and `add_stream`: a record that is there already is returned. -/
def addIdentified (C : RecorderConfig ν) (s : Session ν β) (kind : RecordKind)
    (present : Kept ν → List (Record ν)) (conflict : String) (prep : Prep ν (Draft ν)) :
    Outcome ν β (Answer ν β) :=
  s.prepareThen C prep fun draft s =>
    match (present s.recorder.toKept).find? (·.identity = draft.record.identity) with
    | some existing =>
      if existing ≠ draft.record then (.error (.invalid conflict), s)
      else (.ok (.record existing), s.emitPendingTruncationDiagnostic)
    | none =>
      (.ok (.record draft.record), (s.admitRecord C kind draft).2.emitPendingTruncationDiagnostic)

def addParticipant (C : RecorderConfig ν) (s : Session ν β) (prep : Prep ν (Draft ν)) :
    Outcome ν β (Answer ν β) :=
  s.addIdentified C .participant Kept.participants
    "conflicting duplicate participant identity" prep

def addStream (C : RecorderConfig ν) (s : Session ν β) (prep : Prep ν (Draft ν)) :
    Outcome ν β (Answer ν β) :=
  s.addIdentified C .stream Kept.streams "conflicting duplicate stream identity" prep

/-- `record_operation`, `record_event` and `record_quality_sample`. -/
def addRecord (C : RecorderConfig ν) (s : Session ν β) (kind : RecordKind)
    (prep : Prep ν (Draft ν)) : Outcome ν β (Answer ν β) :=
  s.prepareThen C prep fun draft s =>
    (.ok (.record draft.record), (s.admitRecord C kind draft).2.emitPendingTruncationDiagnostic)

def recordOperation (C : RecorderConfig ν) (s : Session ν β) (prep : Prep ν (Draft ν)) :
    Outcome ν β (Answer ν β) :=
  s.addRecord C .operation prep

def recordEvent (C : RecorderConfig ν) (s : Session ν β) (prep : Prep ν (Draft ν)) :
    Outcome ν β (Answer ν β) :=
  s.addRecord C .event prep

def recordQualitySample (C : RecorderConfig ν) (s : Session ν β) (prep : Prep ν (Draft ν)) :
    Outcome ν β (Answer ν β) :=
  s.addRecord C .qualitySample prep

/-- The start of the `operation` context: its journal entry, before the work. -/
def openOperation (C : RecorderConfig ν) (s : Session ν β) (value : Record ν) :
    Outcome ν β (Answer ν β) :=
  (.ok .nothing, s.write C (.operationOpen value))

/-- The end of the `operation` context: a recording that fails does not hide
the application's own error. -/
def closeOperation (C : RecorderConfig ν) (s : Session ν β) (prep : Prep ν (Draft ν))
    (applicationError : Bool) : Outcome ν β (Answer ν β) :=
  match s.recordOperation C prep with
  | (.ok _, s) => (.ok .nothing, s)
  | (.error e, s) =>
    let s := { s with recorder := { s.recorder with lastExportError := some e } }
    if applicationError = true then (.ok .nothing, s) else (.error e, s)

/-- An omission is a record of its own. -/
def admitOmission (C : RecorderConfig ν) (s : Session ν β) (omission : Omission) :
    Session ν β :=
  let admitted := s.tryAdmit C .omission omission.captureClass (C.omissionSize omission) 0
  if admitted.1 = true then
    { admitted.2 with recorder := { admitted.2.recorder with
      omissions := admitted.2.recorder.omissions ++ [omission] } }.journalLocked C
        RecordKind.omission.name none
  else admitted.2

/-- `record_omission`; the omission is checked first. -/
def recordOmission (C : RecorderConfig ν) (s : Session ν β)
    (omission : Except Failure Omission) : Outcome ν β (Answer ν β) :=
  match omission with
  | .error e => (.error e, s)
  | .ok omission =>
    if s.recorder.closed = true then (.error .closed, s)
    else (.ok .nothing, (s.admitOmission C omission).emitPendingTruncationDiagnostic)

/-- The admission of an adapter that is not there yet. -/
def admitAdapter (C : RecorderConfig ν) (s : Session ν β) (draft : Draft ν) :
    Bool × Session ν β :=
  if draft.record ∈ s.recorder.adapters then (false, s)
  else
    let admitted := s.tryAdmit C .adapter .metadata draft.size 0
    if admitted.1 = true then
      (true, { admitted.2 with recorder := { admitted.2.recorder with
        toKept := admitted.2.recorder.toKept.push .adapter draft.record } })
    else (false, admitted.2)

/-- The classes an adapter's extensions retain. -/
def retainAdapterClasses (s : Session ν β) (draft : Draft ν) : Session ν β :=
  if draft.record ∈ s.recorder.adapters then
    { s with recorder := { s.recorder with
      retainedClasses := s.recorder.retainedClasses ∪ draft.classes } }
  else s

/-- `register_adapter` -/
def registerAdapter (C : RecorderConfig ν) (s : Session ν β) (prep : Prep ν (Draft ν)) :
    Outcome ν β (Answer ν β) :=
  s.prepareThen C prep fun draft s =>
    let admitted := s.admitAdapter C draft
    let s := admitted.2.retainAdapterClasses draft
    let s :=
      if admitted.1 = true then s.journalLocked C RecordKind.adapter.name (some draft.record)
      else s.journalLocked C "policy" none
    (.ok .nothing, s.emitPendingTruncationDiagnostic)

/-- `add_raw_otlp_chunk`; a chunk the contract does not take raises once it is
admitted. -/
def addRawOtlpChunk (C : RecorderConfig ν) (s : Session ν β) (signal : String)
    (payloadSize : ℕ) (chunk : Except Failure (Record ν)) : Outcome ν β (Answer ν β) :=
  if s.recorder.closed = true then (.error .closed, s)
  else if C.allows .rawOtlp = false then
    (.ok (.kept false), s.admitOmission C
      ⟨C.sha256 ("otlp:" ++ signal), .rawOtlp, "capture_class_disabled"⟩)
  else
    let estimated := min (C.maxCaptureBytes + 1) (payloadSize + 256)
    let admitted := s.tryAdmit C .rawOtlp .rawOtlp estimated payloadSize
    if admitted.1 = true then
      match chunk with
      | .error e => (.error e, admitted.2)
      | .ok chunk =>
        let draft : Draft ν := ⟨chunk, [], {CaptureClass.rawOtlp}, .rawOtlp, estimated⟩
        let s := { admitted.2 with recorder := admitted.2.recorder.retain .rawOtlp draft }
        (.ok (.kept true),
          (s.journalLocked C RecordKind.rawOtlp.name (some chunk)).emitPendingTruncationDiagnostic)
    else (.ok (.kept false), admitted.2.emitPendingTruncationDiagnostic)

/-- What a media reference comes to before it is admitted. -/
inductive MediaDraft (ν : Type) where
  /-- Its own size exceeds what a value may take. -/
  | oversize (size : ℕ)
  /-- The policy keeps no audio. -/
  | withheld
  | draft (value : Draft ν)

/-- `add_media_ref` -/
def addMediaRef (C : RecorderConfig ν) (s : Session ν β) (prep : Prep ν (MediaDraft ν)) :
    Outcome ν β (Answer ν β) :=
  s.prepareThen C prep fun draft s =>
    match draft with
    | .oversize size =>
      (.ok (.kept false), (s.noteOmission C
        ⟨"max_value_bytes", .media, .audio, size, true, true⟩).emitPendingTruncationDiagnostic)
    | .withheld =>
      (.ok (.kept false),
        s.admitOmission C ⟨C.sha256 "media_ref", .audio, "capture_class_disabled"⟩)
    | .draft value =>
      let admitted := s.admitRecord C .media { value with captureClass := .audio }
      (.ok (.kept admitted.1), admitted.2.emitPendingTruncationDiagnostic)

/-! ## Coverage -/

/-- Coverage supersedes in place, if there is room for what it adds. -/
def supersede (C : RecorderConfig ν) (s : Session ν β) (index : ℕ) (existing c : Coverage) :
    Session ν β :=
  let estimated := C.coverageSize c
  let delta := estimated - C.coverageSize existing
  if s.recorder.admissionFrozen = true then
    s.noteOmission C ⟨s.recorder.firstLimitReason.getD "max_capture_bytes", .coverage, .metadata,
      estimated, true, true⟩
  else if C.maxCaptureBytes < s.recorder.capturedBytes + delta then
    s.noteOmission C ⟨"max_capture_bytes", .coverage, .metadata, estimated, true, true⟩
  else
    { s with recorder := { s.recorder with
      coverage := s.recorder.coverage.set index c
      capturedBytes := s.recorder.capturedBytes + delta } }.journalCoverage C c (some index)

/-- Coverage of a signal that has none. -/
def appendCoverage (C : RecorderConfig ν) (s : Session ν β) (c : Coverage) : Session ν β :=
  let admitted := s.tryAdmit C .coverage .metadata (C.coverageSize c) 0
  if admitted.1 = true then
    { admitted.2 with recorder := { admitted.2.recorder with
      coverage := admitted.2.recorder.coverage ++ [c] } }.journalCoverage C c none
  else admitted.2

/-- Only an `available` note supersedes one that is not. -/
def Upgrades (c existing : Coverage) : Prop :=
  c.availability = "available" ∧ existing.availability ≠ "available"

instance Upgrades.instDecidable (c existing : Coverage) : Decidable (Upgrades c existing) :=
  inferInstanceAs (Decidable (_ ∧ _))

/-- Under the lock, with the note's fields sanitized. -/
def noteCoverage (C : RecorderConfig ν) (s : Session ν β) (c : Coverage) : Session ν β :=
  match s.recorder.coverage.findIdx? (·.signal = c.signal) with
  | none => s.appendCoverage C c
  | some index =>
    match s.recorder.coverage[index]? with
    | none => s
    | some existing =>
      if existing = c then s
      else if Upgrades c existing then s.supersede C index existing c
      else s

/-- `record_coverage` -/
def recordCoverage (C : RecorderConfig ν) (s : Session ν β) (c : Coverage) :
    Outcome ν β (Answer ν β) :=
  if s.recorder.closed = true then (.error .closed, s)
  else (.ok .nothing, (s.noteCoverage C c).emitPendingTruncationDiagnostic)

/-! ## Clocks -/

/-- `_MAX_EXTRA_CLOCK_DOMAINS` -/
def MAX_EXTRA_CLOCK_DOMAINS : ℕ := 16

/-- `_MAX_CLOCK_RELATIONS` -/
def MAX_CLOCK_RELATIONS : ℕ := 64

/-- `register_clock_domain` -/
def registerClockDomain (C : RecorderConfig ν) (s : Session ν β) (domain : Record ν) :
    Outcome ν β (Answer ν β) :=
  if s.recorder.closed = true then (.error .closed, s)
  else if domain.identity = C.clockDomainId then (.ok .nothing, s)
  else
    match s.recorder.extraClockDomains.find? (·.identity = domain.identity) with
    | some existing =>
      if existing ≠ domain then
        (.error (.invalid "conflicting duplicate clock domain identity"), s)
      else (.ok .nothing, s)
    | none =>
      if MAX_EXTRA_CLOCK_DOMAINS ≤ s.recorder.extraClockDomains.length then (.ok .nothing, s)
      else
        (.ok .nothing, { s with recorder := { s.recorder with
          extraClockDomains := s.recorder.extraClockDomains ++ [domain] } }.journalLocked C
            "clock_domain" (some domain))

/-- `register_clock_relation` -/
def registerClockRelation (C : RecorderConfig ν) (s : Session ν β) (relation : Record ν) :
    Outcome ν β (Answer ν β) :=
  if s.recorder.closed = true then (.error .closed, s)
  else
    match s.recorder.clockRelations.find? (·.identity = relation.identity) with
    | some existing =>
      if existing ≠ relation then
        (.error (.invalid "conflicting duplicate clock relation identity"), s)
      else (.ok .nothing, s)
    | none =>
      if MAX_CLOCK_RELATIONS ≤ s.recorder.clockRelations.length then (.ok .nothing, s)
      else
        (.ok .nothing, { s with recorder := { s.recorder with
          clockRelations := s.recorder.clockRelations ++ [relation] } }.journalLocked C
            "clock_relation" (some relation))

end Session

end Earshot.Recording
