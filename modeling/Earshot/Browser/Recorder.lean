import Earshot.Browser.Drain
import Mathlib.Data.List.Basic
/-!
# The recorder of a browser call

Facts and coverage are admitted by one recorder, which journals what it
admitted. A fact's ID ends in the turn's counter; coverage is kept one note
a signal, and only an `available` note supersedes another. Past its limits
the recorder admits nothing more and journals each omission instead. An
observed end writes the finalize entry, with the recorder's own totals.

A browser fact is an event or a quality sample, of the metadata class;
records of other kinds, and the classes retained, are the same in every
call.
-/

namespace Earshot

/-- `_MAX_COUNTER` -/
def MAX_COUNTER : ℕ := 9223372036854775807

/-- `_MAX_LOSS_COUNT` -/
def MAX_LOSS_COUNT : ℕ := 2147483647

structure Coverage where
  signal : String
  availability : String
  reason : Option String
  droppedCount : Option ℕ
  deriving DecidableEq

/-- An attribute the recorder's policy withheld. -/
structure Omission where
  fieldKeySha256 : String
  captureClass : String
  reason : String
  deriving DecidableEq

inductive FactKind where
  | event
  | qualitySample
  deriving DecidableEq

inductive RecordKind where
  | adapter
  | coverage
  | fact (kind : FactKind)
  deriving DecidableEq

/-- What a fact verb is given, and what the policy withholds of it. -/
structure FactDraft where
  kind : FactKind
  name : String
  value : Option ℚ
  sourceField : String
  monotonicMs : ℚ
  omissions : List Omission
  deriving DecidableEq

/-- A recorded fact. Its ID is `event-0-` or `quality-0-` and the counter. -/
structure Fact extends FactDraft where
  sequence : ℕ
  deriving DecidableEq

/-- What distinguishes one fact ID from another. -/
def Fact.id (f : Fact) : FactKind × ℕ := (f.kind, f.sequence)

/-- One `_note_omission_locked` call. -/
structure LimitEntry where
  reason : String
  kind : RecordKind
  estimatedBytes : ℕ
  wholeRecord : Bool
  freeze : Bool
  deriving DecidableEq

/-- Omission counters. -/
structure LimitTotals where
  firstLimitReason : Option String
  truncatedRecords : ℕ
  estimatedOmittedBytes : ℕ
  omittedAdapters : ℕ
  omittedCoverage : ℕ
  omittedEvents : ℕ
  omittedSamples : ℕ
  omittedMetadata : ℕ
  deriving DecidableEq

def LimitTotals.zero : LimitTotals := ⟨none, 0, 0, 0, 0, 0, 0, 0⟩

/-- The counters after one more omission; `add` is how they add. -/
def LimitTotals.note (add : ℕ → ℕ → ℕ) (t : LimitTotals) (e : LimitEntry) : LimitTotals :=
  let bump (kind : RecordKind) (count : ℕ) : ℕ :=
    if e.wholeRecord ∧ e.kind = kind then add count 1 else count
  { firstLimitReason := t.firstLimitReason.or (some e.reason)
    truncatedRecords := if e.wholeRecord then add t.truncatedRecords 1 else t.truncatedRecords
    estimatedOmittedBytes := add t.estimatedOmittedBytes e.estimatedBytes
    omittedAdapters := bump .adapter t.omittedAdapters
    omittedCoverage := bump .coverage t.omittedCoverage
    omittedEvents := bump (.fact .event) t.omittedEvents
    omittedSamples := bump (.fact .qualitySample) t.omittedSamples
    omittedMetadata := add t.omittedMetadata 1 }

/-- `_saturating_add` -/
def saturatingAdd (left right : ℕ) : ℕ := min MAX_COUNTER (left + right)

/-- Per-kind totals. -/
structure RecordCounts where
  adapters : ℕ
  clockDomains : ℕ
  coverage : ℕ
  events : ℕ
  qualitySamples : ℕ
  omissions : ℕ
  deriving DecidableEq

/-- The recorder's totals at an observed end. -/
structure JournalFinalize where
  status : String
  endedMs : ℚ
  limits : LimitTotals
  counts : RecordCounts
  deriving DecidableEq

inductive JournalEntry where
  | opened
  | adapter
  | clockDomain
  | coverage (value : Coverage) (replacesIndex : Option ℕ)
  | fact (value : Fact)
  | limit (entry : LimitEntry)
  | finalize (totals : JournalFinalize)
  deriving DecidableEq

/-- The recorder's limits, the sizes they count, and the drafts the fact
verbs take. -/
structure RecorderConfig where
  maxRecords : ℕ
  maxCaptureBytes : ℕ
  adapterSize : ℕ
  coverageSize : Coverage → ℕ
  factSize : FactDraft → ℕ
  /-- The verb takes the draft: its value is finite and in its range. -/
  takes : FactDraft → Bool

structure Recorder where
  adapters : ℕ
  clockDomains : ℕ
  coverage : List Coverage
  events : List Fact
  qualitySamples : List Fact
  omissions : List Omission
  capturedRecords : ℕ
  capturedBytes : ℕ
  admissionFrozen : Bool
  limits : LimitTotals
  closed : Bool
  /-- What the writer has not handed on yet. -/
  newEntries : List JournalEntry
  deriving DecidableEq

namespace Recorder

def push (r : Recorder) (entry : JournalEntry) : Recorder :=
  { r with newEntries := r.newEntries ++ [entry] }

/-- `take_new` -/
def takeNew (r : Recorder) : List JournalEntry × Recorder :=
  (r.newEntries, { r with newEntries := [] })

/-- `_note_omission_locked` -/
def noteOmission (r : Recorder) (e : LimitEntry) : Recorder :=
  { r with
    admissionFrozen := r.admissionFrozen || e.freeze
    limits := r.limits.note saturatingAdd e }.push (.limit e)

/-- `_try_admit_locked`: the reason a record is refused for, or its room
taken. -/
def tryAdmit (R : RecorderConfig) (r : Recorder) (kind : RecordKind) (estimated : ℕ) :
    Bool × Recorder :=
  let refused (reason : String) : Bool × Recorder :=
    (false, r.noteOmission ⟨reason, kind, estimated, true, true⟩)
  if r.admissionFrozen then refused (r.limits.firstLimitReason.getD "max_capture_bytes")
  else if R.maxRecords ≤ r.capturedRecords then refused "max_records"
  else if R.maxCaptureBytes < r.capturedBytes + estimated then refused "max_capture_bytes"
  else
    (true, { r with
      capturedRecords := r.capturedRecords + 1
      capturedBytes := r.capturedBytes + estimated })

/-- `_bounded_loss_count` -/
def boundedLossCount (count : Option ℕ) : Option ℕ := count.filter (· ≤ MAX_LOSS_COUNT)

/-- Coverage supersedes in place, if there is room for it. -/
def supersede (R : RecorderConfig) (r : Recorder) (index : ℕ) (existing c : Coverage) : Recorder :=
  let estimated := R.coverageSize c
  let delta := estimated - R.coverageSize existing
  let refused (reason : String) : Recorder :=
    r.noteOmission ⟨reason, .coverage, estimated, true, true⟩
  if r.admissionFrozen then refused (r.limits.firstLimitReason.getD "max_capture_bytes")
  else if R.maxCaptureBytes < r.capturedBytes + delta then refused "max_capture_bytes"
  else
    { r with
      coverage := r.coverage.set index c
      capturedBytes := r.capturedBytes + delta }.push (.coverage c (some index))

/-- A note of a signal that has none. -/
def appendCoverage (R : RecorderConfig) (r : Recorder) (c : Coverage) : Recorder :=
  match r.tryAdmit R .coverage (R.coverageSize c) with
  | (false, r) => r
  | (true, r) => { r with coverage := r.coverage ++ [c] }.push (.coverage c none)

/-- `record_coverage`: of a signal that has a note, only an `available` note
supersedes one that is not. -/
def recordCoverage (R : RecorderConfig) (r : Recorder) (note : Coverage) : Recorder :=
  let c := { note with droppedCount := boundedLossCount note.droppedCount }
  match r.coverage.findIdx? (·.signal = c.signal) with
  | none => r.appendCoverage R c
  | some index =>
      match r.coverage[index]? with
      | none => r
      | some existing =>
          if existing = c then r
          else if c.availability = "available" ∧ existing.availability ≠ "available" then
            r.supersede R index existing c
          else r

/-- `record_event` and `record_quality_sample`, once the verb took the draft. -/
def recordFact (R : RecorderConfig) (r : Recorder) (f : Fact) : Recorder :=
  match r.tryAdmit R (.fact f.kind) (R.factSize f.toFactDraft) with
  | (false, r) => r
  | (true, r) =>
      { r with
        events := if f.kind = FactKind.event then r.events ++ [f] else r.events
        qualitySamples := if f.kind = FactKind.event then r.qualitySamples else r.qualitySamples ++ [f]
        omissions := r.omissions ++ f.omissions }.push (.fact f)

/-- `_record_counts_locked` -/
def counts (r : Recorder) : RecordCounts where
  adapters := r.adapters
  clockDomains := r.clockDomains
  coverage := r.coverage.length
  events := r.events.length
  qualitySamples := r.qualitySamples.length
  omissions := r.omissions.length

/-- `finalize_journal`: once. -/
def finalizeJournal (r : Recorder) (endedMs : ℚ) (status : String) : Recorder :=
  if r.closed then r
  else { r.push (.finalize ⟨status, endedMs, r.limits, r.counts⟩) with closed := true }

/-- A recorder that has opened its journal, with the producer's adapter and
the browser's clock domain. -/
def opened (R : RecorderConfig) : Recorder :=
  let r : Recorder :=
    { adapters := 0, clockDomains := 0, coverage := [], events := [], qualitySamples := []
      omissions := [], capturedRecords := 0, capturedBytes := 0, admissionFrozen := false
      limits := .zero, closed := false, newEntries := [.opened] }
  let (admitted, r) := r.tryAdmit R .adapter R.adapterSize
  let r := if admitted then { r with adapters := 1 }.push .adapter else r
  { r with clockDomains := 1 }.push .clockDomain

end Recorder

/-! ## The turn -/

/-- What is recorded on the turn. -/
inductive RecorderOp where
  | coverage (note : Coverage)
  | fact (draft : FactDraft)
  deriving DecidableEq

/-- A call's one turn: its recorder and its counter. -/
structure Turn where
  recorder : Recorder
  sequence : ℕ
  deriving DecidableEq

namespace Turn

/-- One record; `false` when the verb raises. -/
def record (R : RecorderConfig) (t : Turn) : RecorderOp → Bool × Turn
  | .coverage note => (true, { t with recorder := t.recorder.recordCoverage R note })
  | .fact draft =>
      if R.takes draft then
        (true,
          { recorder := t.recorder.recordFact R ⟨draft, t.sequence + 1⟩
            sequence := t.sequence + 1 })
      else (false, t)

/-- Records in order, up to the first that raises. -/
def recordAll (R : RecorderConfig) (t : Turn) : List RecorderOp → Bool × Turn
  | [] => (true, t)
  | op :: ops =>
      match t.record R op with
      | (false, t) => (false, t)
      | (true, t) => t.recordAll R ops

end Turn

end Earshot
