import Earshot.Common.Table
import Earshot.Calls.Capture
/-!
# The call catalog

The tables a call lives in, as `storage_schema.py` declares them. A row
keeps the columns the modelled operations read or write; a table carries
its primary key in its type. Foreign keys are what `Catalog.Linked`
(`Effects/Linked.lean`) proves of every reachable catalog; the two unique
columns beside a primary key (`calls.call_id`, `call_revisions.bundle_id`)
are checked by the inserts, which fail as the database does.
-/

namespace Earshot

open Relational

/-- `^[a-z0-9][a-z0-9_-]{0,63}$`, the pattern of a project ID. -/
def isPortable (value : String) : Bool :=
  match value.toList with
  | [] => false
  | first :: rest =>
      (first.isLower || first.isDigit) && rest.length ≤ 63 &&
        rest.all fun c => c.isLower || c.isDigit || c == '_' || c == '-'

/-- A lowercase portable identifier. -/
structure ProjectId where
  value : String
  portable : isPortable value = true
  deriving DecidableEq

/-- A call of a project. -/
abbrev CallKey := ProjectId × String

/-! ## Rows -/

structure Project where
  projectId : ProjectId
  capturePreset : CapturePreset
  /-- `lifecycle_state = 'active'`. -/
  active : Bool
  deriving DecidableEq

inductive CallState where
  | «open»
  | closed
  deriving DecidableEq, Repr

structure Call where
  projectId : ProjectId
  callId : String
  sessionKey : Option String
  keyFingerprint : String
  keySource : KeySource
  generation : ℕ
  state : CallState
  firstEvidenceUnixNano : UnixNano
  lastEvidenceUnixNano : UnixNano
  endSignalUnixNano : Option UnixNano
  closeDueUnixNano : Option UnixNano
  dirty : Bool
  pendingRevision : Option ℕ
  latestRevision : Option ℕ
  leaseUntilUnixNano : Option UnixNano
  leaseToken : ℕ
  materializeAttempts : ℕ
  materializeError : Option String
  spanCount : ℕ
  recordingCount : ℕ
  evidenceAfterLatestRevision : Bool
  revisionCapCounted : Bool
  createdUnixNano : UnixNano
  projectionSeq : ℕ
  deriving DecidableEq

def Call.key (r : Call) : CallKey := (r.projectId, r.callId)

structure CallTrace where
  projectId : ProjectId
  traceId : TraceId
  /-- The call the trace is bound to; a parked trace has none. -/
  callId : Option String
  hasSessionSpan : Bool
  firstSpanReceivedUnixNano : UnixNano
  lastSpanReceivedUnixNano : UnixNano
  deriving DecidableEq

def CallTrace.key (r : CallTrace) : ProjectId × TraceId := (r.projectId, r.traceId)

structure Span where
  projectId : ProjectId
  traceId : TraceId
  spanId : SpanId
  parentSpanId : Option SpanId
  name : String
  scopeName : String
  startUnixNano : UnixNano
  endUnixNano : UnixNano
  endMarker : Bool
  resourceDigest : Digest
  digest : Digest
  receivedUnixNano : UnixNano
  textJson : Option String
  payload : Payload
  /-- The first revision that holds the span. -/
  firstRevision : Option ℕ
  deriving DecidableEq

def Span.key (r : Span) : ProjectId × TraceId × SpanId := (r.projectId, r.traceId, r.spanId)

/-- The trace a span row belongs to. -/
def Span.traceKey (r : Span) : ProjectId × TraceId := (r.projectId, r.traceId)

/-- The span only follows its call's end. -/
def Span.tail (r : Span) : Bool := isTailSpan r.scopeName r.name

inductive Speaker where
  | user
  | agent
  | mixed
  deriving DecidableEq, Repr

inductive RecordingState where
  | pending
  | stored
  | failed
  deriving DecidableEq, Repr

/-- One recording as it is read. -/
structure Recording where
  projectId : ProjectId
  recordingId : String
  callId : String
  speaker : Speaker
  contentType : String
  label : Option String
  startedAtUnixNano : String
  state : RecordingState
  blobKey : Option String
  size : Option ℕ
  sha256 : Option String
  durationMs : Option ℕ
  createdUnixNano : UnixNano
  storedUnixNano : Option UnixNano
  channelSpeakers : Option (List Speaker)
  deriving DecidableEq

/-- A recording's row: what is read, and the first revision that holds it. -/
structure RecordingRow extends Recording where
  firstRevision : Option ℕ
  deriving DecidableEq

def RecordingRow.key (r : RecordingRow) : ProjectId × String := (r.projectId, r.recordingId)

/-- The call a recording belongs to. -/
def RecordingRow.callKey (r : RecordingRow) : CallKey := (r.projectId, r.callId)

structure OtlpResource where
  projectId : ProjectId
  resourceDigest : Digest
  payload : Payload
  deriving DecidableEq

def OtlpResource.key (r : OtlpResource) : ProjectId × Digest := (r.projectId, r.resourceDigest)

inductive CloseReason where
  | endSignal
  | quietPeriod
  | lateData
  deriving DecidableEq, Repr

inductive Finality where
  | final
  | provisional
  deriving DecidableEq, Repr

structure CallRevision where
  projectId : ProjectId
  callId : String
  revision : ℕ
  bundleId : String
  closeReason : CloseReason
  finality : Finality
  spanCount : ℕ
  recordingCount : ℕ
  createdUnixNano : UnixNano
  deriving DecidableEq

def CallRevision.key (r : CallRevision) : ProjectId × String × ℕ :=
  (r.projectId, r.callId, r.revision)

/-- The call a revision belongs to. -/
def CallRevision.callKey (r : CallRevision) : CallKey := (r.projectId, r.callId)

structure CallKeyGeneration where
  projectId : ProjectId
  keyFingerprint : String
  generation : ℕ
  deriving DecidableEq

def CallKeyGeneration.key (r : CallKeyGeneration) : ProjectId × String :=
  (r.projectId, r.keyFingerprint)

structure CallTombstone where
  projectId : ProjectId
  keyFingerprint : String
  generation : ℕ
  expiresAtUnixNano : UnixNano
  deriving DecidableEq

def CallTombstone.key (r : CallTombstone) : ProjectId × String × ℕ :=
  (r.projectId, r.keyFingerprint, r.generation)

/-- The persisted rare-event counters. -/
inductive OtlpCounterName where
  | rejectedSpans
  | spanConflicts
  | parkedTracesDiscarded
  | keyDisagreements
  | revisionCapReached
  | purgedCallEvidenceDropped
  deriving DecidableEq, Repr

structure OtlpCounter where
  projectId : ProjectId
  name : OtlpCounterName
  value : ℕ
  deriving DecidableEq

def OtlpCounter.key (r : OtlpCounter) : ProjectId × OtlpCounterName := (r.projectId, r.name)

/-- A call is revised at most this many times, plus its first end-signal
close. -/
def REVISION_CAP : ℕ := 16

/-- The cap rule on a row; `final`: the call has a final revision. -/
def Call.uncapped (r : Call) (final : Bool) : Bool :=
  r.latestRevision.all (· < REVISION_CAP) || (r.endSignalUnixNano.isSome && !final)

/-! ## The catalog -/

structure Catalog where
  projects : Table Project.projectId
  calls : Table Call.key
  callTraces : Table CallTrace.key
  spans : Table Span.key
  recordings : Table RecordingRow.key
  callRevisions : Table CallRevision.key
  otlpResources : Table OtlpResource.key
  callKeyGenerations : Table CallKeyGeneration.key
  callTombstones : Table CallTombstone.key
  otlpCounters : Table OtlpCounter.key

namespace Catalog

/-- A catalog nothing was written to. -/
def empty : Catalog where
  projects := .empty
  calls := .empty
  callTraces := .empty
  spans := .empty
  recordings := .empty
  callRevisions := .empty
  otlpResources := .empty
  callKeyGenerations := .empty
  callTombstones := .empty
  otlpCounters := .empty

/-- `_read_preset`: the preset of an active project; a project that is
absent or not active takes no writes. -/
def readPreset (c : Catalog) (p : ProjectId) : Option CapturePreset :=
  ((c.projects.find? p).filter (·.active)).map (·.capturePreset)

/-- `UPDATE calls … WHERE project_id = ? AND call_id = ?`. -/
def updateCall (c : Catalog) (k : CallKey) (f : Call → Call) (hf : ∀ r, (f r).key = r.key) :
    Catalog :=
  { c with
    calls := c.calls.patch (fun r => if r.key = k then f r else r) fun r => by
      split
      · exact hf r
      · rfl }

/-- `INSERT INTO calls`: fails on a call ID any project's call has. -/
def insertCall (c : Catalog) (row : Call) : Option Catalog :=
  if c.calls.rows.any (·.callId == row.callId) then none
  else some { c with calls := c.calls.insert row }

/-! ## The revision cap -/

/-- The call has a revision of finality `final`. -/
def hasFinal (c : Catalog) (k : CallKey) : Bool :=
  c.callRevisions.rows.any fun r => r.callKey == k && r.finality == .final

/-- `UNCAPPED_SQL`: the call may be revised. -/
def uncapped (c : Catalog) (r : Call) : Bool := r.uncapped (c.hasFinal r.key)

/-! ## Counters -/

/-- The counter's value, `0` before its first row. -/
def counter (c : Catalog) (p : ProjectId) (name : OtlpCounterName) : ℕ :=
  ((c.otlpCounters.find? (p, name)).map (·.value)).getD 0

/-- `_bump_counters` for one counter; a zero increment writes nothing. -/
def bumpCounter (c : Catalog) (p : ProjectId) (name : OtlpCounterName) (by_ : ℕ) : Catalog :=
  if by_ = 0 then c
  else
    { c with
      otlpCounters :=
        if (c.otlpCounters.find? (p, name)).isSome then
          c.otlpCounters.patch
            (fun r => if r.key = (p, name) then { r with value := r.value + by_ } else r)
            fun r => by split <;> rfl
        else c.otlpCounters.insert ⟨p, name, by_⟩ }

end Catalog

end Earshot
