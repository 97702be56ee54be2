import Earshot.Calls.Recordings
/-!
# The closer

A claim takes a call under a fresh lease token, clears `dirty`, makes the
next revision number pending, snapshots the call's evidence and marks what
no revision held. The holder builds the revision outside every lock, then
finishes it, closes a call that had no evidence, or records a failure; each
commits only while the call still carries the claim's token and revision.
-/

namespace Earshot

open Relational

def LEASE_SECONDS : ℕ := 60

def SECOND : ℕ := 1000000000

/-- The stable `calls.materialize_error` code of a call set aside. -/
def CALL_INTEGRITY : String := "EARSHOT_CALL_INTEGRITY"

/-- A claimed call: its revision, lease and snapshot. -/
structure CallClaim where
  projectId : ProjectId
  callId : String
  revision : ℕ
  leaseToken : ℕ
  closeReason : CloseReason
  final : Bool
  capturePreset : CapturePreset
  spanKeys : List (TraceId × SpanId)
  recordings : List Recording
  deriving DecidableEq

namespace CallClaim

def key (claim : CallClaim) : CallKey := (claim.projectId, claim.callId)

/-- `revision_bundle_id` -/
def bundleId (claim : CallClaim) : String := claim.callId ++ ".r" ++ toString claim.revision

/-- `materialize` builds no revision from an empty snapshot. -/
def isEmpty (claim : CallClaim) : Bool := claim.spanKeys.isEmpty && claim.recordings.isEmpty

end CallClaim

/-! ## Rows -/

namespace Call

/-- The revision a call is claimed for. -/
def nextRevision (r : Call) : ℕ := r.latestRevision.elim 1 (· + 1)

def setAside (r : Call) : Call := { r with materializeError := some CALL_INTEGRITY }

/-- The row a claim for `revision` leaves. -/
def lease (revision : ℕ) (now : UnixNano) (r : Call) : Call :=
  { r with
    dirty := false
    pendingRevision := some revision
    leaseUntilUnixNano := some (now + (LEASE_SECONDS * SECOND : ℕ))
    leaseToken := r.leaseToken + 1 }

/-- The row `_close` leaves. -/
def close (latestRevision : Option ℕ) (r : Call) : Call :=
  { r with
    state := .closed
    latestRevision := latestRevision.or r.latestRevision
    pendingRevision := none
    leaseUntilUnixNano := none
    materializeAttempts := 0
    materializeError := none
    evidenceAfterLatestRevision := false }

/-- A new revision is new input to the call's projection. -/
def project (r : Call) : Call := { r with projectionSeq := r.projectionSeq + 1 }

/-- The row a failed attempt leaves. -/
def fail (attempts : ℕ) (due : UnixNano) (code : String) (r : Call) : Call :=
  { r with
    dirty := true
    pendingRevision := none
    leaseUntilUnixNano := none
    materializeAttempts := attempts
    closeDueUnixNano := some due
    materializeError := some code }

def release (r : Call) : Call := { r with leaseUntilUnixNano := none }

theorem setAside_key (r : Call) : r.setAside.key = r.key := rfl

theorem lease_key (revision : ℕ) (now : UnixNano) (r : Call) :
    (r.lease revision now).key = r.key := rfl

theorem close_key (latestRevision : Option ℕ) (r : Call) :
    (r.close latestRevision).key = r.key := rfl

theorem project_key (r : Call) : r.project.key = r.key := rfl

theorem fail_key (attempts : ℕ) (due : UnixNano) (code : String) (r : Call) :
    (r.fail attempts due code).key = r.key := rfl

theorem release_key (r : Call) : r.release.key = r.key := rfl

end Call

namespace Catalog

/-! ## Candidates -/

/-- `ORDER BY c.close_due_unix_nano, c.project_id, c.call_id`; a `NULL` due
time comes first. -/
def closesBefore (a b : Call) : Prop :=
  match a.closeDueUnixNano, b.closeDueUnixNano with
  | none, some _ => True
  | some _, none => False
  | none, none => tie a b
  | some x, some y => x < y ∨ (x = y ∧ tie a b)
where
  tie (a b : Call) : Prop :=
    a.projectId.value < b.projectId.value ∨
      (a.projectId.value = b.projectId.value ∧ a.callId ≤ b.callId)

instance (a b : Call) : Decidable (closesBefore.tie a b) :=
  inferInstanceAs (Decidable (_ ∨ _))

instance : DecidableRel closesBefore := fun a b => by
  unfold closesBefore
  cases a.closeDueUnixNano <;> cases b.closeDueUnixNano <;> infer_instance

/-- The condition both candidate reads share: the lease is free or
expired, the call is not set aside or at the cap, its project is active,
and no pending recording holds it. -/
def claimable (c : Catalog) (now horizon : UnixNano) (r : Call) : Bool :=
  r.leaseUntilUnixNano.all (· < now) && r.materializeError != some CALL_INTEGRITY &&
    c.uncapped r && c.projects.rows.any (fun p => p.projectId == r.projectId && p.active) &&
    !c.recordings.rows.any fun rec =>
      rec.callKey == r.key && rec.state == .pending &&
        (horizon < rec.createdUnixNano || horizon < r.lastEvidenceUnixNano ||
          horizon < r.endSignalUnixNano.getD 0)

/-- `claim_candidate_queries`: the calls with a pending revision, then the
dirty calls that are due. -/
def claimCandidates (c : Catalog) (now horizon : UnixNano) (limit : ℕ) : List Call :=
  let read := fun cond : Call → Bool =>
    ((c.calls.rows.filter fun r => cond r && c.claimable now horizon r).insertionSort
      closesBefore).take limit
  read (fun r => r.pendingRevision.isSome) ++
    read fun r => r.dirty && r.closeDueUnixNano.any (· ≤ now)

/-- `_next_claimable`: never a call with an upload in flight. -/
def nextClaimable (S : CallStore) (c : Catalog) (now : UnixNano) (uploading : List CallKey) :
    Option Call :=
  (c.claimCandidates now (now - S.timings.uploadHoldNano) (uploading.length + 1)).find?
    fun r => !uploading.contains r.key

/-- The call's pending revision is stored already: the invariant broke. -/
def revisionStored (c : Catalog) (r : Call) : Bool :=
  r.pendingRevision.any fun n => (c.callRevisions.find? (r.projectId, r.callId, n)).isSome

/-- `_set_aside` -/
def setAside (c : Catalog) (k : CallKey) : Catalog :=
  c.updateCall k Call.setAside Call.setAside_key

/-- The next claimable call, broken ones set aside on the way. Each turn
sets one call aside, so there are at most as many turns as calls. -/
def setAsideBroken (S : CallStore) (now : UnixNano) (uploading : List CallKey) :
    ℕ → Catalog → Catalog × Option Call
  | 0, c => (c, none)
  | fuel + 1, c =>
      match c.nextClaimable S now uploading with
      | none => (c, none)
      | some r =>
          if c.revisionStored r then
            setAsideBroken S now uploading fuel (c.setAside r.key)
          else (c, some r)

/-! ## Snapshots -/

/-- `call_traces` of one call, as `call_spans_sql` joins them. -/
def bound (c : Catalog) (k : CallKey) (t : ProjectId × TraceId) : Bool :=
  (c.callTraces.find? t).any fun r => r.projectId = k.1 && r.callId = some k.2

/-- The stored spans of one call. -/
def callSpans (c : Catalog) (k : CallKey) : List Span :=
  c.spans.rows.filter fun s => c.bound k s.traceKey

/-- `ORDER BY s.trace_id, s.span_id` -/
def spanBefore (a b : TraceId × SpanId) : Prop := a.1 < b.1 ∨ (a.1 = b.1 ∧ a.2 ≤ b.2)

instance : DecidableRel spanBefore := fun _ _ => inferInstanceAs (Decidable (_ ∨ _))

/-- `SNAPSHOT_KEYS_SQL` -/
def snapshotKeys (c : Catalog) (k : CallKey) : List (TraceId × SpanId) :=
  ((c.callSpans k).map fun s => (s.traceId, s.spanId)).insertionSort spanBefore

/-- `stored_for_call`: the call's stored recordings, by ID. -/
def storedForCall (c : Catalog) (k : CallKey) : List Recording :=
  ((c.recordings.rows.filter fun r => r.callKey = k && r.state = .stored).map
    (·.toRecording)).insertionSort fun a b => a.recordingId ≤ b.recordingId

/-- The row `MARK_SPANS_SQL` leaves. -/
def markSpan (c : Catalog) (k : CallKey) (revision : ℕ) (s : Span) : Span :=
  if s.firstRevision = none ∧ c.bound k s.traceKey = true then
    { s with firstRevision := some revision }
  else s

theorem markSpan_key (c : Catalog) (k : CallKey) (revision : ℕ) (s : Span) :
    (c.markSpan k revision s).key = s.key := by
  unfold markSpan
  split <;> rfl

def markSpans (c : Catalog) (k : CallKey) (revision : ℕ) : Catalog :=
  { c with spans := c.spans.patch (c.markSpan k revision) (c.markSpan_key k revision) }

/-- The row `MARK_RECORDINGS_SQL` leaves. -/
def markRecording (k : CallKey) (revision : ℕ) (r : RecordingRow) : RecordingRow :=
  if r.callKey = k ∧ r.state = .stored ∧ r.firstRevision = none then
    { r with firstRevision := some revision }
  else r

theorem markRecording_key (k : CallKey) (revision : ℕ) (r : RecordingRow) :
    (markRecording k revision r).key = r.key := by
  unfold markRecording
  split <;> rfl

def markRecordings (c : Catalog) (k : CallKey) (revision : ℕ) : Catalog :=
  { c with
    recordings := c.recordings.patch (markRecording k revision) (markRecording_key k revision) }

/-! ## Claiming -/

/-- Why the claimed revision is made. -/
def closeReason (c : Catalog) (r : Call) : CloseReason :=
  if r.endSignalUnixNano.isSome && !c.hasFinal r.key then .endSignal
  else if r.latestRevision.isSome then .lateData
  else .quietPeriod

/-- What the claim takes of the call's row `r`. -/
def claimOf (c : Catalog) (r : Call) (preset : CapturePreset) : CallClaim where
  projectId := r.projectId
  callId := r.callId
  revision := r.nextRevision
  leaseToken := r.leaseToken + 1
  closeReason := c.closeReason r
  final := r.endSignalUnixNano.isSome
  capturePreset := preset
  spanKeys := c.snapshotKeys r.key
  recordings := c.storedForCall r.key

/-- What `_claim` writes: the leased row, and the marks. -/
def claimed (c : Catalog) (r : Call) (now : UnixNano) : Catalog :=
  ((c.updateCall r.key (Call.lease r.nextRevision now) (Call.lease_key _ _)).markSpans r.key
    r.nextRevision).markRecordings r.key r.nextRevision

/-- `_claim` -/
def claimCall (c : Catalog) (r : Call) (now : UnixNano) : Option (Catalog × CallClaim) := do
  let preset ← c.readPreset r.projectId
  return (c.claimed r now, c.claimOf r preset)

/-- `Closer.claim` -/
def claim (S : CallStore) (c : Catalog) (now : UnixNano) (uploading : List CallKey) :
    Option (Catalog × Option CallClaim) :=
  match c.setAsideBroken S now uploading c.calls.rows.length with
  | (c, none) => some (c, none)
  | (c, some r) => (c.claimCall r now).map fun out => (out.1, some out.2)

/-! ## Settling -/

/-- The claim still holds its call's row. -/
def holds (claim : CallClaim) (r : Call) : Bool :=
  r.leaseToken == claim.leaseToken && r.pendingRevision == some claim.revision

/-- `_close`; a claim whose lease was taken over closes nothing. -/
def close (c : Catalog) (claim : CallClaim) (latestRevision : Option ℕ) : Option Catalog :=
  if (c.calls.find? claim.key).any (holds claim) then
    some (c.updateCall claim.key (Call.close latestRevision) (Call.close_key _))
  else none

/-- The row a finish inserts. -/
def revisionRow (claim : CallClaim) (now : UnixNano) : CallRevision where
  projectId := claim.projectId
  callId := claim.callId
  revision := claim.revision
  bundleId := claim.bundleId
  closeReason := claim.closeReason
  finality := if claim.final then .final else .provisional
  spanCount := claim.spanKeys.length
  recordingCount := claim.recordings.length
  createdUnixNano := now

/-- `INSERT INTO call_revisions`: fails on a stored key or bundle ID. -/
def insertRevision (c : Catalog) (row : CallRevision) : Option Catalog :=
  if c.callRevisions.rows.any fun r => r.key == row.key || r.bundleId == row.bundleId then none
  else some { c with callRevisions := c.callRevisions.insert row }

/-- `Closer.finish`: an empty snapshot closes the call without a revision;
any other stores its revision with the close. -/
def finish (c : Catalog) (claim : CallClaim) (now : UnixNano) : Option Catalog :=
  if claim.isEmpty then c.close claim none
  else do
    let c ← c.close claim (some claim.revision)
    let c ← c.insertRevision (revisionRow claim now)
    return (c.noteEvidencePastCap claim.key).updateCall claim.key Call.project Call.project_key

/-- `Closer.fail`: a failed attempt puts the call off, while the claim
still holds it and its revision is not stored. -/
def fail (S : CallStore) (c : Catalog) (claim : CallClaim) (code : String) (now : UnixNano) :
    Option Catalog := do
  let row ← (c.calls.find? claim.key).filter fun r =>
    holds claim r && (c.callRevisions.find? (r.projectId, r.callId, claim.revision)).isNone
  let attempts := row.materializeAttempts + 1
  let delay := min (2 ^ attempts * SECOND) S.timings.longQuietNano
  return c.updateCall claim.key (Call.fail attempts (now + delay) code) (Call.fail_key _ _ _)

/-- `release_leases` -/
def releaseLeases (c : Catalog) : Catalog :=
  { c with calls := c.calls.patch Call.release Call.release_key }

/-! ## Reading a revision back -/

/-- `_source_spans` of a durable revision. -/
def sourceSpans (c : Catalog) (k : CallKey) (revision : ℕ) : List Span :=
  (c.callSpans k).filter fun s => s.firstRevision.any (· ≤ revision)

/-- `_source_recordings` of a durable revision. -/
def sourceRecordings (c : Catalog) (k : CallKey) (revision : ℕ) : List Recording :=
  ((c.recordings.rows.filter fun r =>
    r.callKey = k && r.state = .stored && r.firstRevision.any (· ≤ revision)).map
      (·.toRecording)).insertionSort fun a b => a.recordingId ≤ b.recordingId

end Catalog

/-! ## Uploads in flight

The server keeps the attempts it is uploading in memory. The closer leaves
their calls alone, and the sweep their recordings. -/

/-- `_uploads_in_flight[project_id, blob_key] = recording_id, call_id` -/
structure UploadInFlight where
  projectId : ProjectId
  blobKey : String
  recordingId : String
  callId : String
  deriving DecidableEq

namespace UploadInFlight

def recordingKey (u : UploadInFlight) : ProjectId × String := (u.projectId, u.recordingId)

def callKey (u : UploadInFlight) : CallKey := (u.projectId, u.callId)

end UploadInFlight

/-- `_uploading`: the recordings with an attempt in flight. -/
def uploadingRecordings (inFlight : List UploadInFlight) : List (ProjectId × String) :=
  (inFlight.map (·.recordingKey)).dedup

/-- `uploading_calls`: the calls with an upload in flight. -/
def uploadingCalls (inFlight : List UploadInFlight) : List CallKey :=
  (inFlight.map (·.callKey)).dedup

theorem mem_uploadingRecordings {inFlight : List UploadInFlight} {k : ProjectId × String} :
    k ∈ uploadingRecordings inFlight ↔ ∃ u ∈ inFlight, u.recordingKey = k := by
  simp [uploadingRecordings]

theorem mem_uploadingCalls {inFlight : List UploadInFlight} {k : CallKey} :
    k ∈ uploadingCalls inFlight ↔ ∃ u ∈ inFlight, u.callKey = k := by
  simp [uploadingCalls]

end Earshot
