import Earshot.Calls.Record
/-!
# Parked traces

A trace no span of which names a session key waits unbound. Once it has
been quiet long enough it is discarded, or, when it holds a session span,
promoted to a call keyed by the trace; a trace whose tombstone is live is
dropped.
-/

namespace Earshot

open Relational

namespace Catalog

/-- `ORDER BY last_span_received_unix_nano, project_id, trace_id` -/
def dueBefore (a b : CallTrace) : Prop :=
  a.lastSpanReceivedUnixNano < b.lastSpanReceivedUnixNano ∨
    (a.lastSpanReceivedUnixNano = b.lastSpanReceivedUnixNano ∧
      (a.projectId.value < b.projectId.value ∨
        (a.projectId.value = b.projectId.value ∧ a.traceId ≤ b.traceId)))

instance : DecidableRel dueBefore := fun _ _ => inferInstanceAs (Decidable (_ ∨ _))

/-- `_due_parked_traces` -/
def dueParkedTraces (S : CallStore) (c : Catalog) (now : UnixNano) (limit : ℕ) :
    List CallTrace :=
  ((c.callTraces.rows.filter fun r =>
    r.callId.isNone && r.lastSpanReceivedUnixNano ≤ now - S.timings.longQuietNano).insertionSort
      dueBefore).take limit

/-- The earliest of the readings, `NULL` when there is none. -/
def earliest : List UnixNano → Option UnixNano
  | [] => none
  | t :: ts => some (ts.foldl min t)

/-- The row `_promote` inserts: due as of the trace's last evidence. -/
def promotedCall (S : CallStore) (c : Catalog) (row : CallTrace) (created : UnixNano) : Call :=
  let fingerprint := S.traceKeyFingerprint row.projectId row.traceId
  let generation := c.generation row.projectId fingerprint
  let spans := c.spansOf row.key
  let ended := earliest ((spans.filter (·.endMarker)).map (·.receivedUnixNano))
  { projectId := row.projectId
    callId := S.traceCallId row.projectId row.traceId generation
    sessionKey := none
    keyFingerprint := fingerprint
    keySource := .traceId
    generation := generation
    state := .open
    firstEvidenceUnixNano := row.firstSpanReceivedUnixNano
    lastEvidenceUnixNano := row.lastSpanReceivedUnixNano
    endSignalUnixNano := ended
    closeDueUnixNano := some (S.closeDue .open ended.isSome row.lastSpanReceivedUnixNano)
    dirty := true
    pendingRevision := none
    latestRevision := none
    leaseUntilUnixNano := none
    leaseToken := 0
    materializeAttempts := 0
    materializeError := none
    spanCount := spans.length
    recordingCount := 0
    evidenceAfterLatestRevision := false
    revisionCapCounted := false
    createdUnixNano := created
    projectionSeq := 0 }

/-- `UPDATE call_traces SET call_id = ?` for one trace. -/
def bindTrace (c : Catalog) (k : ProjectId × TraceId) (callId : String) : Catalog :=
  { c with
    callTraces := c.callTraces.patch
      (fun r => if r.key = k then { r with callId := some callId } else r)
      fun r => by split <;> rfl }

/-- `_promote`: a quiet parked trace becomes a call keyed by its trace. -/
def promote (S : CallStore) (c : Catalog) (row : CallTrace) (created : UnixNano) :
    Option Catalog := do
  let call := c.promotedCall S row created
  let c ← c.insertCall call
  return c.bindTrace row.key call.callId

/-- One due trace: discarded, dropped or promoted. `created` is the clock
as its promotion reads it. -/
def collectParkedTrace (S : CallStore) (c : Catalog) (row : CallTrace) (now created : UnixNano) :
    Option Catalog :=
  if !row.hasSessionSpan then
    some ((c.deleteTrace row.projectId row.traceId).bumpCounter row.projectId
      .parkedTracesDiscarded 1)
  else if c.tombstoned row.projectId (S.traceKeyFingerprint row.projectId row.traceId) now then
    some ((c.deleteTrace row.projectId row.traceId).bumpCounter row.projectId
      .purgedCallEvidenceDropped (c.spansOf row.key).length)
  else c.promote S row created

/-- `collect_parked_traces`: up to `limit` due traces, oldest deadline
first. -/
def collectParkedTraces (S : CallStore) (c : Catalog) (now : UnixNano) (limit : ℕ)
    (clock : ProjectId × TraceId → UnixNano) : Option Catalog :=
  if limit < 1 then none
  else (c.dueParkedTraces S now limit).foldlM
    (fun c row => c.collectParkedTrace S row now (clock row.key)) c

end Catalog

end Earshot
