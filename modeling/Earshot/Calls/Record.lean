import Earshot.Calls.Identity
/-!
# Recording a batch

`CallStore._record`, in the order the source writes. Each trace of the
batch is resolved against the stored rows: bound, named, parked or
dropped. Dropped traces leave the catalog; the others get their rows, the
calls their keys name are created, the spans not yet stored are inserted,
and each call that received spans is credited with them.

The batched reads of the source (one statement per chunk) are lookups
here, and its mutable targets are folded trace by trace.
-/

namespace Earshot

open Relational

/-! ## Traces and targets -/

/-- A call a batch's spans go to. -/
structure CallTarget where
  callId : String
  keyFingerprint : String
  created : Bool
  key : Option SessionKey
  generation : ℕ
  firstEvidence : UnixNano
  newSpans : ℕ
  /-- Of `newSpans`, the tail spans. -/
  tailSpans : ℕ
  endMarker : Bool
  deriving DecidableEq

/-- One trace of a batch: its spans in arrival order, its stored row, and
its call. -/
structure Trace where
  traceId : TraceId
  spans : List Prepared
  row : Option CallTrace
  target : Option CallTarget
  dropped : Bool
  deriving DecidableEq

namespace Trace

/-- The call the trace's stored row is bound to. -/
def boundTo (tr : Trace) : Option String := tr.row.bind (·.callId)

/-- A stored trace that was parked and now has a call. -/
def joining (tr : Trace) : Bool := tr.target.isSome && tr.row.isSome && tr.boundTo.isNone

end Trace

/-- The batch's trace IDs, sorted. -/
def traceIds (prepared : List Prepared) : List TraceId :=
  (prepared.map (·.traceId)).dedup.insertionSort (· ≤ ·)

/-- One trace's spans, with its stored row. -/
def batchTrace (c : Catalog) (p : ProjectId) (prepared : List Prepared) (t : TraceId) : Trace where
  traceId := t
  spans := prepared.filter (·.traceId = t)
  row := c.callTraces.find? (p, t)
  target := none
  dropped := false

/-- The target of a trace bound to `callId`; the foreign key of
`call_traces` keeps that call. -/
def boundTarget (c : Catalog) (p : ProjectId) (callId : String) : CallTarget where
  callId := callId
  keyFingerprint := ((c.calls.find? (p, callId)).map (·.keyFingerprint)).getD ""
  created := false
  key := none
  generation := 0
  firstEvidence := 0
  newSpans := 0
  tailSpans := 0
  endMarker := false

/-- The target a session key names, at the key's current generation. -/
def namedTarget (S : CallStore) (c : Catalog) (p : ProjectId) (now : UnixNano)
    (key : SessionKey) : CallTarget :=
  let fingerprint := S.keyFingerprint p key.value
  let generation := c.generation p fingerprint
  let callId := S.callId p key.value generation
  { callId := callId
    keyFingerprint := fingerprint
    created := (c.calls.find? (p, callId)).isNone
    key := some key
    generation := generation
    firstEvidence := now
    newSpans := 0
    tailSpans := 0
    endMarker := false }

/-- `_resolve_targets`, for one trace: the call its row is bound to, or the
one its first key names; `dropped` when the trace or the key is purged. -/
def resolveTarget (S : CallStore) (c : Catalog) (p : ProjectId) (now : UnixNano)
    (tr : Trace) : Trace :=
  match tr.boundTo with
  | some callId => { tr with target := some (boundTarget c p callId) }
  | none =>
      if tr.row.isNone && c.tombstoned p (S.traceKeyFingerprint p tr.traceId) now then
        { tr with dropped := true }
      else
        match firstKey tr.spans with
        | none => tr
        | some key =>
            if c.tombstoned p (S.keyFingerprint p key.value) now then { tr with dropped := true }
            else { tr with target := some (namedTarget S c p now key) }

/-- The batch's traces, resolved, in sorted order. -/
def resolveTargets (S : CallStore) (c : Catalog) (p : ProjectId) (prepared : List Prepared)
    (now : UnixNano) : List Trace :=
  (traceIds prepared).map fun t => resolveTarget S c p now (batchTrace c p prepared t)

/-- The first trace of a call brings its target (`setdefault`); a new
call's first evidence is its earliest parked span. -/
def addTarget (targets : List CallTarget) (tr : Trace) : List CallTarget :=
  match tr.target, tr.row with
  | none, _ => targets
  | some target, row =>
      let targets :=
        if targets.any (·.callId == target.callId) then targets else targets ++ [target]
      match row with
      | none => targets
      | some row =>
          targets.map fun u =>
            if u.callId = target.callId ∧ u.created = true ∧ row.callId = none then
              { u with firstEvidence := min u.firstEvidence row.firstSpanReceivedUnixNano }
            else u

def batchTargets (kept : List Trace) : List CallTarget := kept.foldl addTarget []

/-- The traces the batch drops. -/
def goneTraces (S : CallStore) (c : Catalog) (p : ProjectId) (prepared : List Prepared)
    (now : UnixNano) : List Trace :=
  (resolveTargets S c p prepared now).filter (·.dropped)

/-- The targets of the traces it keeps. -/
def keptTargets (S : CallStore) (c : Catalog) (p : ProjectId) (prepared : List Prepared)
    (now : UnixNano) : List CallTarget :=
  batchTargets ((resolveTargets S c p prepared now).filter (!·.dropped))

/-- The traces it keeps; traces of one call share its target. -/
def keptTraces (S : CallStore) (c : Catalog) (p : ProjectId) (prepared : List Prepared)
    (now : UnixNano) : List Trace :=
  ((resolveTargets S c p prepared now).filter (!·.dropped)).map fun tr =>
    { tr with
      target := tr.target.bind fun t =>
        (keptTargets S c p prepared now).find? (·.callId = t.callId) }

/-! ## Deleting a trace -/

namespace Catalog

/-- `_delete_unreferenced_resources`: of the listed digests, those no span
of the project names any more. -/
def deleteUnreferencedResources (c : Catalog) (p : ProjectId) (digests : List Digest) : Catalog :=
  { c with
    otlpResources := c.otlpResources.delete fun r =>
      r.projectId == p && digests.contains r.resourceDigest &&
        !c.spans.rows.any fun s => s.projectId == p && s.resourceDigest == r.resourceDigest }

/-- The spans of one trace. -/
def spansOf (c : Catalog) (k : ProjectId × TraceId) : List Span :=
  c.spans.rows.filter (·.traceKey = k)

/-- `_delete_trace`: the trace, its spans, and the resources only they
named. -/
def deleteTrace (c : Catalog) (p : ProjectId) (t : TraceId) : Catalog :=
  let digests := (c.spansOf (p, t)).map (·.resourceDigest)
  { c with
    spans := c.spans.delete (·.traceKey = (p, t))
    callTraces := c.callTraces.delete (·.key = (p, t)) }.deleteUnreferencedResources p digests

/-- The dropped traces that were stored leave the catalog. -/
def dropTraces (c : Catalog) (p : ProjectId) (gone : List Trace) : Catalog :=
  (gone.filter (·.row.isSome)).foldl (fun c tr => c.deleteTrace p tr.traceId) c

end Catalog

/-! ## Evidence -/

/-- What one write adds to a call. -/
structure Evidence where
  spans : ℕ
  recordings : ℕ
  endMarker : Bool
  /-- Of `spans`, the tail spans, which are not evidence on their own. -/
  tailSpans : ℕ
  deriving DecidableEq

/-- The due time after evidence arrives at `now`. -/
def CallStore.closeDue (S : CallStore) (state : CallState) (ended : Bool) (now : UnixNano) :
    UnixNano :=
  let due := now + (if ended then S.timings.endGraceNano else S.timings.longQuietNano)
  match state with
  | .closed => max (now + S.timings.lateDebounceNano) due
  | .open => due

namespace Call

/-- The write brings the call's end signal. -/
def givesEndSignal (r : Call) (item : Evidence) : Bool :=
  r.endSignalUnixNano.isNone && item.endMarker

/-- Spans that are all tail spans are counted only. -/
def countedOnly (r : Call) (item : Evidence) : Bool :=
  item.spans = item.tailSpans && item.recordings = 0 && !r.givesEndSignal item

/-- `_add_evidence`, for one call's row. -/
def addEvidence (S : CallStore) (item : Evidence) (now : UnixNano) (r : Call) : Call :=
  if r.countedOnly item then { r with spanCount := r.spanCount + item.spans }
  else
    let endSignal := if r.givesEndSignal item then some now else r.endSignalUnixNano
    { r with
      lastEvidenceUnixNano := now
      dirty := true
      spanCount := r.spanCount + item.spans
      recordingCount := r.recordingCount + item.recordings
      endSignalUnixNano := endSignal
      closeDueUnixNano := some (S.closeDue r.state endSignal.isSome now) }

theorem addEvidence_key (S : CallStore) (item : Evidence) (now : UnixNano) (r : Call) :
    (r.addEvidence S item now).key = r.key := by
  unfold addEvidence
  split <;> rfl

/-- The call holds evidence no revision shows. -/
def flag (r : Call) : Call := { r with evidenceAfterLatestRevision := true }

/-- `revision_cap_reached` has counted the call. -/
def count (r : Call) : Call := { r with revisionCapCounted := true }

theorem flag_key (r : Call) : r.flag.key = r.key := rfl

theorem count_key (r : Call) : r.count.key = r.key := rfl

end Call

namespace Catalog

/-- `note_evidence_past_cap`: a dirty call at the cap holds evidence no
revision will show; it is flagged, and counted the first time. -/
def noteEvidencePastCap (c : Catalog) (k : CallKey) : Catalog :=
  match c.calls.find? k with
  | none => c
  | some r =>
      if r.dirty && !r.evidenceAfterLatestRevision && !c.uncapped r then
        let flagged := c.updateCall k Call.flag Call.flag_key
        if r.revisionCapCounted then flagged
        else (flagged.updateCall k Call.count Call.count_key).bumpCounter k.1 .revisionCapReached 1
      else c

/-- `_add_evidence` for one call. -/
def addCallEvidence (S : CallStore) (c : Catalog) (k : CallKey) (item : Evidence)
    (now : UnixNano) : Catalog :=
  match c.calls.find? k with
  | none => c
  | some r =>
      let credited := c.updateCall k (Call.addEvidence S item now) (Call.addEvidence_key S item now)
      if !r.countedOnly item && r.latestRevision.any (REVISION_CAP ≤ ·) then
        credited.noteEvidencePastCap k
      else credited

/-- `_add_evidence`, in call order. -/
def addEvidence (S : CallStore) (c : Catalog) (p : ProjectId)
    (evidence : List (String × Evidence)) (now : UnixNano) : Catalog :=
  evidence.foldl (fun c e => c.addCallEvidence S (p, e.1) e.2 now) c

/-! ## Creating calls -/

/-- The row of a new call; a call a recording creates is due at
`closeDue`, and dirty. -/
def newCall (p : ProjectId) (target : CallTarget) (key : SessionKey) (preset : CapturePreset)
    (closeDue : Option UnixNano) : Call where
  projectId := p
  callId := target.callId
  sessionKey := if preset = .full then some key.value else none
  keyFingerprint := target.keyFingerprint
  keySource := key.source
  generation := target.generation
  state := .open
  firstEvidenceUnixNano := target.firstEvidence
  lastEvidenceUnixNano := target.firstEvidence
  endSignalUnixNano := none
  closeDueUnixNano := closeDue
  dirty := closeDue.isSome
  pendingRevision := none
  latestRevision := none
  leaseUntilUnixNano := none
  leaseToken := 0
  materializeAttempts := 0
  materializeError := none
  spanCount := 0
  recordingCount := 0
  evidenceAfterLatestRevision := false
  revisionCapCounted := false
  createdUnixNano := target.firstEvidence
  projectionSeq := 0

/-- `_insert_calls`: the new calls among the targets. A new call has the
key that named it. -/
def insertCalls (c : Catalog) (p : ProjectId) (targets : List CallTarget)
    (preset : CapturePreset) (closeDue : Option UnixNano) : Option Catalog :=
  targets.foldlM (fun c target =>
    if target.created then
      target.key.bind fun key => c.insertCall (newCall p target key preset closeDue)
    else some c) c

/-! ## Storing spans -/

/-- The rows of the batch's new traces, parked until their spans are
stored. -/
def insertTraces (c : Catalog) (p : ProjectId) (kept : List Trace) (now : UnixNano) : Catalog :=
  { c with
    callTraces := c.callTraces.insertAll <| (kept.filter (·.row.isNone)).map fun tr =>
      ⟨p, tr.traceId, none, false, now, now⟩ }

/-- The resources the batch's spans name; of one digest the last. -/
def insertResources (c : Catalog) (p : ProjectId) (kept : List Trace) : Catalog :=
  { c with
    otlpResources := c.otlpResources.insertAll <| ((kept.flatMap (·.spans)).reverse).map fun s =>
      ⟨p, s.resourceDigest, s.resourcePayload⟩ }

end Catalog

/-- `_span_row` -/
def spanRow (p : ProjectId) (now : UnixNano) (s : Prepared) : Span where
  projectId := p
  traceId := s.traceId
  spanId := s.spanId
  parentSpanId := s.parentSpanId
  name := s.name
  scopeName := s.scopeName
  startUnixNano := s.start
  endUnixNano := s.end
  endMarker := s.endMarker
  resourceDigest := s.resourceDigest
  digest := s.digest
  receivedUnixNano := now
  textJson := s.textJson
  payload := s.payload
  firstRevision := none

/-- What storing one trace's spans found. -/
structure Outcome where
  trace : Trace
  /-- The spans not yet stored, of each span ID the first. -/
  fresh : List Prepared
  duplicates : ℕ
  conflicts : ℕ
  disagreements : ℕ
  /-- The spans a joining trace brings, and whether one ended the call. -/
  parkedSpans : ℕ
  parkedEnded : Bool

/-- The digests a span was first written with, in the catalog or earlier
in the batch. -/
def firstWrite (c : Catalog) (p : ProjectId) (tr : Trace) (fresh : List Prepared)
    (s : Prepared) : Option (Digest × Digest) :=
  ((if tr.row.isSome then c.spans.find? (p, tr.traceId, s.spanId) else none).map
    fun r => (r.digest, r.resourceDigest)).or
  ((fresh.find? (·.spanId = s.spanId)).map fun r => (r.digest, r.resourceDigest))

/-- One span of a trace: new, a duplicate, or a conflict with the first
write, which is kept. -/
def storeSpan (S : CallStore) (c : Catalog) (p : ProjectId) (o : Outcome) (s : Prepared) :
    Outcome :=
  match firstWrite c p o.trace o.fresh s with
  | some first =>
      if first = (s.digest, s.resourceDigest) then { o with duplicates := o.duplicates + 1 }
      else { o with conflicts := o.conflicts + 1 }
  | none =>
      let disagrees := match o.trace.target, s.key with
        | some target, some key => S.keyFingerprint p key.value != target.keyFingerprint
        | _, _ => false
      { o with
        fresh := o.fresh ++ [s]
        disagreements := o.disagreements + if disagrees then 1 else 0 }

/-- `_store_spans`, for one trace: its spans in the order of their IDs. -/
def storeTrace (S : CallStore) (c : Catalog) (p : ProjectId) (tr : Trace) : Outcome :=
  let parked := if tr.joining then c.spansOf (p, tr.traceId) else []
  (tr.spans.insertionSort (·.spanId ≤ ·.spanId)).foldl (storeSpan S c p)
    { trace := tr, fresh := [], duplicates := 0, conflicts := 0, disagreements := 0
      parkedSpans := parked.length, parkedEnded := parked.any (·.endMarker) }

namespace Outcome

/-- The trace's row is written when it gained spans or joined its call. -/
def touched (o : Outcome) : Bool := !o.fresh.isEmpty || o.trace.joining

/-- The trace's spans, credited to its call. -/
def credit (target : CallTarget) (o : Outcome) : CallTarget :=
  if o.trace.target.map (·.callId) = some target.callId then
    { target with
      newSpans := target.newSpans + o.parkedSpans + o.fresh.length
      tailSpans := target.tailSpans + o.fresh.countP (·.tail)
      endMarker := target.endMarker || o.parkedEnded || o.fresh.any (·.endMarker) }
  else target

/-- `UPDATE call_traces`, for a touched trace. -/
def updateTrace (now : UnixNano) (o : Outcome) (r : CallTrace) : CallTrace :=
  { r with
    callId := o.trace.target.map (·.callId)
    lastSpanReceivedUnixNano := now
    hasSessionSpan := if o.fresh.any (·.sessionSpan) then true else r.hasSessionSpan }

end Outcome

namespace Catalog

/-- The new span rows; the source raises if one was stored meanwhile. -/
def insertSpans (c : Catalog) (rows : List Span) : Option Catalog :=
  let spans := c.spans.insertAll rows
  if spans.rows.length = c.spans.rows.length + rows.length then some { c with spans } else none

/-- The rows of the touched traces. -/
def updateTraces (c : Catalog) (p : ProjectId) (outcomes : List Outcome) (now : UnixNano) :
    Catalog :=
  { c with
    callTraces := c.callTraces.patch
      (fun r =>
        match outcomes.find? fun o => o.touched && (p, o.trace.traceId) = r.key with
        | none => r
        | some o => o.updateTrace now r)
      fun r => by split <;> rfl }

end Catalog

/-! ## The batch -/

/-- What a batch did. -/
structure Counts where
  stored : ℕ
  duplicates : ℕ
  conflicts : ℕ
  disagreements : ℕ
  dropped : ℕ
  parked : ℕ
  targets : List CallTarget

/-- The evidence of the targets that received spans. -/
def targetEvidence (targets : List CallTarget) : List (String × Evidence) :=
  (targets.filter (·.newSpans ≠ 0)).map fun u =>
    (u.callId, { spans := u.newSpans, recordings := 0, endMarker := u.endMarker,
                 tailSpans := u.tailSpans })

/-- `_record` -/
def record (S : CallStore) (c : Catalog) (p : ProjectId) (prepared : List Prepared)
    (preset : CapturePreset) (now : UnixNano) : Option (Catalog × Counts) := do
  let gone := goneTraces S c p prepared now
  let targets := keptTargets S c p prepared now
  let kept := keptTraces S c p prepared now
  let c₁ := (c.dropTraces p gone).insertTraces p kept now
  let c₂ ← c₁.insertCalls p targets preset none
  let c₃ := c₂.insertResources p kept
  let outcomes := kept.map (storeTrace S c₃ p)
  let c₄ ← c₃.insertSpans (outcomes.flatMap fun o => o.fresh.map (spanRow p now))
  let credited := targets.map fun target => outcomes.foldl Outcome.credit target
  return ((c₄.updateTraces p outcomes now).addEvidence S p (targetEvidence credited) now,
    { stored := (outcomes.map (·.fresh.length)).sum
      duplicates := (outcomes.map (·.duplicates)).sum
      conflicts := (outcomes.map (·.conflicts)).sum
      disagreements := (outcomes.map (·.disagreements)).sum
      dropped := (gone.map fun tr =>
        tr.spans.length + if tr.row.isSome then (c.spansOf (p, tr.traceId)).length else 0).sum
      parked := ((outcomes.filter (·.trace.target.isNone)).map (·.fresh.length)).sum
      targets := credited })

/-- What one `record_spans` call did, for its caller. -/
structure SpanBatchResult where
  storedSpans : ℕ
  duplicateSpans : ℕ
  spanConflicts : ℕ
  keyDisagreements : ℕ
  purgedCallEvidenceDropped : ℕ
  parkedSpans : ℕ
  /-- Calls that received new evidence, sorted. -/
  callIds : List String
  deriving DecidableEq

/-- `_batch_result` -/
def batchResult (counts : Counts) : SpanBatchResult where
  storedSpans := counts.stored
  duplicateSpans := counts.duplicates
  spanConflicts := counts.conflicts
  keyDisagreements := counts.disagreements
  purgedCallEvidenceDropped := counts.dropped
  parkedSpans := counts.parked
  callIds := ((counts.targets.filter (·.newSpans ≠ 0)).map (·.callId)).insertionSort (· ≤ ·)

/-- `record_spans`: one batch in one transaction, with its counters. -/
def recordSpans (S : CallStore) (c : Catalog) (p : ProjectId) (prepared : List Prepared)
    (rejectedSpans : ℕ) (now : UnixNano) : Option (Catalog × SpanBatchResult) := do
  let preset ← c.readPreset p
  let (c', counts) ← record S c p prepared preset now
  return ((((c'.bumpCounter p .rejectedSpans rejectedSpans).bumpCounter p .spanConflicts
    counts.conflicts).bumpCounter p .keyDisagreements counts.disagreements).bumpCounter p
      .purgedCallEvidenceDropped counts.dropped, batchResult counts)

end Earshot
