import Earshot.Common.Run
import Earshot.Calls.Parked
import Earshot.Calls.Purge
/-!
# The system

One catalog, the claims its closers hold, and what happened so far. An
operation is one transaction under the store's write lock; it commits or
leaves nothing. Every operation takes its own clock reading, so a lease
expires, a hold passes and clocks disagree by the choice of readings; a
closer may finish or fail any claim it was ever given, at any time, and
any number of closers is any number of claims.

`settled`, `purged`, `flagged` and `readings` record the past and decide
nothing.
-/

namespace Earshot

open Relational

/-! ## Projects -/

/-- The built-in project, which cannot be deleted. -/
def DEFAULT_PROJECT_ID : String := "default"

namespace Catalog

/-- `provision_project`: creates a project, or leaves the one there is. -/
def provisionProject (c : Catalog) (p : ProjectId) (preset : CapturePreset) : Catalog :=
  { c with projects := c.projects.insert ⟨p, preset, true⟩ }

/-- `UPDATE projects … WHERE project_id = ?` -/
def updateProject (c : Catalog) (p : ProjectId) (f : Project → Project)
    (hf : ∀ r, (f r).projectId = r.projectId) : Catalog :=
  { c with
    projects := c.projects.patch (fun r => if r.projectId = p then f r else r) fun r => by
      split
      · exact hf r
      · rfl }

/-- `set_capture_preset` -/
def setCapturePreset (c : Catalog) (p : ProjectId) (preset : CapturePreset) : Option Catalog :=
  (c.readPreset p).map fun _ => c.updateProject p ({ · with capturePreset := preset }) fun _ => rfl

/-- `begin_project_deletion`: the project takes no more writes. -/
def beginProjectDeletion (c : Catalog) (p : ProjectId) : Option Catalog :=
  if p.value = DEFAULT_PROJECT_ID then none
  else (c.projects.find? p).map fun _ =>
    c.updateProject p ({ · with active := false }) fun _ => rfl

end Catalog

/-! ## Operations -/

inductive Op where
  | provisionProject (p : ProjectId) (preset : CapturePreset)
  | setCapturePreset (p : ProjectId) (preset : CapturePreset)
  | beginProjectDeletion (p : ProjectId)
  | recordSpans (p : ProjectId) (prepared : List Prepared) (rejectedSpans : ℕ) (now : UnixNano)
  | createRecording (p : ProjectId) (manifest : RecordingManifest) (now : UnixNano)
  | finishUpload (p : ProjectId) (recordingId : String) (upload : Catalog.Upload) (now : UnixNano)
  | failStaleUploads (uploading fetching : List (ProjectId × String)) (now : UnixNano)
  | collectParkedTraces (limit : ℕ) (clock : ProjectId × TraceId → UnixNano) (now : UnixNano)
  | claim (uploading : List CallKey) (now : UnixNano)
  | finish (claim : CallClaim) (now : UnixNano)
  | fail (claim : CallClaim) (code : String) (now : UnixNano)
  | releaseLeases
  | purgeCall (k : CallKey) (now : UnixNano)
  | collectExpiredTombstones (limit : ℕ) (now : UnixNano)

/-- What a claim committed. -/
inductive Settlement where
  | revision
  | closedWithoutRevision
  | failed
  deriving DecidableEq, Repr

/-- One call from its creation to its purge: its key, and how many calls of
that key were purged before it. -/
abbrev Incarnation := CallKey × ℕ

structure World where
  catalog : Catalog
  /-- The claims closers were given, latest first. -/
  claims : List CallClaim
  /-- The claims that committed an outcome, latest first. -/
  settled : List (CallClaim × Settlement)
  /-- The calls purged, as they last were, latest first. -/
  purged : List Call
  /-- The calls seen flagged after some operation. -/
  flagged : List Incarnation
  /-- The clock's readings. -/
  readings : List UnixNano

namespace World

/-- Nothing happened yet. -/
def init : World := ⟨.empty, [], [], [], [], []⟩

/-- The call of the key, as its incarnation. -/
def incarnation (w : World) (k : CallKey) : Incarnation :=
  (k, w.purged.countP (·.key = k))

/-- The calls flagged now and not seen flagged before. -/
def newlyFlagged (w : World) : List Incarnation :=
  ((w.catalog.calls.rows.filter (·.evidenceAfterLatestRevision)).map fun r =>
    w.incarnation r.key).filter fun i => !w.flagged.contains i

/-- Look at the flags. -/
def observe (w : World) : World := { w with flagged := w.newlyFlagged ++ w.flagged }

/-- An operation committed `c`. -/
def commit (w : World) (c : Catalog) : World := { w with catalog := c }.observe

/-- The clock was read. -/
def tick (w : World) (now : UnixNano) : World := { w with readings := now :: w.readings }

end World

/-- **One transaction.** -/
def step (S : CallStore) (w : World) : Op → Option World
  | .provisionProject p preset => some (w.commit (w.catalog.provisionProject p preset))
  | .setCapturePreset p preset => (w.catalog.setCapturePreset p preset).map w.commit
  | .beginProjectDeletion p => (w.catalog.beginProjectDeletion p).map w.commit
  | .recordSpans p prepared rejectedSpans now =>
      (recordSpans S w.catalog p prepared rejectedSpans now).map fun out =>
        (w.tick now).commit out.1
  | .createRecording p manifest now =>
      (w.catalog.createRecording S p manifest now).map fun out => (w.tick now).commit out.1
  | .finishUpload p recordingId upload now =>
      (w.catalog.finishUpload S p recordingId upload now).map (w.tick now).commit
  | .failStaleUploads uploading fetching now =>
      some ((w.tick now).commit (w.catalog.failStaleUploads S now uploading fetching))
  | .collectParkedTraces limit clock now =>
      (w.catalog.collectParkedTraces S now limit clock).map (w.tick now).commit
  | .claim uploading now =>
      (w.catalog.claim S now uploading).map fun out =>
        { (w.tick now).commit out.1 with claims := out.2.toList ++ w.claims }
  | .finish claim now =>
      if claim ∈ w.claims then
        (w.catalog.finish claim now).map fun c =>
          { (w.tick now).commit c with
            settled := (claim, if claim.isEmpty then .closedWithoutRevision else .revision) ::
              w.settled }
      else none
  | .fail claim code now =>
      if claim ∈ w.claims then
        (w.catalog.fail S claim code now).map fun c =>
          { (w.tick now).commit c with settled := (claim, .failed) :: w.settled }
      else none
  | .releaseLeases => some (w.commit w.catalog.releaseLeases)
  | .purgeCall k now =>
      (w.catalog.purgeCall S k now).map fun c =>
        { (w.tick now) with purged := (w.catalog.calls.find? k).toList ++ w.purged }.commit c
  | .collectExpiredTombstones limit now =>
      some ((w.tick now).commit (w.catalog.collectExpiredTombstones now limit))

/-- The world after a run of operations, from nothing. -/
def worldAfter (S : CallStore) (ops : List Op) : World := Transition.run (step S) .init ops

/-- A run and one more operation that commits. -/
theorem worldAfter_concat {S : CallStore} {ops : List Op} {op : Op} {w : World}
    (h : step S (worldAfter S ops) op = some w) : worldAfter S (ops ++ [op]) = w := by
  rw [worldAfter, Transition.run_append]
  exact Transition.next_of_some h

/-- The operation deletes the call of the key. -/
def Op.purges (k : CallKey) : Op → Bool
  | .purgeCall k' _ => k' == k
  | _ => false

/-! ## A store to run -/

/-- A store whose fingerprints are what they stand for, and whose call IDs
keep all of it. -/
def plainStore : CallStore where
  timings := ⟨5, 60, 10, 300⟩
  fingerprint
    | .sessionCall, value => "call-session-v1:" ++ value
    | .sessionKey, value => "call-session-key-v1:" ++ value
    | .traceCall, value => "call-trace-v1:" ++ value
    | .traceKey, value => "call-trace-key-v1:" ++ value
  short := id

def demoProject : ProjectId := ⟨"demo", by decide⟩

/-- A span of trace `traceId` that may name a session key. -/
def demoSpan (traceId : TraceId) (spanId : SpanId) (scopeName name : String)
    (sessionKey : Option String) : Prepared where
  traceId := traceId
  spanId := spanId
  parentSpanId := none
  name := name
  scopeName := scopeName
  start := 0
  «end» := 1
  callEnded := false
  key := sessionKey.map fun value => ⟨value, .sessionId⟩
  payload := []
  digest := spanId.setWidth 256
  resourceDigest := 1
  resourcePayload := []
  textJson := none

/-- One batch of `spans` in a new project. -/
def demoRun (spans : List Prepared) : List Op :=
  [.provisionProject demoProject .full, .recordSpans demoProject spans 0 10]

end Earshot
