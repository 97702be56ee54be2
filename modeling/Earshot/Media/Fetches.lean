import Earshot.Calls.Closer
import Earshot.Calls.System
import Earshot.Jobs.Fenced
/-!
# Fetching provider recordings

A delivery that holds a provider recording inserts the recording, pending,
and its fetch. A fetch streams the bytes into the recordings' own upload;
what ends a fetch without the recording fails the recording in the same
transaction, and every terminal state erases the URL. Finishing the upload
and completing the fetch are two transactions, and clients may upload the
same recording.

The request, its response and the blob are outside the model; so are the
connector's provider and key, which only the request reads.
-/

namespace Earshot

open Relational

inductive FetchSource where
  | payloadUrl
  | providerApi
  deriving DecidableEq

/-- The terminal states a fetch names itself. -/
inductive FetchEnd where
  | stored
  | expired
  deriving DecidableEq

/-- The columns of `recording_fetches` beside the job's. -/
structure FetchColumns where
  endpointId : String
  sourceKind : FetchSource
  providerCallId : String
  track : String
  url : Option String
  urlExpiresUnixNano : Option UnixNano
  deriving DecidableEq

/-- `columns={"url": None}` -/
def FetchColumns.eraseUrl (columns : FetchColumns) : FetchColumns := { columns with url := none }

/-- A leased fetch and what it needs. -/
structure FetchClaim where
  lease : JobLease (ProjectId × String)
  sourceKind : FetchSource
  providerCallId : String
  track : String
  url : Option String
  urlExpiresUnixNano : Option UnixNano
  contentType : String
  deriving DecidableEq

/-- How a failed attempt ends: tried again, or not. -/
inductive FetchFailure where
  | retry
  | failed
  | expired
  deriving DecidableEq

/-- A provider recording of a delivery. -/
structure ProviderRecording where
  recordingId : String
  provider : String
  providerCallId : String
  track : String
  speaker : Speaker
  contentType : String
  startedAtUnixNano : String
  sourceKind : FetchSource
  url : Option String
  urlExpiresUnixNano : Option UnixNano

def FETCH_JOBS : LeasedJobs := ⟨[60, 240, 960]⟩

def FETCH_URL_EXPIRED : String := "EARSHOT_FETCH_URL_EXPIRED"

def FETCH_RECORDING_FAILED : String := "EARSHOT_FETCH_RECORDING_FAILED"

abbrev Fetches := JobWorld (ProjectId × String) FetchEnd FetchColumns

abbrev FetchJob := Job (ProjectId × String) FetchEnd FetchColumns

namespace Catalog

/-- `_fail_recording`: only a pending recording is failed. -/
def failFetched (c : Catalog) (k : ProjectId × String) : Catalog :=
  { c with
    recordings := c.recordings.patch
      (fun r => if r.key = k ∧ r.state = .pending then { r with state := .failed } else r)
      fun r => by split <;> rfl }

/-- The row `_hold_recordings` inserts. -/
def heldRecording (p : ProjectId) (callId : String) (recording : ProviderRecording)
    (now : UnixNano) : RecordingRow where
  projectId := p
  recordingId := recording.recordingId
  callId := callId
  speaker := recording.speaker
  contentType := recording.contentType
  label := some (recording.provider ++ ":" ++ recording.track)
  startedAtUnixNano := recording.startedAtUnixNano
  state := .pending
  blobKey := none
  size := none
  sha256 := none
  durationMs := none
  createdUnixNano := now
  storedUnixNano := none
  channelSpeakers := none
  firstRevision := none

end Catalog

/-- The catalog, its fetches, the claims fetches were given, and those whose
upload stored the recording. -/
structure FetchWorld where
  world : World
  fetches : Fetches
  claims : List FetchClaim
  uploaded : List FetchClaim

inductive FetchOp where
  /-- Any operation of the catalog but the sweep. -/
  | catalog (op : Op)
  | sweep (uploading : List (ProjectId × String)) (now : UnixNano)
  | holdRecording (p : ProjectId) (callId endpointId : String) (recording : ProviderRecording)
      (now : UnixNano)
  | refreshUrl (k : ProjectId × String) (url : String) (expires : Option UnixNano)
      (now : UnixNano)
  /-- A fetch's connector goes, and its fetch with it. -/
  | dropFetch (k : ProjectId × String)
  | claim (leaseNano : ℤ) (token : ℕ) (now : UnixNano)
  /-- The fetch's own upload is finished. -/
  | upload (claim : FetchClaim) (upload : Catalog.Upload) (now : UnixNano)
  | completeStored (claim : FetchClaim) (now : UnixNano)
  | settle (claim : FetchClaim) (now : UnixNano)
  | fail (claim : FetchClaim) (code : String) (how : FetchFailure) (now : UnixNano)
  | releaseLeases (now : UnixNano)

namespace FetchWorld

def recordings (w : FetchWorld) : Table RecordingRow.key := w.world.catalog.recordings

/-- The recordings a live fetch owns. -/
def fetching (w : FetchWorld) : List (ProjectId × String) :=
  (w.fetches.jobs.rows.filter fun f => f.state = .pending ∨ f.state = .running).map (·.key)

/-- A job operation of the fetches, or nothing when it commits nothing. -/
def next (fetches : Fetches) (op : JobOp (ProjectId × String) FetchEnd FetchColumns) : Fetches :=
  Transition.next (JobWorld.step FETCH_JOBS) fetches op

/-- `ON DELETE CASCADE`: a fetch goes with its recording. -/
def cascade (c : Catalog) (fetches : Fetches) : Fetches :=
  ((fetches.jobs.rows.map (·.key)).filter fun k => (c.recordings.find? k).isNone).foldl
    (fun fetches k => next fetches (.remove k)) fetches

/-- An operation of the catalog, with what it deletes. -/
def commit (w : FetchWorld) (world : World) : FetchWorld :=
  { w with world := world, fetches := cascade world.catalog w.fetches }

/-- `_end`: end the fetch with `code`, and fail its recording. -/
def endFetch (w : FetchWorld) (lease : JobLease (ProjectId × String)) (now : UnixNano)
    (how : JobEnd FetchEnd) (code : String) : FetchWorld :=
  match JobWorld.step FETCH_JOBS w.fetches
      (.complete lease now how (some code) FetchColumns.eraseUrl) with
  | none => w
  | some fetches =>
      { w with
        fetches := fetches
        world := { w.world with catalog := w.world.catalog.failFetched lease.key } }

/-- The fetch's recording is stored. -/
def endStored (w : FetchWorld) (lease : JobLease (ProjectId × String)) (now : UnixNano) :
    FetchWorld :=
  { w with
    fetches := next w.fetches (.complete lease now (.named .stored) none FetchColumns.eraseUrl) }

/-- `_settle`: end a fetch whose recording is no longer pending, as its
recording ended. -/
def settleAs (w : FetchWorld) (lease : JobLease (ProjectId × String)) (now : UnixNano) :
    Option RecordingState → FetchWorld
  | some .stored => w.endStored lease now
  | some .failed => w.endFetch lease now .failed FETCH_RECORDING_FAILED
  | _ => w

/-- `FetchStore.claim`: a fetch with nothing left to do is ended at once. -/
def claimFetch (w : FetchWorld) (leaseNano : ℤ) (token : ℕ) (now : UnixNano) :
    Option FetchWorld :=
  match w.fetches.claim now (fun _ => leaseNano) token with
  | none => none
  | some (fetches, lease) =>
      match fetches.jobs.find? lease.key, w.recordings.find? lease.key with
      | some f, some r =>
          let w := { w with fetches := fetches }
          if r.state ≠ .pending then some (w.settleAs lease now (some r.state))
          else if f.columns.sourceKind = .payloadUrl ∧
              f.columns.urlExpiresUnixNano.any (· ≤ now) = true then
            some (w.endFetch lease now (.named .expired) FETCH_URL_EXPIRED)
          else
            some { w with
              claims :=
                { lease := lease
                  sourceKind := f.columns.sourceKind
                  providerCallId := f.columns.providerCallId
                  track := f.columns.track
                  url := f.columns.url
                  urlExpiresUnixNano := f.columns.urlExpiresUnixNano
                  contentType := r.contentType } :: w.claims }
      | _, _ => none

/-- When a retried fetch would start, `none` past the last delay. -/
def retryAt (claim : FetchClaim) (now : UnixNano) : Option UnixNano :=
  (JobTable.afterFailure FETCH_JOBS (claim.lease.attempts + 1) now :
    JobState FetchEnd × Option UnixNano).2

/-- The URL expires before a retry could start. -/
def expiresFirst (claim : FetchClaim) (now : UnixNano) : Bool :=
  claim.sourceKind = .payloadUrl && (retryAt claim now).any fun start =>
    claim.urlExpiresUnixNano.any (· ≤ start)

/-- `FetchStore.fail`, tried again: expired if the URL expires first, and
failed past the last delay. -/
def retryFetch (w : FetchWorld) (claim : FetchClaim) (code : String) (now : UnixNano) :
    FetchWorld :=
  if expiresFirst claim now then
    w.endFetch claim.lease now (.named .expired) FETCH_URL_EXPIRED
  else
    match JobWorld.step FETCH_JOBS w.fetches
        (.retry claim.lease now code FetchColumns.eraseUrl) with
    | none => w
    | some fetches =>
        if retryAt claim now = none then
          { w with
            fetches := fetches
            world := { w.world with catalog := w.world.catalog.failFetched claim.lease.key } }
        else { w with fetches := fetches }

/-- `_refresh_url`: only a live fetch's payload URL is renewed. -/
def refresh (f : FetchJob) (url : String) (expires : Option UnixNano) (now : UnixNano) : FetchJob :=
  if f.columns.sourceKind = .payloadUrl ∧ (f.state = .pending ∨ f.state = .running) ∧
      f.columns.url ≠ some url then
    { f with
      columns := { f.columns with url := some url, urlExpiresUnixNano := expires }
      updatedUnixNano := now }
  else f

theorem refresh_key (f : FetchJob) (url : String) (expires : Option UnixNano) (now : UnixNano) :
    (refresh f url expires now).key = f.key := by
  unfold refresh
  split <;> rfl

/-- One transaction. -/
def step (S : CallStore) (w : FetchWorld) : FetchOp → Option FetchWorld
  | .catalog (.failStaleUploads _ _ _) => none
  | .catalog op => (Earshot.step S w.world op).map w.commit
  | .sweep uploading now =>
      (Earshot.step S w.world (.failStaleUploads uploading w.fetching now)).map w.commit
  | .holdRecording p callId endpointId recording now =>
      if (w.recordings.find? (p, recording.recordingId)).isSome then none
      else if (w.world.catalog.calls.find? (p, callId)).isNone then none
      else if MAX_REVISION_RECORDINGS ≤ w.world.catalog.recordingsHeld (p, callId) then none
      else
        some { w with
          world := { w.world with
            catalog := { w.world.catalog with
              recordings := w.recordings.insert
                (Catalog.heldRecording p callId recording now) } }
          fetches := next w.fetches (.add (p, recording.recordingId)
            ⟨endpointId, recording.sourceKind, recording.providerCallId, recording.track,
              recording.url, recording.urlExpiresUnixNano⟩ now) }
  | .refreshUrl k url expires now =>
      some { w with
        fetches := ⟨w.fetches.jobs.write k (refresh · url expires now)
          (refresh_key · url expires now), w.fetches.log⟩ }
  | .dropFetch k => some { w with fetches := next w.fetches (.remove k) }
  | .claim leaseNano token now => w.claimFetch leaseNano token now
  | .upload claim upload now =>
      if claim ∈ w.claims then
        (Earshot.step S w.world (.finishUpload claim.lease.key.1 claim.lease.key.2 upload
          now)).map fun world => { w.commit world with uploaded := claim :: w.uploaded }
      else none
  | .completeStored claim now =>
      if claim ∈ w.uploaded then some (w.endStored claim.lease now) else none
  | .settle claim now =>
      if claim ∈ w.claims then
        some (w.settleAs claim.lease now ((w.recordings.find? claim.lease.key).map (·.state)))
      else none
  | .fail claim code how now =>
      if claim ∈ w.claims then
        match how with
        | .retry => some (w.retryFetch claim code now)
        | .failed => some (w.endFetch claim.lease now .failed code)
        | .expired => some (w.endFetch claim.lease now (.named .expired) code)
      else none
  | .releaseLeases now => some { w with fetches := next w.fetches (.release now) }

/-- An operation of the catalog is one of the calls' world, but no sweep. -/
theorem step_catalog_eq_some {S : CallStore} {w w' : FetchWorld} {op : Op}
    (h : step S w (.catalog op) = some w') :
    (∀ uploading fetching now, op ≠ .failStaleUploads uploading fetching now) ∧
      ∃ world, Earshot.step S w.world op = some world ∧ w.commit world = w' := by
  cases op with
  | failStaleUploads => cases h
  | _ => exact ⟨by simp, Option.map_eq_some_iff.mp h⟩

/-- The world after a run, from nothing. -/
def after (S : CallStore) (ops : List FetchOp) : FetchWorld :=
  Transition.run (step S) ⟨.init, ⟨.empty, []⟩, [], []⟩ ops

end FetchWorld

end Earshot
