import Earshot.Calls.Record
/-!
# Recordings

A recording is created pending, under a session key whose call it creates
when no evidence had; an upload stores it, which is evidence of its call;
a pending one past its deadline is failed. Blobs, their journal and the
requests' validation are outside the model: a manifest here has passed it.
-/

namespace Earshot

open Relational

/-- A revision, and so a call, holds at most this many recordings. -/
def MAX_REVISION_RECORDINGS : ℕ := 16

/-- What a client declares when it creates a recording. -/
structure RecordingManifest where
  recordingId : String
  sessionKey : String
  speaker : Speaker
  contentType : String
  startedAtUnixNano : String
  label : Option String
  channelSpeakers : Option (List Speaker)
  deriving DecidableEq

/-- The recording is the one `manifest`, naming `callId`, creates. -/
def Recording.declares (r : Recording) (manifest : RecordingManifest) (callId : String) : Bool :=
  (r.callId, r.speaker, r.contentType, r.startedAtUnixNano, r.label, r.channelSpeakers) ==
    (callId, manifest.speaker, manifest.contentType, manifest.startedAtUnixNano, manifest.label,
      manifest.channelSpeakers)

/-- `max(created, last_evidence, end_signal or 0) + UPLOAD_HOLD_CAP` -/
def pendingDeadline (created lastEvidence : UnixNano) (endSignal : Option UnixNano)
    (holdNano : ℕ) : UnixNano :=
  max (max created lastEvidence) (endSignal.getD 0) + holdNano

/-- How a create request ended. -/
inductive CreateResult where
  | created (r : Recording)
  | existing (r : Recording)
  /-- `CallPurgedError`: a live tombstone covers the key. -/
  | callPurged

namespace Catalog

/-- The target a recording's session key names. -/
def recordingTarget (S : CallStore) (c : Catalog) (p : ProjectId) (sessionKey : String)
    (now : UnixNano) : CallTarget :=
  namedTarget S c p now ⟨sessionKey, .recording⟩

/-- `recording_call`: the call a recording's session key names, created if
needed; no call while a live tombstone covers the key. -/
def recordingCall (S : CallStore) (c : Catalog) (p : ProjectId) (sessionKey : String)
    (now : UnixNano) : Option (Catalog × Option String) :=
  if c.tombstoned p (S.keyFingerprint p sessionKey) now then some (c, none)
  else
    let target := c.recordingTarget S p sessionKey now
    (c.insertCalls p [target] .full (some (S.closeDue .open false now))).map
      fun c => (c, some target.callId)

/-- The row a create inserts. -/
def pendingRecording (p : ProjectId) (manifest : RecordingManifest) (callId : String)
    (now : UnixNano) : RecordingRow where
  projectId := p
  recordingId := manifest.recordingId
  callId := callId
  speaker := manifest.speaker
  contentType := manifest.contentType
  label := manifest.label
  startedAtUnixNano := manifest.startedAtUnixNano
  state := .pending
  blobKey := none
  size := none
  sha256 := none
  durationMs := none
  createdUnixNano := now
  storedUnixNano := none
  channelSpeakers := manifest.channelSpeakers
  firstRevision := none

/-- How many recordings a call holds, in any state. -/
def recordingsHeld (c : Catalog) (k : CallKey) : ℕ :=
  c.recordings.rows.countP (·.callKey = k)

/-- `RecordingStore.create` -/
def createRecording (S : CallStore) (c : Catalog) (p : ProjectId) (manifest : RecordingManifest)
    (now : UnixNano) : Option (Catalog × CreateResult) := do
  let preset ← c.readPreset p
  if preset ≠ .full then none
  else
    match c.recordings.find? (p, manifest.recordingId) with
    | some row =>
        let target := c.recordingTarget S p manifest.sessionKey now
        if row.state = .failed || !row.declares manifest target.callId then none
        else some (c, .existing row.toRecording)
    | none =>
        let (c, callId?) ← c.recordingCall S p manifest.sessionKey now
        match callId? with
        | none => some (c.bumpCounter p .purgedCallEvidenceDropped 1, .callPurged)
        | some callId =>
            if MAX_REVISION_RECORDINGS ≤ c.recordingsHeld (p, callId) then none
            else
              let row := pendingRecording p manifest callId now
              some ({ c with recordings := c.recordings.insert row }, .created row.toRecording)

/-- What an upload brings: the object's key, hash, size and duration. -/
structure Upload where
  blobKey : String
  sha256 : String
  size : ℕ
  durationMs : Option ℕ

/-- `UPDATE recordings SET state = 'stored' …`, for the row with the key. -/
def storeRecording (k : ProjectId × String) (upload : Upload) (now : UnixNano)
    (r : RecordingRow) : RecordingRow :=
  if r.key = k then
    { r with
      state := .stored
      blobKey := some upload.blobKey
      sha256 := some upload.sha256
      size := some upload.size
      durationMs := upload.durationMs
      storedUnixNano := some now }
  else r

theorem storeRecording_key (k : ProjectId × String) (upload : Upload) (now : UnixNano)
    (r : RecordingRow) : (storeRecording k upload now r).key = r.key := by
  unfold storeRecording
  split <;> rfl

/-- `finish_upload`: only a pending recording is stored; it is evidence of
its call in the same transaction. -/
def finishUpload (S : CallStore) (c : Catalog) (p : ProjectId) (recordingId : String)
    (upload : Upload) (now : UnixNano) : Option Catalog := do
  let _ ← c.readPreset p
  let row ← (c.recordings.find? (p, recordingId)).filter (·.state = .pending)
  let c : Catalog :=
    { c with
      recordings := c.recordings.patch (storeRecording row.key upload now)
        (storeRecording_key row.key upload now) }
  return c.addCallEvidence S row.callKey
    { spans := 0, recordings := 1, endMarker := false, tailSpans := 0 } now

/-- The sweep fails this pending recording at `now`. `uploading` are the
recordings with an upload in flight, `fetching` those a live fetch job
owns. -/
def uploadExpired (S : CallStore) (c : Catalog) (now : UnixNano)
    (uploading fetching : List (ProjectId × String)) (r : RecordingRow) : Bool :=
  match c.calls.find? r.callKey with
  | none => false
  | some call =>
      r.state == .pending && r.createdUnixNano < now - S.timings.uploadHoldNano &&
        !fetching.contains r.key && !uploading.contains r.key &&
        pendingDeadline r.createdUnixNano call.lastEvidenceUnixNano call.endSignalUnixNano
          S.timings.uploadHoldNano < now

/-- `UPDATE recordings SET state = 'failed'`, for the expired rows. -/
def failRecording (S : CallStore) (c : Catalog) (now : UnixNano)
    (uploading fetching : List (ProjectId × String)) (r : RecordingRow) : RecordingRow :=
  if c.uploadExpired S now uploading fetching r then { r with state := .failed } else r

theorem failRecording_key (S : CallStore) (c : Catalog) (now : UnixNano)
    (uploading fetching : List (ProjectId × String)) (r : RecordingRow) :
    (c.failRecording S now uploading fetching r).key = r.key := by
  unfold failRecording
  split <;> rfl

/-- `fail_stale_uploads` -/
def failStaleUploads (S : CallStore) (c : Catalog) (now : UnixNano)
    (uploading fetching : List (ProjectId × String)) : Catalog :=
  { c with
    recordings := c.recordings.patch (c.failRecording S now uploading fetching)
      (c.failRecording_key S now uploading fetching) }

end Catalog

end Earshot
