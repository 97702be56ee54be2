import Earshot.Live.Session
/-!
# Uploaded frames

`acceptFrames` takes a run of whole frames that continues the session of a
project's session id, repeats what it holds, or begins another journal. What
may refuse it is decided first (`plan`); then frames, checksums and events
are recorded in one pass (`feed`), which may still raise.
-/

namespace Earshot

namespace Live

open Checkpoint
open Relational

variable {α κ π : Type} [DecidableEq κ] (R : Governance α κ π) (config : LiveConfig)

structure Registry (κ π : Type) where
  sessions : Table (LiveSession.key (κ := κ) (π := π))
  /-- What each subscriber was offered, in order. Nothing reads it. -/
  offered : List (ℕ × LiveEvent)

namespace Registry

/-- A registry that has just started. -/
def empty : Registry κ π := ⟨Table.empty, []⟩

variable (r : Registry κ π)

/-- `_enforce_quota` refuses. -/
def quotaFull (projectId : String) : Bool :=
  config.maxSessions ≤ r.sessions.rows.length ||
    config.maxSessionsPerProject ≤
      (r.sessions.rows.filter fun session => session.projectId = projectId).length

def resetEvent (previous journalId : String) : LiveEvent :=
  ⟨.reset, previous, 0, journalId⟩

/-- `_reset_session` -/
def resetSession (session : LiveSession κ π) (journalId : String) : Registry κ π :=
  { sessions := r.sessions.delete fun other => decide (other.key = session.key)
    offered := r.offered ++
      session.subscribers.flatMap fun subscriber =>
        [(subscriber, resetEvent session.journalId journalId),
          (subscriber, ⟨.ended, session.journalId, 0, "session_superseded"⟩)] }

/-- The registry without the session a journal replaces. -/
def without (replaced : Option (LiveSession κ π)) (header : JournalOpen α) : Registry κ π :=
  match replaced with
  | some session => r.resetSession session header.journalId
  | none => r

/-- The session `_register` makes. -/
def newSession (now : ℕ) (sessionId projectId : String) (source : Source)
    (header : JournalOpen α) (retainFrames : Bool) : LiveSession κ π :=
  let gate : ExportGate κ π := .new R header
  { sessionId := sessionId
    projectId := projectId
    source := source
    journalId := header.journalId
    openEvent := ⟨.opened, header.journalId, 1, R.openPayload header source gate⟩
    exportGate := gate
    events := []
    retainedBytes := 0
    lastSequence := 0
    observedThroughSequence := 0
    closeObserved := false
    journalComplete := true
    lastAppendUnixNano := now
    subscribers := []
    frames := if retainFrames then some [] else none
    framesComplete := retainFrames
    frameChecksums := []
    published := []
    recorded := [] }

/-- `_deliver`: the session as it is then, and what its subscribers are
offered. -/
def deliver (session : LiveSession κ π) (events : List LiveEvent) : Registry κ π :=
  { sessions := r.sessions.put (events.foldl (LiveSession.append config) session)
    offered := r.offered ++
      session.subscribers.flatMap fun subscriber => events.map fun event => (subscriber, event) }

end Registry

/-! ## What may refuse a batch -/

inductive AcceptError where
  | sourceConflict
  | framesInvalid
  | sequence (expectedSequence : ℕ)
  | diverged (sequence : ℕ)
  | finalized
  | capacity
  /-- The `ValueError` of `json.dumps`. -/
  | unrenderable
  deriving DecidableEq

/-- A frame that was decoded, and its own bytes. -/
structure Decoded (α : Type) where
  sequence : ℕ
  entry : Checkpoint.JournalEntry α
  frame : Bytes

/-- `int.from_bytes(frame[-CHECKSUM_SIZE:], "big")` -/
def Decoded.checksum (decoded : Decoded α) : ℕ :=
  fromBigEndian (decoded.frame.drop (decoded.frame.length - CHECKSUM_SIZE))

/-- `_frame_end` of what is left of a payload. -/
def frameEnd (payload : Bytes) : ℕ :=
  HEADER_SIZE + fromBigEndian ((payload.drop 5).take 4) + CHECKSUM_SIZE

/-- Every frame is decoded, or none. -/
def decodeFrames : List Frame → Bytes → Option (List (Decoded α))
  | [], _ => some []
  | frame :: frames, payload =>
      match R.decodeEntry frame.body with
      | none => none
      | some entry =>
          (decodeFrames frames (payload.drop (frameEnd payload))).map fun decoded =>
            ⟨frame.sequence, entry, payload.take (frameEnd payload)⟩ :: decoded

/-- `_assert_continues` -/
def assertContinues (session : Option (LiveSession κ π)) :
    Bool → List (Decoded α) → Except AcceptError Unit
  | _, [] => .ok ()
  | closed, decoded :: rest =>
      if decoded.entry.isOpened && decoded.sequence ≠ 1 then .error .framesInvalid
      else
        match session.filter fun session => decoded.sequence ≤ session.lastSequence with
        | some session =>
            match session.checksum decoded.sequence with
            | none => .error (.diverged decoded.sequence)
            | some recorded =>
                if recorded ≠ decoded.checksum then .error (.diverged decoded.sequence)
                else assertContinues (some session) closed rest
        | none =>
            if closed then .error .finalized
            else assertContinues session decoded.entry.isFinalize rest

/-- `_preflight_live_entry` -/
def preflightLiveEntry (entry : Checkpoint.JournalEntry α) (policy : π) (allowOpen : Bool) :
    Option (List κ) :=
  if entry.isOpened && !allowOpen then none
  else if !R.validateNonrecord entry then none
  else
    match entry with
    | .record value => R.classifyRecord value policy
    | _ => some []

/-- The frames that are new, each with the classes it was found to hold. -/
def preflight (session : Option (LiveSession κ π)) (policy : π) :
    List (Decoded α) → Option (List (Decoded α × List κ))
  | [] => some []
  | decoded :: rest =>
      if (session.any fun session => decoded.sequence ≤ session.lastSequence) = true then
        preflight session policy rest
      else
        match preflightLiveEntry R decoded.entry policy
            (session.isNone && decoded.sequence = 1) with
        | none => none
        | some classes => (preflight session policy rest).map ((decoded, classes) :: ·)

/-- What is to be recorded: the session it goes to, the session it replaces,
the header of a batch that begins a journal, and the frames that are new. -/
structure Plan (α κ π : Type) where
  session : Option (LiveSession κ π)
  replaced : Option (LiveSession κ π)
  header : Option (JournalOpen α)
  decoded : List (Decoded α)
  fresh : List (Decoded α × List κ)

structure Upload where
  projectId : String
  sessionId : String
  payload : Bytes
  now : ℕ

def Upload.key (upload : Upload) : String × String := (upload.projectId, upload.sessionId)

def Upload.firstSequence (upload : Upload) : ℕ := fromBigEndian ((upload.payload.drop 1).take 4)

/-- The header of a batch that begins a journal. -/
def openingHeader (upload : Upload) (decoded : List (Decoded α)) :
    Except AcceptError (Option (JournalOpen α)) :=
  if upload.firstSequence = 1 then
    match decoded with
    | ⟨_, .opened header, _⟩ :: _ =>
        if header.journalFormatVersion ≠ JOURNAL_FORMAT_VERSION then .error .framesInvalid
        else if header.sessionId ≠ upload.sessionId then .error .framesInvalid
        else .ok (some header)
    | _ => .error .framesInvalid
  else .ok none

/-- The policy a batch is checked under. -/
def batchPolicy (session : Option (LiveSession κ π)) (header : Option (JournalOpen α)) : π :=
  match session.bind fun session => session.exportGate.policy with
  | some policy => policy
  | none => (header.bind R.capturePolicy).getD R.metadataOnly

/-- A batch that does not begin a journal and skips a sequence. -/
def skips (held : Option (LiveSession κ π)) (upload : Upload) : Option AcceptError :=
  if upload.firstSequence = 1 then none
  else
    match held with
    | none => some (.sequence 1)
    | some session =>
        if session.lastSequence + 1 < upload.firstSequence then
          some (.sequence (session.lastSequence + 1))
        else none

/-- The session another journal's header replaces. -/
def replacedBy (held : Option (LiveSession κ π)) (header : Option (JournalOpen α)) :
    Option (LiveSession κ π) :=
  held.filter fun session => header.any fun header => decide (session.journalId ≠ header.journalId)

/-- The checks on what was decoded. -/
def planDecoded (held : Option (LiveSession κ π)) (upload : Upload) (decoded : List (Decoded α)) :
    Except AcceptError (Plan α κ π) :=
  match openingHeader upload decoded with
  | .error e => .error e
  | .ok header =>
      let replaced := replacedBy held header
      let session := if replaced.isSome then none else held
      match assertContinues session (session.any fun session => session.closeObserved) decoded with
      | .error e => .error e
      | .ok () =>
          match preflight R session (batchPolicy R session header) decoded with
          | none => .error .framesInvalid
          | some fresh => .ok ⟨session, replaced, header, decoded, fresh⟩

/-- The first half of `accept_frames`, which records nothing. -/
def plan (r : Registry κ π) (upload : Upload) : Except AcceptError (Plan α κ π) :=
  let held := r.sessions.find? upload.key
  if (held.any fun session => session.source = .capture) = true then .error .sourceConflict
  else if upload.payload.length < HEADER_SIZE then .error .framesInvalid
  else
    match skips held upload with
    | some e => .error e
    | none =>
        let scan := scanFrames config.maxFrameBytes upload.firstSequence upload.payload
        if scan.tornTailBytes ≠ 0 ∨ scan.frames = [] then .error .framesInvalid
        else if config.maxJournalRecords < scan.lastSequence then .error .framesInvalid
        else
          match decodeFrames R scan.frames upload.payload with
          | none => .error .framesInvalid
          | some decoded => planDecoded R held upload decoded

/-! ## What is recorded -/

/-- The session a frame is retained in. -/
def LiveSession.keepFrame (session : LiveSession κ π) (decoded : Decoded α) : LiveSession κ π :=
  (session.retainFrame config decoded.frame).rememberChecksum decoded.sequence
    (decoded.frame.drop (decoded.frame.length - CHECKSUM_SIZE))

/-- The gate and the event of one entry. -/
def eventOf (gate : ExportGate κ π) (journalId : String) (decoded : Decoded α)
    (classes : List κ) : ExportGate κ π × Option LiveEvent :=
  governedEntryEvent R gate journalId decoded.entry decoded.sequence (some classes)

/-- The entry is absorbed once its event is made. -/
def feedEvent (session : LiveSession κ π) (entry : Checkpoint.JournalEntry α) :
    Option LiveEvent → LiveSession κ π × Option (Option LiveEvent)
  | none => (session, some none)
  | some event => (session.absorb entry, some (some event))

/-- What one new frame leaves of a session, and its event: none for a header,
`some none` where it raises. -/
def feedFrame (session : LiveSession κ π) (decoded : Decoded α) (classes : List κ) :
    LiveSession κ π × Option (Option LiveEvent) :=
  let session := session.keepFrame config decoded
  if 1 < decoded.sequence then
    let made := eventOf R session.exportGate session.journalId decoded classes
    feedEvent { session with exportGate := made.1 } decoded.entry made.2
  else (session, none)

/-- The loop of `accept_frames`: the session it leaves, and the events to
deliver, unless it raises. -/
def feed (session : LiveSession κ π) :
    List (Decoded α × List κ) → LiveSession κ π × Option (List LiveEvent)
  | [] => (session, some [])
  | (decoded, classes) :: rest =>
      match feedFrame R config session decoded classes with
      | (session, some none) => (session, none)
      | (session, some (some event)) =>
          ((feed session rest).1, (feed session rest).2.map (event :: ·))
      | (session, none) => feed session rest

theorem feed_cons (session : LiveSession κ π) (decoded : Decoded α) (classes : List κ)
    (rest : List (Decoded α × List κ)) :
    feed R config session ((decoded, classes) :: rest) =
      match feedFrame R config session decoded classes with
      | (session, some none) => (session, none)
      | (session, some (some event)) =>
          ((feed R config session rest).1, (feed R config session rest).2.map (event :: ·))
      | (session, none) => feed R config session rest := rfl

/-- The frames are part of the session's history once their events are. -/
def LiveSession.record (session : LiveSession κ π) (fresh : List (Decoded α × List κ)) :
    LiveSession κ π :=
  { session with recorded := session.recorded ++ fresh.map fun item => item.1.frame }

/-- The loop, and the delivery of what it made. -/
def commit (r : Registry κ π) (now : ℕ) (session : LiveSession κ π)
    (fresh : List (Decoded α × List κ)) : Except AcceptError (List LiveEvent) × Registry κ π :=
  match feed R config session fresh with
  | (session, none) => (.error .unrenderable, { r with sessions := r.sessions.put session })
  | (session, some []) =>
      (.ok [], { r with sessions := r.sessions.put (session.record fresh) })
  | (session, some events) =>
      (.ok events, r.deliver config
        ({ session with lastAppendUnixNano := now }.record fresh) events)

/-- `accept_frames`: what it raises, or the events it published. -/
def acceptFrames (r : Registry κ π) (upload : Upload) :
    Except AcceptError (List LiveEvent) × Registry κ π :=
  match plan R config r upload with
  | .error e => (.error e, r)
  | .ok plan =>
      match plan.session, plan.header with
      | some session, _ => commit R config r upload.now session plan.fresh
      | none, none => (.error .framesInvalid, r)
      | none, some header =>
          let r := r.without plan.replaced header
          if r.quotaFull config upload.projectId = true then (.error .capacity, r)
          else
            let session := Registry.newSession R upload.now upload.sessionId upload.projectId
              .checkpoint header true
            commit R config (r.deliver config session [session.openEvent]) upload.now
              (session.append config session.openEvent) plan.fresh

end Live

end Earshot
