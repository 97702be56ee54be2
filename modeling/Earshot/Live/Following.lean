import Earshot.Live.Accepting
/-!
# Followed journals

A registry follows the journals of a directory, and takes uploads and capture
appends, under the same keys. A followed journal is read whole and published
in bounded batches; between two of them anything else may happen.

What is written where is a parameter (`Journals`): each origin is one writer's
journal, and two origins may give their journals one id.
-/

namespace Earshot

namespace Live

open Checkpoint
open Relational

variable {α κ π ι : Type} [DecidableEq κ] (R : Governance α κ π) (config : LiveConfig)

/-- What each writer's journal holds: a header, and entries that are none. -/
structure Journals (ι α : Type) where
  header : ι → JournalOpen α
  entries : ι → List (Checkpoint.JournalEntry α)
  plain : ∀ i, ∀ entry ∈ entries i, entry.isOpened = false

/-- A journal with its header. -/
def Journals.all (J : Journals ι α) (i : ι) : List (Checkpoint.JournalEntry α) :=
  .opened (J.header i) :: J.entries i

/-! ## A directory -/

/-- `_TrackedFile`: what was published of a file, and the session. -/
structure TrackedFile where
  lastSequence : ℕ
  sessionId : Option String
  deriving DecidableEq

/-- A file as it was read. -/
structure JournalFile (α : Type) where
  header : JournalOpen α
  entries : List (Checkpoint.JournalEntry α)

/-- `_JOURNAL_REPLAY_PUBLISH_BATCH_SIZE` -/
def REPLAY_BATCH_SIZE : ℕ := 256

/-- The loop of `_publish_replay_batch`: the session it leaves, and its
events, unless it raises. -/
def publishEach : LiveSession κ π → ℕ → List (Checkpoint.JournalEntry α) →
    LiveSession κ π × Option (List LiveEvent)
  | session, _, [] => (session, some [])
  | session, sequence, entry :: rest =>
      if session.closeObserved then (session, some [])
      else if R.escapes session.exportGate entry then (session, none)
      else
        match governedEntryEvent R session.exportGate session.journalId entry sequence none with
        | (gate, none) => ({ session with exportGate := gate }, none)
        | (gate, some event) =>
            let out := publishEach (LiveSession.absorb { session with exportGate := gate } entry)
              (sequence + 1) rest
            (out.1, out.2.map (event :: ·))

/-- What a batch leaves: the registry, what is tracked of the file, whether
more is to come, and whether it raised. -/
structure Published (κ π : Type) where
  registry : Registry κ π
  tracked : TrackedFile
  more : Bool
  raised : Bool

/-- The first sequence of a file that neither was published. -/
def resumeAfter (tracked : TrackedFile) (session : LiveSession κ π) : ℕ :=
  max 1 (max tracked.lastSequence session.lastSequence)

/-- The second half of `_publish_replay_batch`: a slice goes to the session
that follows the file. -/
def publishSlice (r : Registry κ π) (now : ℕ) (tracked : TrackedFile) (session : LiveSession κ π)
    (file : JournalFile α) : Published κ π :=
  let session := { session with
    observedThroughSequence := max session.observedThroughSequence (file.entries.length + 1) }
  let last := resumeAfter tracked session
  let tracked := { tracked with lastSequence := last }
  if file.entries.length ≤ last - 1 then
    ⟨{ r with sessions := r.sessions.put session }, tracked, false, false⟩
  else
    match publishEach R session (last + 1)
        ((file.entries.drop (last - 1)).take REPLAY_BATCH_SIZE) with
    | (session, none) => ⟨{ r with sessions := r.sessions.put session }, tracked, false, true⟩
    | (session, some []) =>
        ⟨{ r with sessions := r.sessions.put session }, tracked, false, false⟩
    | (session, some events) =>
        ⟨r.deliver config { session with lastAppendUnixNano := now } events,
          { tracked with lastSequence := last + events.length },
          !session.closeObserved && decide (last + events.length < file.entries.length + 1),
          false⟩

/-- The session a file's journal is not. -/
def supersededBy (held : Option (LiveSession κ π)) (header : JournalOpen α) :
    Option (LiveSession κ π) :=
  held.filter fun session => decide (session.journalId ≠ header.journalId)

/-- The session that begins to follow a file. -/
def followSession (projectId : String) (now : ℕ) (header : JournalOpen α) : LiveSession κ π :=
  Registry.newSession R now header.sessionId projectId .journal header false

/-- A session begins to follow a file, unless one that did is gone. -/
def publishNew (projectId : String) (r : Registry κ π) (now : ℕ) (tracked : TrackedFile)
    (file : JournalFile α) : Published κ π :=
  if 0 < tracked.lastSequence then ⟨r, tracked, false, false⟩
  else
    let session := followSession R projectId now file.header
    publishSlice R config (r.deliver config session [session.openEvent]) now
      ⟨1, some file.header.sessionId⟩ (session.append config session.openEvent) file

/-- `_publish_replay_batch` -/
def publishReplayBatch (projectId : String) (r : Registry κ π) (now : ℕ) (tracked : TrackedFile)
    (file : JournalFile α) (allowReplacement : Bool) : Published κ π :=
  let held := r.sessions.find? (projectId, file.header.sessionId)
  match supersededBy held file.header with
  | some session =>
      if !allowReplacement then ⟨r, tracked, false, false⟩
      else publishNew R config projectId (r.resetSession session file.header.journalId) now
        { tracked with lastSequence := 0 } file
  | none =>
      match held with
      | none => publishNew R config projectId r now tracked file
      | some session => publishSlice R config r now tracked session file

/-! ## Capture appends -/

/-- Entries a capture call appends. -/
structure Append (α : Type) where
  projectId : String
  sessionId : String
  entries : List (Checkpoint.JournalEntry α)
  now : ℕ

def Append.key (append : Append α) : String × String := (append.projectId, append.sessionId)

/-- The checks on each entry, and the classes it holds. -/
def preflightEntries (policy : π) : Bool → List (Checkpoint.JournalEntry α) →
    Option (List (Checkpoint.JournalEntry α × List κ))
  | _, [] => some []
  | allowOpen, entry :: rest =>
      match preflightLiveEntry R entry policy allowOpen with
      | none => none
      | some classes => (preflightEntries policy false rest).map ((entry, classes) :: ·)

/-- The frames of consecutive entries, where each is within its bounds. -/
def encodeEntries (encode : ℕ → Checkpoint.JournalEntry α → Option Bytes) :
    ℕ → List (Checkpoint.JournalEntry α × List κ) → Option (List (Decoded α × List κ))
  | _, [] => some []
  | sequence, (entry, classes) :: rest =>
      if config.maxJournalRecords < sequence then none
      else
        match encode sequence entry with
        | none => none
        | some frame => (encodeEntries encode (sequence + 1) rest).map
            ((⟨sequence, entry, frame⟩, classes) :: ·)

/-- The loop of `accept_records`, which appends as it goes. -/
def appendEach : LiveSession κ π → List (Decoded α × List κ) →
    LiveSession κ π × Option (List LiveEvent)
  | session, [] => (session, some [])
  | session, (decoded, classes) :: rest =>
      let sequence := session.lastSequence + 1
      let session := session.keepFrame config { decoded with sequence := sequence }
      match governedEntryEvent R session.exportGate session.journalId decoded.entry sequence
          (some classes) with
      | (gate, none) => ({ session with exportGate := gate }, none)
      | (gate, some event) =>
          let out := appendEach (LiveSession.absorb
            (({ session with exportGate := gate }).append config event) decoded.entry) rest
          (out.1, out.2.map (event :: ·))

/-- What `accept_records` appends, and what subscribers are offered of it. -/
def appendRecords (r : Registry κ π) (now : ℕ) (session : LiveSession κ π)
    (fresh : List (Decoded α × List κ)) : Registry κ π :=
  match appendEach R config session fresh with
  | (session, none) => { r with sessions := r.sessions.put session }
  | (session, some []) => { r with sessions := r.sessions.put session }
  | (session, some events) =>
      { sessions := r.sessions.put { session with lastAppendUnixNano := now }
        offered := r.offered ++
          session.subscribers.flatMap fun subscriber => events.map fun event =>
            (subscriber, event) }

/-- The header a batch of entries begins with. -/
def leadingHeader : List (Checkpoint.JournalEntry α) → Option (JournalOpen α)
  | .opened header :: _ => some header
  | _ => none

/-- The first append of a call. -/
def registerRecords (encode : ℕ → Checkpoint.JournalEntry α → Option Bytes) (r : Registry κ π)
    (append : Append α) (checked : List (Checkpoint.JournalEntry α × List κ)) :
    Registry κ π :=
  match leadingHeader append.entries with
  | none => r
  | some header =>
      if header.sessionId ≠ append.sessionId then r
      else
        match encode 1 (.opened header), encodeEntries config encode 2 checked.tail with
        | some frame, some fresh =>
            if r.quotaFull config append.projectId = true then r
            else
              let session := (Registry.newSession R append.now append.sessionId append.projectId
                .capture header true).keepFrame config ⟨1, .opened header, frame⟩
              appendRecords R config (r.deliver config session [session.openEvent]) append.now
                (session.append config session.openEvent) fresh
        | _, _ => r

/-- `accept_records`: the registry it leaves, whether or not it raises. -/
def acceptRecords (encode : ℕ → Checkpoint.JournalEntry α → Option Bytes) (r : Registry κ π)
    (append : Append α) : Registry κ π :=
  let held := r.sessions.find? append.key
  match preflightEntries R (batchPolicy R held (leadingHeader append.entries)) held.isNone
      append.entries with
  | none => r
  | some checked =>
      match held with
      | none => registerRecords R config encode r append checked
      | some session =>
          if session.closeObserved then r
          else
            match encodeEntries config encode (session.lastSequence + 1) checked with
            | none => r
            | some fresh => appendRecords R config r append.now session fresh

/-! ## The whole system -/

/-- A file that is being published: whose journal it holds, and how many of
its entries were there when it was read. -/
structure Replay (ι : Type) where
  path : String
  origin : ι
  count : ℕ
  first : Bool

structure System (ι κ π : Type) where
  projectId : String
  registry : Registry κ π
  tracked : String → Option TrackedFile
  replay : Option (Replay ι)
  /-- Whose journal each session was registered for. Nothing reads it. -/
  origin : String × String → Option ι
  /-- The session each subscriber joined, and the journal it was then. -/
  joined : ℕ → Option ((String × String) × String)
  /-- The subscribers that left, or whose session was dropped. -/
  left : List ℕ

/-- Frames of a writer's journal. -/
structure Sent (R : Governance α κ π) (config : LiveConfig) (J : Journals ι α) where
  origin : ι
  upload : Upload
  genuine : ∀ decoded, decodeFrames R
    (scanFrames config.maxFrameBytes upload.firstSequence upload.payload).frames upload.payload =
      some decoded →
    ∀ d ∈ decoded, 1 ≤ d.sequence → (J.all origin)[d.sequence - 1]? = some d.entry

inductive SystemOp (R : Governance α κ π) (config : LiveConfig) (J : Journals ι α) where
  /-- `refresh` reads a file that changed. -/
  | read (path : String) (origin : ι) (count : ℕ)
  /-- One batch of the file that was read. -/
  | publish (now : ℕ)
  /-- `refresh` misses a file. -/
  | removed (path : String)
  | upload (sent : Sent R config J)
  /-- A call appends the entries of its journal after those it did. -/
  | capture (origin : ι) (projectId : String) (skip count now : ℕ)
  | drop (key : String × String)
  | join (subscriber : ℕ) (key : String × String)
  | leave (subscriber : ℕ) (key : String × String)

namespace System

variable (J : Journals ι α) (encode : ℕ → Checkpoint.JournalEntry α → Option Bytes)
variable (sys : System ι κ π)

/-- `_detach_session_locked` -/
def detach (key : String × String) : System ι κ π :=
  match sys.registry.sessions.find? key with
  | none => sys
  | some session =>
      { sys with
        registry := { sys.registry with
          sessions := sys.registry.sessions.delete fun other => decide (other.key = key) }
        tracked := fun path => (sys.tracked path).map fun tracked =>
          if key.1 = sys.projectId ∧ tracked.sessionId = some key.2 then
            { tracked with sessionId := none }
          else tracked
        left := sys.left ++ session.subscribers }

/-- A file as it was when it was read. -/
def fileOf (replay : Replay ι) : JournalFile α :=
  ⟨J.header replay.origin, (J.entries replay.origin).take replay.count⟩

/-- Whether a batch of a file begins a session. -/
def registers (held : Option (LiveSession κ π)) (header : JournalOpen α)
    (allowReplacement : Bool) : Bool :=
  match supersededBy held header with
  | some _ => allowReplacement
  | none => held.isNone

/-- One batch of the file that was read. -/
def publish (now : ℕ) : System ι κ π :=
  match sys.replay with
  | none => sys
  | some replay =>
      match sys.tracked replay.path with
      | none => { sys with replay := none }
      | some tracked =>
          let file := fileOf J replay
          let key := (sys.projectId, file.header.sessionId)
          let out := publishReplayBatch R config sys.projectId sys.registry now tracked file
            replay.first
          { sys with
            registry := out.registry
            tracked := Function.update sys.tracked replay.path (some out.tracked)
            replay := if out.more then some { replay with first := false } else none
            origin :=
              if registers (sys.registry.sessions.find? key) file.header replay.first then
                Function.update sys.origin key (some replay.origin)
              else sys.origin }

def upload (sent : Sent R config J) : System ι κ π :=
  { sys with
    registry := (acceptFrames R config sys.registry sent.upload).2
    origin := match plan R config sys.registry sent.upload with
      | .error _ => sys.origin
      | .ok plan =>
          if plan.session.isNone then
            Function.update sys.origin sent.upload.key (some sent.origin)
          else sys.origin }

/-- The entries a call appends after those it did. -/
def nextAppend (origin : ι) (projectId : String) (skip count now : ℕ) : Append α :=
  ⟨projectId, (J.header origin).sessionId, ((J.all origin).drop skip).take count, now⟩

def capture (origin : ι) (append : Append α) : System ι κ π :=
  { sys with
    registry := acceptRecords R config encode sys.registry append
    origin :=
      if (sys.registry.sessions.find? append.key).isNone then
        Function.update sys.origin append.key (some origin)
      else sys.origin }

def removed (path : String) : System ι κ π :=
  match sys.tracked path with
  | none => sys
  | some tracked =>
      let sys := { sys with tracked := Function.update sys.tracked path none }
      match tracked.sessionId with
      | none => sys
      | some sessionId => sys.detach (sys.projectId, sessionId)

def join (subscriber : ℕ) (key : String × String) : System ι κ π :=
  match sys.joined subscriber, sys.registry.sessions.find? key with
  | none, some session =>
      { sys with
        registry := { sys.registry with
          sessions := sys.registry.sessions.put
            { session with subscribers := session.subscribers ++ [subscriber] } }
        joined := Function.update sys.joined subscriber (some (key, session.journalId)) }
  | _, _ => sys

def leave (subscriber : ℕ) (key : String × String) : System ι κ π :=
  match sys.registry.sessions.find? key with
  | none => sys
  | some session =>
      { sys with
        registry := { sys.registry with
          sessions := sys.registry.sessions.put
            { session with subscribers := session.subscribers.filter (· ≠ subscriber) } }
        left := sys.left ++ [subscriber] }

def step : SystemOp R config J → System ι κ π
  | .read path origin count =>
      if sys.replay.isSome then sys
      else
        { sys with
          tracked := Function.update sys.tracked path
            (some ((sys.tracked path).getD ⟨0, none⟩))
          replay := some ⟨path, origin, count, true⟩ }
  | .publish now => sys.publish R config J now
  | .removed path => if sys.replay.isSome then sys else sys.removed path
  | .upload sent => sys.upload R config J sent
  | .capture origin projectId skip count now =>
      sys.capture R config encode origin (nextAppend J origin projectId skip count now)
  | .drop key => sys.detach key
  | .join subscriber key => sys.join subscriber key
  | .leave subscriber key => sys.leave subscriber key

def run (ops : List (SystemOp R config J)) : System ι κ π := ops.foldl (step R config J encode) sys

/-- A registry that follows nothing yet. -/
def init (projectId : String) : System ι κ π :=
  { projectId := projectId
    registry := Registry.empty
    tracked := fun _ => none
    replay := none
    origin := fun _ => none
    joined := fun _ => none
    left := [] }

end System

end Live

end Earshot
