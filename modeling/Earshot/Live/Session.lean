import Earshot.Checkpoint.Journal
import Earshot.Common.Table
/-!
# Live sessions

A live session is a journal being followed: the events published of it, of
which a window is kept for replay, the frames kept for a seal, and the
checksum of each. A gate says what the destination may not carry.

What the contract, the capture policy and JSON say of an entry is a
parameter (`Governance`): entries of type `α`, capture classes `κ`, policies
`π`.
-/

namespace Earshot

namespace Live

open Checkpoint

/-! ## Events -/

inductive EventName where
  | opened
  | record
  | operationOpen
  | limit
  | exhausted
  | finalize
  | withheld
  | reset
  | replayTruncated
  | overflow
  | ended
  deriving DecidableEq

/-- One event. The sequence of a control event is zero. -/
structure LiveEvent where
  name : EventName
  journalId : String
  sequence : ℕ
  payload : String
  deriving DecidableEq

def LiveEvent.sizeBytes (event : LiveEvent) : ℕ := event.payload.length

inductive Source where
  | journal
  | checkpoint
  | capture
  deriving DecidableEq

structure LiveConfig where
  maxSessions : ℕ
  maxSessionsPerProject : ℕ
  maxRecordsPerSession : ℕ
  maxReplayBytes : ℕ
  maxSealBytes : ℕ
  maxFrameBytes : ℕ
  maxJournalRecords : ℕ

/-! ## The gate -/

/-- `_ExportGate`: the policy, unless it is unreadable, and the classes
retained so far. -/
structure ExportGate (κ π : Type) where
  policy : Option π
  captured : List κ
  deriving DecidableEq

inductive Denial (κ : Type) where
  | unreadable
  | denied (captureClass : κ)
  deriving DecidableEq

/-- What the live layer asks of an entry. -/
structure Governance (α κ π : Type) where
  decodeEntry : Bytes → Option (Checkpoint.JournalEntry α)
  /-- `JournalOpen.capture_policy` -/
  capturePolicy : JournalOpen α → Option π
  metadataOnly : π
  metadata : κ
  /-- `validate_nonrecord_entry` -/
  validateNonrecord : Checkpoint.JournalEntry α → Bool
  /-- `validate_and_classify_record` -/
  classifyRecord : α → π → Option (List κ)
  /-- The classes a record's entry names; `none` for an unknown one. -/
  retainedClasses : α → List (Option κ)
  exportDenials : π → List κ → List κ
  openPayload : JournalOpen α → Source → ExportGate κ π → String
  /-- `_json` of what an entry is projected to; `none` where it raises. -/
  entryPayload : Checkpoint.JournalEntry α → Option String
  withheldPayload : Checkpoint.JournalEntry α → List (Denial κ) → String
  /-- Of an entry that nothing checked before: what validates and classifies it
  raises neither a `TypeError` nor a `ValueError`, but something else. -/
  escapes : ExportGate κ π → Checkpoint.JournalEntry α → Bool := fun _ _ => false

variable {α κ π : Type} [DecidableEq κ] (R : Governance α κ π)

/-- `_ExportGate.__init__` -/
def ExportGate.new (header : JournalOpen α) : ExportGate κ π :=
  ⟨R.capturePolicy header, [R.metadata]⟩

/-- `_captured.add` -/
def ExportGate.add (gate : ExportGate κ π) (captureClass : κ) : ExportGate κ π :=
  if captureClass ∈ gate.captured then gate
  else { gate with captured := gate.captured ++ [captureClass] }

/-- One class a record's entry names. -/
def ExportGate.name (gate : ExportGate κ π) : Option κ → ExportGate κ π
  | some captureClass => gate.add captureClass
  | none => { gate with policy := none }

/-- What an entry adds to the gate. -/
def ExportGate.absorb (gate : ExportGate κ π) (entry : Checkpoint.JournalEntry α)
    (observed : Option (List κ)) : ExportGate κ π :=
  match entry with
  | .record value =>
      let gate := (R.retainedClasses value).foldl ExportGate.name gate
      match gate.policy with
      | none => gate
      | some policy =>
          match observed.or (R.classifyRecord value policy) with
          | none => { gate with policy := none }
          | some classes => classes.foldl ExportGate.add gate
  | _ => gate

/-- What the gate refuses. -/
def ExportGate.denials (gate : ExportGate κ π) : List (Denial κ) :=
  match gate.policy with
  | none => [.unreadable]
  | some policy => (R.exportDenials policy gate.captured).map .denied

/-- An entry that carries evidence. -/
def carriesEvidence : Checkpoint.JournalEntry α → Bool
  | .record _ => true
  | .operationOpen _ => true
  | _ => false

def eventName : Checkpoint.JournalEntry α → EventName
  | .opened _ => .opened
  | .record _ => .record
  | .limit _ => .limit
  | .operationOpen _ => .operationOpen
  | .exhausted _ => .exhausted
  | .finalize _ _ => .finalize

/-- `_entry_event`: `none` where it raises. -/
def entryEvent (entry : Checkpoint.JournalEntry α) (journalId : String) (sequence : ℕ) :
    Option LiveEvent :=
  match entry with
  | .opened _ => none
  | entry => (R.entryPayload entry).map fun payload =>
      ⟨eventName entry, journalId, sequence, payload⟩

/-- `_governed_entry_event`: the gate it leaves, and the event, unless it
raises. -/
def governedEntryEvent (gate : ExportGate κ π) (journalId : String)
    (entry : Checkpoint.JournalEntry α)
    (sequence : ℕ) (observed : Option (List κ)) : ExportGate κ π × Option LiveEvent :=
  let withheld (denials : List (Denial κ)) : LiveEvent :=
    ⟨.withheld, journalId, sequence, R.withheldPayload entry denials⟩
  if !R.validateNonrecord entry then
    ({ gate with policy := none }, some (withheld [.unreadable]))
  else
    let gate := gate.absorb R entry observed
    let denials := gate.denials R
    (gate, if !denials.isEmpty && carriesEvidence entry then some (withheld denials)
      else entryEvent R entry journalId sequence)

/-! ## A session -/

structure LiveSession (κ π : Type) where
  sessionId : String
  projectId : String
  source : Source
  journalId : String
  openEvent : LiveEvent
  exportGate : ExportGate κ π
  events : List LiveEvent
  retainedBytes : ℕ
  lastSequence : ℕ
  observedThroughSequence : ℕ
  closeObserved : Bool
  journalComplete : Bool
  lastAppendUnixNano : ℕ
  subscribers : List ℕ
  frames : Option Bytes
  framesComplete : Bool
  frameChecksums : Bytes
  /-- Every event published. Nothing reads it. -/
  published : List LiveEvent
  /-- The frames of the entries published, in order. Nothing reads it. -/
  recorded : List Bytes
  deriving DecidableEq

def LiveSession.key (session : LiveSession κ π) : String × String :=
  (session.projectId, session.sessionId)

namespace LiveSession

omit [DecidableEq κ] in
/-- `checksum` -/
def checksum (session : LiveSession κ π) (sequence : ℕ) : Option ℕ :=
  if sequence < 1 ∨ session.frameChecksums.length < (sequence - 1) * CHECKSUM_SIZE + CHECKSUM_SIZE
  then none
  else some (fromBigEndian
    ((session.frameChecksums.drop ((sequence - 1) * CHECKSUM_SIZE)).take CHECKSUM_SIZE))

omit [DecidableEq κ] in
/-- `remember_checksum` -/
def rememberChecksum (session : LiveSession κ π) (sequence : ℕ) (checksum : Bytes) :
    LiveSession κ π :=
  if session.frameChecksums.length = (sequence - 1) * CHECKSUM_SIZE then
    { session with frameChecksums := session.frameChecksums ++ checksum }
  else session

omit [DecidableEq κ] in
/-- `_retain_memory_frame` -/
def retainFrame (config : LiveConfig) (session : LiveSession κ π) (frame : Bytes) :
    LiveSession κ π :=
  match session.frames with
  | none => session
  | some frames =>
      if config.maxSealBytes < frames.length + frame.length then
        { session with frames := none, framesComplete := false }
      else { session with frames := some (frames ++ frame) }

/-- The oldest events are dropped, but for the last one. -/
def evict (config : LiveConfig) : List LiveEvent → ℕ → List LiveEvent × ℕ
  | event :: next :: rest, bytes =>
      if config.maxRecordsPerSession < (event :: next :: rest).length ∨
          config.maxReplayBytes < bytes then
        evict config (next :: rest) (bytes - event.sizeBytes)
      else (event :: next :: rest, bytes)
  | events, bytes => (events, bytes)

omit [DecidableEq κ] in
/-- `append` -/
def append (config : LiveConfig) (session : LiveSession κ π) (event : LiveEvent) :
    LiveSession κ π :=
  let (events, bytes) := evict config (session.events ++ [event])
    (session.retainedBytes + event.sizeBytes)
  { session with
    events := events
    retainedBytes := bytes
    lastSequence := max session.lastSequence event.sequence
    published := session.published ++ [event] }

omit [DecidableEq κ] in
/-- `_absorb` -/
def absorb (session : LiveSession κ π) (entry : Checkpoint.JournalEntry α) : LiveSession κ π :=
  match entry with
  | .finalize journalComplete _ =>
      { session with
        closeObserved := true
        journalComplete := session.journalComplete && journalComplete }
  | .exhausted _ => { session with journalComplete := false }
  | _ => session

end LiveSession

end Live

end Earshot
