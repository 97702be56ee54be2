import Earshot.Live.Session
/-!
# Tail connections

A subscription is one connection's view of a session: a backlog that was
asked for, and a bounded queue of what is published after it joined. A
connection that falls behind is closed with a cursor to come back with. What
it is not shown is counted in a `replayTruncated` event.
-/

namespace Earshot

namespace Live

variable {κ π : Type}

structure TailConfig extends LiveConfig where
  maxConnections : ℕ
  maxConnectionsPerProject : ℕ
  maxSubscribersPerSession : ℕ
  maxQueueRecords : ℕ
  maxQueueBytes : ℕ

variable (C : TailConfig)

inductive EndReason where
  | projectDeleted
  | other (reason : String)
  deriving DecidableEq

structure Subscription where
  journalId : String
  backlog : List LiveEvent
  queue : List LiveEvent
  queuedBytes : ℕ
  overflowed : Bool
  endReason : Option EndReason
  closed : Bool
  lastDeliveredSequence : ℕ
  /-- The events taken, in order. Nothing reads it. -/
  taken : List LiveEvent
  deriving DecidableEq

namespace Subscription

/-- The queue has no room for the event. -/
def Full (sub : Subscription) (event : LiveEvent) : Prop :=
  C.maxQueueRecords ≤ sub.queue.length ∨ C.maxQueueBytes < sub.queuedBytes + event.sizeBytes

instance (sub : Subscription) (event : LiveEvent) : Decidable (sub.Full C event) :=
  inferInstanceAs (Decidable (_ ∨ _))

/-- The loop of `offer`. -/
def offerEach : List LiveEvent → Subscription → Subscription
  | [], sub => sub
  | event :: rest, sub =>
      if 0 < event.sequence ∧ event.sequence ≤ sub.lastDeliveredSequence then offerEach rest sub
      else if sub.Full C event then { sub with overflowed := true }
      else offerEach rest { sub with
        queue := sub.queue ++ [event]
        queuedBytes := sub.queuedBytes + event.sizeBytes }

/-- The connection takes no more. -/
def stopped (sub : Subscription) : Bool :=
  sub.overflowed || sub.closed || sub.endReason.isSome

/-- `offer` -/
def offer (events : List LiveEvent) (sub : Subscription) : Subscription :=
  if sub.stopped then sub else offerEach C events sub

/-- `finish` -/
def finish (reason : EndReason) (sub : Subscription) : Subscription :=
  if reason = .projectDeleted then
    { sub with
      endReason := some reason
      backlog := []
      queue := []
      queuedBytes := 0
      overflowed := false }
  else if sub.endReason.isNone then { sub with endReason := some reason }
  else sub

/-- `next_event` -/
def nextEvent (sub : Subscription) : Subscription :=
  match sub.backlog, sub.queue with
  | event :: backlog, _ => { sub with backlog := backlog, taken := sub.taken ++ [event] }
  | [], event :: queue =>
      { sub with
        queue := queue
        queuedBytes := sub.queuedBytes - event.sizeBytes
        taken := sub.taken ++ [event] }
  | [], [] => sub

/-- `mark_delivered` -/
def markDelivered (event : LiveEvent) (sub : Subscription) : Subscription :=
  if event.sequence = 0 then sub
  else { sub with lastDeliveredSequence := max sub.lastDeliveredSequence event.sequence }

/-- The cursor `terminal` names once everything has gone out of a connection
that fell behind. -/
def overflowCursor (sub : Subscription) : Option ℕ :=
  if sub.queue = [] ∧ sub.backlog = [] ∧ sub.overflowed then some sub.lastDeliveredSequence
  else none

end Subscription

/-! ## Subscribing -/

inductive FromSpec where
  | start
  | live
  | position (sequence : ℕ)
  deriving DecidableEq

/-- A `Last-Event-ID`, parted at its colon; no cursor where what follows is
not at most twenty decimal digits. -/
inductive LastEventId where
  | empty
  | parts (journalId : String) (cursor : Option ℕ)
  deriving DecidableEq

/-- The cursor of a `Last-Event-ID` that continues a session, or why it does
not. -/
def LastEventId.resume (session : LiveSession κ π) : LastEventId → Except String ℕ
  | .empty => .error "invalid_resume_cursor"
  | .parts journalId cursor =>
      if journalId ≠ session.journalId then .error "journal_identity_changed"
      else
        match cursor with
        | none => .error "invalid_resume_cursor"
        | some cursor =>
            if cursor < 1 then .error "invalid_resume_cursor"
            else if max session.lastSequence session.observedThroughSequence < cursor then
              .error "resume_cursor_ahead_of_journal"
            else .ok cursor

structure Request where
  fromSpec : FromSpec
  lastEventId : Option LastEventId

/-- The cursor a request resumes from. -/
def Request.cursor (session : LiveSession κ π) (request : Request) : Option ℕ :=
  request.lastEventId.bind fun id => (id.resume session).toOption

/-- The first fact asked for. -/
def Request.start (session : LiveSession κ π) (request : Request) : ℕ :=
  match request.lastEventId with
  | some id =>
      match id.resume session with
      | .ok cursor => cursor + 1
      | .error _ => 2
  | none =>
      match request.fromSpec with
      | .start => 2
      | .live => session.lastSequence + 1
      | .position sequence => max 2 sequence

/-- `available_from_sequence` -/
def LiveSession.availableFrom (session : LiveSession κ π) : ℕ :=
  match session.events with
  | [] => session.lastSequence + 1
  | event :: _ => event.sequence

/-- The first fact that can be shown. -/
def firstShown (session : LiveSession κ π) (start : ℕ) : ℕ :=
  min (max start (max session.availableFrom 2)) (session.lastSequence + 1)

/-- `withheld_records` -/
def withheldRecords (session : LiveSession κ π) (resumed : Bool) (start : ℕ) : ℕ :=
  if resumed then min (max session.availableFrom 2) (session.lastSequence + 1) - start
  else firstShown session start - 2

/-- The payload of a `replayTruncated` event. -/
def truncatedPayload (reason : String) (requested available withheld : ℕ) : String :=
  "\x7b\"available_from_sequence\":" ++ toString available ++ ",\"reason\":\"" ++ reason ++
    "\",\"requested_from_sequence\":" ++ toString requested ++ ",\"withheld_records\":" ++
    toString withheld ++ "\x7d"

/-- The `reset` a connection is told of where its `Last-Event-ID` does not
continue the session. -/
def Request.resetEvents (session : LiveSession κ π) (request : Request) : List LiveEvent :=
  match request.lastEventId.map (LastEventId.resume session) with
  | some (.error reason) => [⟨.reset, session.journalId, 0, reason⟩]
  | _ => []

/-- What comes before the backlog. -/
def Request.preamble (session : LiveSession κ π) (request : Request) : List LiveEvent :=
  let resumed := (request.cursor session).isSome
  let start := request.start session
  let withheld := withheldRecords session resumed start
  request.resetEvents session ++
  (if resumed then [] else [session.openEvent]) ++
  if 0 < withheld then
    [⟨.replayTruncated, session.journalId, 0,
      truncatedPayload
        (if request.fromSpec = .live ∧ ¬ resumed then "requested_live_only"
          else "replay_window_exceeded")
        start (firstShown session start) withheld⟩]
  else []

inductive TailError where
  | capacity
  deriving DecidableEq

/-- `subscribe`, where so many connections are held. -/
def subscribe (connections projectConnections : ℕ) (session : LiveSession κ π)
    (request : Request) : Except TailError Subscription :=
  if C.maxConnections ≤ connections then .error .capacity
  else if C.maxConnectionsPerProject ≤ projectConnections then .error .capacity
  else if C.maxSubscribersPerSession ≤ session.subscribers.length then .error .capacity
  else
    let start := request.start session
    .ok
      { journalId := session.journalId
        backlog := request.preamble session ++
          session.events.filter fun event => decide (max start 2 ≤ event.sequence)
        queue := []
        queuedBytes := 0
        overflowed := false
        endReason := none
        closed := false
        lastDeliveredSequence := max 1 (start - 1)
        taken := [] }

/-! ## A session and one of its connections -/

structure Tail (κ π : Type) where
  session : LiveSession κ π
  sub : Subscription
  /-- Another journal has taken the session's place. -/
  superseded : Bool

inductive TailOp where
  /-- Facts are published: their names and payloads. What a file was published
  through before is passed over, whether or not the session has it. -/
  | publish (passedOver : ℕ) (facts : List (EventName × String))
  /-- A file was read this far. -/
  | observe (through : ℕ)
  /-- Another journal replaces the session's. -/
  | supersede (journalId : String)
  | nextEvent
  /-- An event that was taken has been sent. -/
  | markDelivered (index : ℕ)
  | finish (reason : EndReason)
  | close

/-- Facts numbered from a sequence. -/
def numberFacts (journalId : String) : ℕ → List (EventName × String) → List LiveEvent
  | _, [] => []
  | sequence, fact :: facts =>
      ⟨fact.1, journalId, sequence, fact.2⟩ :: numberFacts journalId (sequence + 1) facts

namespace Tail

def step (tail : Tail κ π) : TailOp → Tail κ π
  | .publish passedOver facts =>
      if tail.superseded then tail
      else
        let events := numberFacts tail.session.journalId
          (tail.session.lastSequence + 1 + passedOver) facts
        { tail with
          session := events.foldl (LiveSession.append C.toLiveConfig) tail.session
          sub := tail.sub.offer C events }
  | .observe through =>
      { tail with session := { tail.session with
          observedThroughSequence := max tail.session.observedThroughSequence through } }
  | .supersede journalId =>
      { tail with
        sub := (tail.sub.offer C [⟨.reset, tail.session.journalId, 0, journalId⟩]).finish
          (.other "session_superseded")
        superseded := true }
  | .nextEvent => { tail with sub := tail.sub.nextEvent }
  | .markDelivered index =>
      { tail with sub := match tail.sub.taken[index]? with
        | some event => tail.sub.markDelivered event
        | none => tail.sub }
  | .finish reason => { tail with sub := tail.sub.finish reason }
  | .close => { tail with sub := { tail.sub with closed := true } }

def run (tail : Tail κ π) (ops : List TailOp) : Tail κ π := ops.foldl (step C) tail

end Tail

end Live

end Earshot
