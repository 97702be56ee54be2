import Earshot.Common.Run
import Earshot.Common.Table
/-!
# The browser's capture transport

`EarshotCaptureTransport` posts payloads one at a time, in order. Its delivery
loop runs from one `await` to the next; between two of them the host may send,
flush, stop and change its authorization context. A run says where the loop
waits and what it does then.

A payload's members the transport does not read are left out, and so are the
request's headers, the delays and what an acknowledgement says. `history` records
what the loop did, latest first, and decides nothing; nor does `sent`.
-/

namespace Earshot.Client

open Relational

/-! ## Payloads -/

structure CaptureCoverage where
  signal : String
  availability : String
  reason : String
  droppedCount : Option ℕ
  deriving DecidableEq, Repr

/-- A declared gap between drains. -/
structure CaptureResync where
  missedFromSequence : ℕ
  missedThroughSequence : ℕ
  reason : String
  deriving DecidableEq, Repr

/-- What is posted; snapshots and device events are their texts. -/
structure CapturePayload where
  captureVersion : ℕ
  sessionId : String
  snapshots : List String
  deviceEvents : List String
  coverage : List CaptureCoverage
  drainSequence : Option ℕ
  resync : Option CaptureResync
  deriving DecidableEq, Repr

def MAX_SAFE_INTEGER : ℕ := 9007199254740991

namespace CapturePayload

/-- The observations it carries. -/
def observations (p : CapturePayload) : ℕ := p.snapshots.length + p.deviceEvents.length

/-- `drainSequence`: the number of a v2 drain. -/
def sequence (p : CapturePayload) : Option ℕ :=
  if p.captureVersion = 2 then
    p.drainSequence.filter fun n => 1 ≤ n && n ≤ MAX_SAFE_INTEGER
  else none

end CapturePayload

/-! ## State -/

inductive FailureKind where
  | http
  | transport
  | queueOverflow
  | blocked
  deriving DecidableEq, Repr

/-- Why a payload was not delivered. -/
structure Cause where
  kind : FailureKind
  status : Option ℕ
  retryable : Bool
  authContextChanged : Bool
  deriving DecidableEq, Repr

/-- `CaptureDeliveryFailure` -/
structure DeliveryFailure extends Cause where
  attempts : ℕ
  droppedObservations : ℕ
  sessionId : String
  resyncTracked : Option Bool
  retryRetained : Option Bool
  deriving DecidableEq, Repr

/-- Bounds; `positiveOption` refuses others. -/
structure TransportOptions where
  maxQueuedPayloads : ℕ
  maxRecoverySessions : ℕ
  maxAttempts : ℕ
  queued_pos : 0 < maxQueuedPayloads
  sessions_pos : 0 < maxRecoverySessions
  attempts_pos : 0 < maxAttempts

structure PendingResync where
  sessionId : String
  missedFromSequence : ℕ
  missedThroughSequence : ℕ
  deriving DecidableEq, Repr

/-- A request kept to be posted again as it is. -/
structure PendingExactRetry where
  sessionId : String
  payload : CapturePayload
  deriving DecidableEq, Repr

/-- Where `deliver` waits. -/
inductive Stage where
  /-- For `fetch`. -/
  | posting
  /-- For the delay before another attempt. -/
  | sleeping
  /-- For the acknowledgement's body. -/
  | reading
  /-- For the accepted observer. -/
  | notifying
  /-- It returned; the loop has not gone on yet. -/
  | returned (delivered : Bool)
  deriving DecidableEq, Repr

/-- What the loop delivers. -/
inductive Task where
  /-- A retained request, before `next` of its session. -/
  | retry (next : CapturePayload)
  /-- A payload of the queue. -/
  | next
  /-- A retained request of an idle session; `rest` are left. -/
  | idle (rest : List PendingExactRetry)
  deriving DecidableEq, Repr

/-- One run of the loop. -/
structure DrainRun where
  retryIdle : Bool
  attemptedExactRetries : List String
  task : Task
  payload : CapturePayload
  attempts : ℕ
  stage : Stage
  deriving DecidableEq, Repr

inductive Entry where
  /-- A request, and the payloads retained when it was posted. -/
  | posted (payload : CapturePayload) (retained : List CapturePayload)
  | accepted (payload : CapturePayload)
  | failed (payload : CapturePayload) (failure : DeliveryFailure)
  deriving DecidableEq, Repr

/-- The transport, and its coverage sink's state. -/
structure Transport (β : Type*) where
  queue : List CapturePayload
  pendingResync : Table PendingResync.sessionId
  pendingExactRetry : Table PendingExactRetry.sessionId
  recoverySaturated : Bool
  stopped : Bool
  /-- The loop's run; `draining` is null without one. -/
  run : Option DrainRun
  /-- `isAuthContextCurrent()` -/
  authCurrent : Bool
  coverage : β
  history : List Entry
  sent : List CapturePayload

def UPLOAD_RESYNC_REASON : String := "upload_failed_payload_dropped"
def QUEUE_OVERFLOW_REASON : String := "upload_queue_overflow_oldest_dropped"

/-- Statuses worth another attempt. -/
def RETRYABLE_STATUSES : List ℕ := [408, 425, 429, 500, 502, 503, 504]

namespace Transport

variable {β : Type*}

/-- A new transport, of a current context. -/
def init (coverage : β) : Transport β :=
  ⟨[], .empty, .empty, false, false, none, true, coverage, [], []⟩

/-! ## Recovery state -/

def recoverySessionCount (s : Transport β) : ℕ :=
  (s.pendingResync.rows.map (·.sessionId) ++
    s.pendingExactRetry.rows.map (·.sessionId)).dedup.length

/-- The request retained for a session. -/
def exactRetryOf (s : Transport β) (sessionId : String) : Option CapturePayload :=
  (s.pendingExactRetry.find? sessionId).map (·.payload)

def hasRecoveryState (s : Transport β) (sessionId : String) : Bool :=
  (s.pendingResync.find? sessionId).isSome || (s.exactRetryOf sessionId).isSome

/-- The recovery ledger is full and does not know the drain's session. -/
def refuses (s : Transport β) (payload : CapturePayload) : Bool :=
  s.recoverySaturated && payload.sequence.isSome && !s.hasRecoveryState payload.sessionId

/-- `rememberDroppedDrain` -/
def rememberDroppedDrain (o : TransportOptions) (s : Transport β) (payload : CapturePayload) :
    Transport β × Option Bool :=
  match payload.sequence with
  | none => (s, none)
  | some sequence =>
      let existing := s.pendingResync.find? payload.sessionId
      let unknown := existing.isNone && (s.exactRetryOf payload.sessionId).isNone
      if s.recoverySaturated && unknown then (s, some false)
      else if unknown && o.maxRecoverySessions ≤ s.recoverySessionCount then
        ({ s with recoverySaturated := true }, some false)
      else
        ({ s with
            pendingResync := s.pendingResync.put
              { sessionId := payload.sessionId
                missedFromSequence := min
                  (existing.elim sequence (·.missedFromSequence))
                  (payload.resync.elim sequence (·.missedFromSequence))
                missedThroughSequence := max
                  (existing.elim sequence (·.missedThroughSequence)) sequence } }, some true)

/-- `rememberExactRetry`; bodies are compared as the payloads they are of. -/
def rememberExactRetry (o : TransportOptions) (s : Transport β) (payload : CapturePayload) :
    Transport β × Bool :=
  match s.exactRetryOf payload.sessionId with
  | some existing => (s, decide (existing = payload))
  | none =>
      let unknown := (s.pendingResync.find? payload.sessionId).isNone
      if s.recoverySaturated && unknown then (s, false)
      else if unknown && o.maxRecoverySessions ≤ s.recoverySessionCount then
        ({ s with recoverySaturated := true }, false)
      else
        ({ s with
            pendingExactRetry := s.pendingExactRetry.insert ⟨payload.sessionId, payload⟩ }, true)

/-- `this.pendingExactRetry.delete` -/
def forgetRetry (s : Transport β) (sessionId : String) : Transport β :=
  { s with pendingExactRetry := s.pendingExactRetry.delete (·.sessionId = sessionId) }

/-- `prepareResync` -/
def prepareResync (s : Transport β) (payload : CapturePayload) : CapturePayload :=
  match payload.sequence, s.pendingResync.find? payload.sessionId with
  | some sequence, some pending =>
      let missedThrough := min pending.missedThroughSequence (sequence - 1)
      if missedThrough < pending.missedFromSequence then payload
      else
        { payload with
          resync := some ⟨pending.missedFromSequence, missedThrough, UPLOAD_RESYNC_REASON⟩ }
  | _, _ => payload

/-- `clearResync` -/
def clearResync (s : Transport β) (payload : CapturePayload) : Transport β :=
  match payload.sequence, s.pendingResync.find? payload.sessionId with
  | some sequence, some pending =>
      if sequence < pending.missedFromSequence then s
      else if pending.missedThroughSequence ≤ sequence then
        { s with pendingResync := s.pendingResync.delete (·.sessionId = payload.sessionId) }
      else
        { s with
          pendingResync := s.pendingResync.put
            ⟨payload.sessionId, sequence + 1, pending.missedThroughSequence⟩ }
  | _, _ => s

/-! ## Giving up -/

section Sink

variable (sink : β → CaptureCoverage → β) (o : TransportOptions)

/-- The note of a payload that is given up. -/
def uploadNote (cause : Cause) (payload : CapturePayload) : CaptureCoverage where
  signal := "capture.upload"
  availability := "partial"
  reason := if cause.kind = .queueOverflow then QUEUE_OVERFLOW_REASON else UPLOAD_RESYNC_REASON
  droppedCount := some payload.observations

/-- `giveUp`: the loss is noted, and the payload's own notes are kept. -/
def giveUp (s : Transport β) (payload : CapturePayload) (cause : Cause) (attempts : ℕ)
    (retryRetained : Option Bool) (trackRecovery : Bool) : Transport β :=
  let out := if trackRecovery then s.rememberDroppedDrain o payload else (s, none)
  { out.1 with
    coverage := payload.coverage.foldl sink (sink out.1.coverage (uploadNote cause payload))
    history := .failed payload
      { cause with
        attempts
        droppedObservations := payload.observations
        sessionId := payload.sessionId
        resyncTracked := out.2
        retryRetained } :: out.1.history }

/-- A payload that is not posted. -/
def drop (s : Transport β) (payload : CapturePayload) (kind : FailureKind)
    (authContextChanged : Bool) : Transport β :=
  s.giveUp sink o payload ⟨kind, none, false, authContextChanged⟩ 0 none true

/-- `retainExactRetry` -/
def retainExactRetry (s : Transport β) (payload : CapturePayload) (cause : Cause)
    (attempts : ℕ) : Transport β :=
  let out := s.rememberExactRetry o payload
  if out.2 then
    { out.1 with
      history := .failed payload
        { cause with
          retryable := true
          attempts
          droppedObservations := payload.observations
          sessionId := payload.sessionId
          resyncTracked := none
          retryRetained := some true } :: out.1.history }
  else
    out.1.giveUp sink o payload { cause with retryable := false } attempts (some false) true

/-! ## Delivering -/

/-- `deliver` returned. -/
def settle (s : Transport β) (run : DrainRun) (delivered : Bool) : Transport β :=
  { s with run := some { run with stage := .returned delivered } }

/-- `blockForAuthContextChange` -/
def blockForAuthContextChange (s : Transport β) (run : DrainRun) : Transport β :=
  (if run.payload.sequence.isSome then
    s.retainExactRetry sink o run.payload ⟨.blocked, none, true, true⟩ run.attempts
  else
    s.giveUp sink o run.payload ⟨.blocked, none, false, true⟩ run.attempts none true).settle
      run false

/-- One turn of `deliver`'s loop, up to the post. -/
def attempt (s : Transport β) (run : DrainRun) : Transport β :=
  if ¬ s.authCurrent then s.blockForAuthContextChange sink o run
  else
    { s with
      run := some { run with attempts := run.attempts + 1, stage := .posting }
      history := .posted run.payload (s.pendingExactRetry.rows.map (·.payload)) :: s.history }

/-- `deliver` after its last attempt failed. -/
def fail (s : Transport β) (run : DrainRun) (cause : Cause) : Transport β :=
  if cause.retryable && run.payload.sequence.isSome then
    (s.retainExactRetry sink o run.payload cause run.attempts).settle run false
  else
    let wasExactRetry := (s.exactRetryOf run.payload.sessionId).any fun retry =>
      decide (retry.drainSequence = run.payload.drainSequence)
    let s := s.giveUp sink o run.payload cause run.attempts none true
    (if wasExactRetry then s.forgetRetry run.payload.sessionId else s).settle run false

/-- How a post ends. -/
inductive FetchOutcome where
  | rejected
  | response (status : ℕ) (ok : Bool)
  deriving DecidableEq, Repr

/-- `deliver` after `fetch`. -/
def fetched (s : Transport β) (run : DrainRun) (outcome : FetchOutcome) : Transport β :=
  if ¬ s.authCurrent then s.blockForAuthContextChange sink o run
  else
    match outcome with
    | .rejected =>
        if o.maxAttempts ≤ run.attempts then s.fail sink o run ⟨.transport, none, true, false⟩
        else { s with run := some { run with stage := .sleeping } }
    | .response status ok =>
        if ok then { s with run := some { run with stage := .reading } }
        else
          let retryable := RETRYABLE_STATUSES.contains status
          if ¬ retryable ∨ o.maxAttempts ≤ run.attempts then
            s.fail sink o run ⟨.http, some status, retryable, false⟩
          else { s with run := some { run with stage := .sleeping } }

/-- `deliver` after the acknowledgement was read. -/
def read (s : Transport β) (run : DrainRun) : Transport β :=
  if ¬ s.authCurrent then s.blockForAuthContextChange sink o run
  else { s with run := some { run with stage := .notifying } }

/-- `deliver` after the observer was told. -/
def notified (s : Transport β) (run : DrainRun) : Transport β :=
  ({ s with history := .accepted run.payload :: s.history } : Transport β).settle run true

/-! ## The loop -/

/-- `deliver`, from the loop. -/
def deliver (s : Transport β) (retryIdle : Bool) (attempted : List String) (task : Task)
    (payload : CapturePayload) : Transport β :=
  s.attempt sink o ⟨retryIdle, attempted, task, payload, 0, .posting⟩

/-- The loop over the queue; `queue` is what is left of it. Once it is empty,
requests of idle sessions are retried if asked for. -/
def takeQueue (s : Transport β) (retryIdle : Bool) (attempted : List String) :
    List CapturePayload → Transport β
  | [] =>
      match (if retryIdle then s.pendingExactRetry.rows else []).filter
          fun retry => !attempted.contains retry.sessionId with
      | [] => { s with queue := [], run := none }
      | retry :: rest =>
          ({ s with queue := [] } : Transport β).deliver sink o false
            (retry.sessionId :: attempted) (.idle rest) retry.payload
  | next :: queue =>
      if ¬ s.authCurrent then
        (s.drop sink o next .blocked true).takeQueue retryIdle attempted queue
      else if s.refuses next then
        (s.drop sink o next .blocked false).takeQueue retryIdle attempted queue
      else
        match s.exactRetryOf next.sessionId with
        | some retry =>
            if attempted.contains next.sessionId then
              (s.drop sink o next .blocked false).takeQueue retryIdle attempted queue
            else
              ({ s with queue } : Transport β).deliver sink o retryIdle
                (next.sessionId :: attempted) (.retry next) retry
        | none =>
            ({ s with queue } : Transport β).deliver sink o retryIdle attempted .next
              (s.prepareResync next)

/-- The loop goes on with a payload it holds. -/
def deliverNext (s : Transport β) (run : DrainRun) (next : CapturePayload) : Transport β :=
  if s.refuses next then
    (s.drop sink o next .blocked false).takeQueue sink o run.retryIdle run.attemptedExactRetries
      s.queue
  else
    s.deliver sink o run.retryIdle run.attemptedExactRetries .next (s.prepareResync next)

/-- The loop after `deliver` returned. -/
def resume (s : Transport β) (run : DrainRun) (delivered : Bool) : Transport β :=
  match run.task with
  | .retry next =>
      if delivered then
        ((s.forgetRetry next.sessionId).clearResync run.payload).deliverNext sink o run next
      else if (s.exactRetryOf next.sessionId).isSome || s.recoverySaturated then
        (s.drop sink o next .blocked (!s.authCurrent)).takeQueue sink o run.retryIdle
          run.attemptedExactRetries s.queue
      else s.deliverNext sink o run next
  | .next =>
      (if delivered then s.clearResync run.payload else s).takeQueue sink o run.retryIdle
        run.attemptedExactRetries s.queue
  | .idle rest =>
      let s := if delivered then (s.forgetRetry run.payload.sessionId).clearResync run.payload
        else s
      match rest.filter fun retry => !run.attemptedExactRetries.contains retry.sessionId with
      | [] => s.takeQueue sink o false run.attemptedExactRetries s.queue
      | retry :: rest =>
          s.deliver sink o false (retry.sessionId :: run.attemptedExactRetries) (.idle rest)
            retry.payload

/-! ## What the host calls -/

/-- The oldest waiting payloads make room for one more. -/
def evict (s : Transport β) : List CapturePayload → Transport β
  | [] => { s with queue := [] }
  | evicted :: queue =>
      if o.maxQueuedPayloads ≤ queue.length + 1 then
        (s.drop sink o evicted .queueOverflow false).evict queue
      else { s with queue := evicted :: queue }

/-- `send`; `serializes` says whether the payload has a text. -/
def send (s : Transport β) (payload : CapturePayload) (serializes : Bool) : Transport β :=
  let s : Transport β := { s with sent := payload :: s.sent }
  if s.stopped then s.drop sink o payload .transport false
  else if ¬ s.authCurrent then
    s.giveUp sink o payload ⟨.blocked, none, false, true⟩ 0 none false
  else if s.refuses payload then s.drop sink o payload .blocked false
  else if ¬ serializes then s.drop sink o payload .transport false
  else
    let s := s.evict sink o s.queue
    let s : Transport β := { s with queue := s.queue ++ [payload] }
    if s.run.isSome then s else s.takeQueue sink o false [] s.queue

/-- `flush`, once no run is under way. -/
def flush (s : Transport β) : Transport β :=
  if s.pendingExactRetry.rows.isEmpty then s else s.takeQueue sink o true [] s.queue

/-- `stop` -/
def stop (s : Transport β) : Transport β :=
  if s.stopped then s
  else s.queue.foldl (fun s queued => s.drop sink o queued .transport false)
    { s with stopped := true, queue := [] }

inductive Event where
  | send (payload : CapturePayload) (serializes : Bool)
  | flush
  | stop
  /-- The host's context is, or is not, the transport's. -/
  | authContext (current : Bool)
  | fetched (outcome : FetchOutcome)
  | slept
  | read
  | notified
  | resumed
  deriving DecidableEq, Repr

/-- The payload an event sends. -/
def Event.payload : Event → Option CapturePayload
  | .send payload _ => some payload
  | _ => none

/-- The run, where it waits at `stage`. -/
def waitsAt (s : Transport β) (stage : Stage) : Option DrainRun :=
  s.run.filter fun run => decide (run.stage = stage)

/-- **One event.** -/
def step (s : Transport β) : Event → Option (Transport β)
  | .send payload serializes => some (s.send sink o payload serializes)
  | .flush => if s.run.isSome then none else some (s.flush sink o)
  | .stop => some (s.stop sink o)
  | .authContext current => some { s with authCurrent := current }
  | .fetched outcome => (s.waitsAt .posting).map fun run => s.fetched sink o run outcome
  | .slept => (s.waitsAt .sleeping).map fun run => s.attempt sink o run
  | .read => (s.waitsAt .reading).map fun run => s.read sink o run
  | .notified => (s.waitsAt .notifying).map fun run => s.notified run
  | .resumed =>
      s.run.bind fun run =>
        match run.stage with
        | .returned delivered => some (s.resume sink o run delivered)
        | _ => none

end Sink

end Transport

end Earshot.Client
