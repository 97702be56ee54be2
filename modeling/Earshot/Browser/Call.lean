import Earshot.Browser.Assembler
import Earshot.Checkpoint.Framing
/-!
# One browser call

A call holds its recorder and turn, the carry its deltas are taken from, and
its sequencing state: the last drain applied, the digests of the last ones
accepted, and the identity of a drain that was interrupted. `classify`
decides what a drain is; `project` records what it says.

The engines, which derive facts from samples, are parameters, but for the
signals their coverage may name.
-/

namespace Earshot

/-- What the engines could not derive. -/
inductive EngineSignal where
  | snapshotOrder
  | packetLoss
  | jitterBuffer
  | concealment
  | processingDelay
  | playout
  | microphone
  | eventOrder
  | inventory
  deriving DecidableEq

def EngineSignal.label : EngineSignal → String
  | .snapshotOrder => "webrtc.snapshot_order"
  | .packetLoss => "webrtc.packet_loss"
  | .jitterBuffer => "webrtc.jitter_buffer"
  | .concealment => "webrtc.concealment"
  | .processingDelay => "webrtc.processing_delay"
  | .playout => "webrtc.playout"
  | .microphone => "device.microphone"
  | .eventOrder => "device.event_order"
  | .inventory => "device.inventory"

structure EngineCoverage where
  signal : EngineSignal
  availability : String
  reason : String
  deriving DecidableEq

/-- What an engine derived: coverage, and the measurements and events. -/
structure EngineFacts where
  coverage : List EngineCoverage
  drafts : List FactDraft

/-- The outbound carry is what the next drain's deltas are taken from. -/
structure WebRtcFacts (Carry : Type) extends EngineFacts where
  carry : Option Carry

/-- Frames one after the other, numbered from `sequence`. -/
def framesFrom (encodeFrame : ℕ → JournalEntry → Option Bytes) :
    ℕ → List JournalEntry → Option Bytes
  | _, [] => some []
  | sequence, entry :: entries =>
      (encodeFrame sequence entry).bind fun frame =>
        (framesFrom encodeFrame (sequence + 1) entries).map (frame ++ ·)

/-- How a journal's entries are framed; `none` for an entry past the frame
cap. A frame has a header, and a complete run of frames is read back. -/
structure FrameCodec where
  encodeFrame : ℕ → JournalEntry → Option Bytes
  read : Bytes → Option (List JournalEntry)
  frame_ne_nil : ∀ sequence entry, encodeFrame sequence entry ≠ some []
  read_frames : ∀ entries bytes, entries.head? = some .opened →
    framesFrom encodeFrame 1 entries = some bytes → read bytes = some entries

/-- What a server is configured with. -/
structure CaptureConfig (Carry : Type) where
  /-- A journal directory is configured. -/
  durable : Bool
  hash : CaptureHash
  recorder : RecorderConfig
  codec : FrameCodec
  applyWebrtcStats : Option Carry → List Sample → WebRtcFacts Carry
  applyAudioGraph : List Sample → EngineFacts
  /-- The live registry's governance takes the entry. -/
  governed : JournalEntry → Bool
  maxPerProject : ℕ
  maxJournalRecords : ℕ
  maxJournalRecords_pos : 0 < maxJournalRecords
  maxCaptureJournalBytes : ℕ

/-! ## Signals and reasons -/

def IDENTITY_SIGNAL : String := "capture.call_identity"
def IDENTITY_REASON : String := "client_declared_identity"
def DRAIN_SEQUENCE_SIGNAL : String := "capture.drain_sequence"
def STATS_CONTINUITY_SIGNAL : String := "capture.stats_continuity"
def STATS_CONTINUITY_REASON : String := "carry_invalidated_by_drain_loss"
def STATS_CONTINUITY_RESTART_REASON : String := "carry_lost_on_restart"
def CALL_CLOSE_SIGNAL : String := "client.call_close"
def CALL_CLOSE_REASON : String := "client_declared"
def CALL_DURATION_SIGNAL : String := "client.call_duration"
def CALL_DURATION_UNOBSERVED_REASON : String := "close_not_observed"
def CLIENT_CAPTURE_STARTED : String := "earshot.client.capture_started"
def CLIENT_CALL_ENDED : String := "earshot.client.call_ended"
def OBSERVED_CALL_DURATION : String := "client.observed_call_duration"
def OBSERVED_CAPTURE_EXTENT : String := "client.observed_capture_extent"
def DURATION_SOURCE_FIELD : String := "clock_domain_extent"
def STATUS_COMPLETE : String := "completed"
def STATUS_INCOMPLETE : String := "incomplete"

/-- A bounded ring: this many digests are remembered. -/
def DIGEST_RING_SIZE : ℕ := 64

/-! ## Sequencing -/

/-- Why a drain conflicts with its call. -/
inductive Conflict where
  | metadata
  | rewrites
  | interrupted
  | resyncApplied
  deriving DecidableEq

/-- How a request fails. -/
inductive CaptureError where
  | conflict (why : Conflict) (sequence : ℕ)
  | gap (expectedSequence : ℕ)
  | closed
  | finalized
  | callCapacity
  | liveCapacity
  | journalLimit
  | journalUnavailable
  | framesInvalid
  | value
  | os
  deriving DecidableEq

inductive Decision where
  | apply
  | applyGap (resync : ResyncClaim)
  | replay
  deriving DecidableEq

/-- What one drain resolved to. -/
structure DrainOutcome where
  acceptedThrough : ℕ
  acceptedRecords : ℕ
  replay : Bool
  acceptedSnapshots : ℕ
  acceptedDeviceEvents : ℕ
  acceptedCoverage : ℕ
  finalized : Bool
  deriving DecidableEq

structure CaptureCall (Carry : Type) where
  callMetadataDigest : String
  callMetadataBound : Bool
  turn : Turn
  carry : Option Carry
  applied : ℕ
  digests : List DrainIdentity
  outcomes : List (ℕ × DrainOutcome)
  identityDeclared : Bool
  firstObservedMs : Option ℚ
  lastObservedMs : Option ℚ
  lossy : Bool
  finalized : Bool
  /-- Rebuilt from disk, and not continued yet. -/
  restarted : Bool
  /-- The drain that was interrupted. -/
  retry : Option DrainIdentity
  recordLimitRefusal : Option DrainIdentity

/-- `_matches_call_metadata` -/
def matchesCallMetadata (H : CaptureHash) (drain : CaptureDrain) (bound : Bool)
    (digest : Option String) : Bool :=
  !bound || some (drain.callMetadataDigest H) == digest

/-- The remembered drain with the number, if the ring still holds it. -/
def digestOf (digests : List DrainIdentity) (sequence : ℕ) : Option DrainIdentity :=
  digests.find? (·.sequence = sequence)

/-- `_remember_digest`: the oldest goes. -/
def rememberDigest (digests : List DrainIdentity) (identity : DrainIdentity) :
    List DrainIdentity :=
  let digests := digests ++ [identity]
  digests.drop (digests.length - DIGEST_RING_SIZE)

/-- What is answered of an accepted drain. -/
def CaptureDrain.outcome (drain : CaptureDrain) (acceptedThrough acceptedRecords : ℕ) :
    DrainOutcome where
  acceptedThrough := acceptedThrough
  acceptedRecords := acceptedRecords
  replay := false
  acceptedSnapshots := drain.snapshots.length
  acceptedDeviceEvents := drain.deviceEvents.length
  acceptedCoverage := drain.coverage.length
  finalized := drain.finalizes

namespace CaptureCall

variable {Carry : Type} (C : CaptureConfig Carry)

/-- A call that has applied nothing. -/
def fresh (drain : CaptureDrain) (callMetadataBound : Bool) : CaptureCall Carry where
  callMetadataDigest := drain.callMetadataDigest C.hash
  callMetadataBound := callMetadataBound
  turn := ⟨.opened C.recorder, 0⟩
  carry := none
  applied := 0
  digests := []
  outcomes := []
  identityDeclared := false
  firstObservedMs := none
  lastObservedMs := none
  lossy := false
  finalized := false
  restarted := false
  retry := none
  recordLimitRefusal := none

variable (call : CaptureCall Carry) (drain : CaptureDrain)

/-- `_classify` -/
def classify : Except CaptureError Decision :=
  let sequence := drain.drainSequence
  if !matchesCallMetadata C.hash drain call.callMetadataBound (some call.callMetadataDigest) then
    .error (.conflict .metadata sequence)
  else if sequence ≤ call.applied then
    if (digestOf call.digests sequence).any (·.isOf C.hash drain) then .ok .replay
    else .error (.conflict .rewrites sequence)
  else if call.retry.any (fun retry => !retry.isOf C.hash drain) then
    .error (.conflict .interrupted sequence)
  else if sequence = call.applied + 1 then .ok .apply
  else
    match drain.resync with
    | some resync =>
        if resync.missedThrough = sequence - 1 ∧ resync.missedFrom ≤ call.applied + 1 then
          .ok (.applyGap resync)
        else if resync.missedFrom ≤ call.applied then
          .error (.conflict .resyncApplied resync.missedFrom)
        else .error (.gap (call.applied + 1))
    | none => .error (.gap (call.applied + 1))

/-- `_digest_version_for` -/
def digestVersionFor : DigestVersion :=
  match call.retry with
  | some retry => if retry.sequence = drain.drainSequence then retry.version else .current
  | none => .current

/-- The drain as this call would remember it. -/
def identityOf : DrainIdentity :=
  let version := call.digestVersionFor drain
  ⟨drain.drainSequence, drain.digest C.hash version, version⟩

/-! ## Recording a drain -/

/-- Records on the turn; `false` when a verb raises. -/
def recording (ops : List RecorderOp) : Bool × CaptureCall Carry :=
  let (ok, turn) := call.turn.recordAll C.recorder ops
  (ok, { call with turn := turn })

/-- Coverage alone: its verb never raises. -/
def noting (signal availability reason : String) (dropped : Option ℕ) : CaptureCall Carry :=
  { call with
    turn := { call.turn with
      recorder := call.turn.recorder.recordCoverage C.recorder
        ⟨signal, availability, some reason, dropped⟩ } }

/-- `_observe_samples`: the earliest and the latest reading. -/
def observeSamples : CaptureCall Carry :=
  (drain.snapshots ++ drain.deviceEvents).foldl
    (fun call sample =>
      match sample.timestampMs with
      | none => call
      | some reading =>
          { call with
            firstObservedMs := some (call.firstObservedMs.elim reading (min reading))
            lastObservedMs := some (call.lastObservedMs.elim reading (max reading)) })
    call

/-- The drains a declared gap lost: the claim, less the prefix applied. -/
def lostDrains (applied : ℕ) (resync : ResyncClaim) : ℕ :=
  resync.missedThrough + 1 - max resync.missedFrom (applied + 1)

/-- The call's identity is the client's own word: noted once. -/
def declareIdentity : CaptureCall Carry :=
  if call.identityDeclared then call
  else { call.noting C IDENTITY_SIGNAL "partial" IDENTITY_REASON none with
    identityDeclared := true }

/-- The first drain after a restart notes that the carry was lost. -/
def crossRestart : CaptureCall Carry :=
  if call.restarted then
    { call.noting C STATS_CONTINUITY_SIGNAL "partial" STATS_CONTINUITY_RESTART_REASON none with
      carry := none
      restarted := false }
  else call

/-- A gap declares its loss, and drops the carry. -/
def declareLoss (decision : Decision) : CaptureCall Carry :=
  match decision with
  | .applyGap resync =>
      { (call.noting C DRAIN_SEQUENCE_SIGNAL "partial" resync.reason
            (some (lostDrains call.applied resync))).noting C STATS_CONTINUITY_SIGNAL "partial"
          STATS_CONTINUITY_REASON none with
        carry := none }
  | .apply | .replay => call

/-- What precedes a drain's facts. -/
def settleBoundary (decision : Decision) : CaptureCall Carry :=
  ((call.declareIdentity C).crossRestart C).declareLoss C decision

/-- `_namespace_client_coverage` -/
def namespaceClientCoverage (signal : String) : String :=
  if "browser.".toList.isPrefixOf signal.toList then signal else "browser." ++ signal

def clientCoverage : List RecorderOp :=
  drain.coverage.map fun note =>
    .coverage ⟨namespaceClientCoverage note.signal, note.availability, some note.reason,
      note.dropped⟩

def rejections : List RecorderOp :=
  (drain.rejectionCoverage.filter (0 < ·.count)).map fun note =>
    .coverage ⟨note.signal.label, "partial", some note.reason, none⟩

/-- `apply_facts` -/
def applyFacts (facts : EngineFacts) : List RecorderOp :=
  (facts.coverage.map fun note =>
      .coverage ⟨note.signal.label, note.availability, some note.reason, none⟩) ++
    facts.drafts.map .fact

/-- `_journal_facts` -/
def journalFacts : Bool × CaptureCall Carry :=
  let facts := C.applyWebrtcStats call.carry drain.snapshots
  match call.recording C (clientCoverage drain ++ rejections drain ++
      applyFacts facts.toEngineFacts) with
  | (false, call) => (false, call)
  | (true, call) =>
      { call with carry := facts.carry }.recording C (applyFacts (C.applyAudioGraph drain.deviceEvents))

/-- A fact of the call's own bounds. -/
def boundFact (kind : FactKind) (name : String) (value : Option ℚ) (atMs : ℚ) : RecorderOp :=
  .fact ⟨kind, name, value, DURATION_SOURCE_FIELD, atMs, []⟩

/-- What an observed close records before the finalize entry. -/
def closeOps (first : Option ℚ) (endMs : ℚ) : List RecorderOp :=
  (first.map (boundFact .event CLIENT_CAPTURE_STARTED none)).toList ++
    [boundFact .event CLIENT_CALL_ENDED none endMs] ++
    ((first.filter (· ≤ endMs)).map fun first =>
      boundFact .qualitySample OBSERVED_CALL_DURATION (some (endMs - first)) endMs).toList ++
    [.coverage ⟨CALL_CLOSE_SIGNAL, "available", some CALL_CLOSE_REASON, none⟩]

/-- What an abandoned call records: how far the observer saw. -/
def abandonOps (first last : Option ℚ) : List RecorderOp :=
  (match first, last with
    | some first, some last =>
        if first ≤ last then
          [boundFact .qualitySample OBSERVED_CAPTURE_EXTENT (some (last - first)) last]
        else []
    | _, _ => []) ++
    [.coverage ⟨CALL_DURATION_SIGNAL, "partial", some CALL_DURATION_UNOBSERVED_REASON, none⟩]

/-- `_record_end` -/
def recordEnd (ending : CaptureEnd) : Bool × CaptureCall Carry :=
  if ending.finalizes then
    match call.recording C (closeOps call.firstObservedMs ending.timestampMs) with
    | (false, call) => (false, call)
    | (true, call) =>
        (true, { call with
          turn := { call.turn with
            recorder := call.turn.recorder.finalizeJournal ending.timestampMs
              (if call.lossy then STATUS_INCOMPLETE else STATUS_COMPLETE) } })
  else call.recording C (abandonOps call.firstObservedMs call.lastObservedMs)

/-- The call when a drain's facts are derived: its samples observed, its
loss flagged, its boundary settled. -/
def atFacts (decision : Decision) : CaptureCall Carry :=
  let gap := match decision with
    | .applyGap _ => true
    | .apply | .replay => false
  let call := call.observeSamples drain
  { call with lossy := call.lossy || gap || call.restarted || drain.declaresLoss }.settleBoundary C
    decision

/-- What `_process_drain` records of a drain: `false` when a verb raised,
with what was recorded before it. -/
def project (decision : Decision) : Bool × CaptureCall Carry :=
  match (call.atFacts C drain decision).journalFacts C drain with
  | (false, call) => (false, call)
  | (true, call) =>
      match drain.ending with
      | none => (true, call)
      | some ending => call.recordEnd C ending

/-! ## Publishing a drain -/

/-- The drain's entries, and the call once they are its own. -/
def settle (identity : DrainIdentity) : List JournalEntry × CaptureCall Carry :=
  let (entries, recorder) := call.turn.recorder.takeNew
  (entries,
    { call with
      turn := { call.turn with recorder := recorder }
      applied := drain.drainSequence
      digests := rememberDigest call.digests identity
      finalized := drain.finalizes
      retry := none })

/-- `_remember_outcome`: as many as digests. -/
def rememberOutcome (outcome : DrainOutcome) : CaptureCall Carry :=
  let outcomes := call.outcomes ++ [(drain.drainSequence, outcome)]
  { call with outcomes := outcomes.drop (outcomes.length - DIGEST_RING_SIZE) }

end CaptureCall

/-! ## Taking a drain's entries -/

namespace CaptureConfig

variable {Carry : Type} (C : CaptureConfig Carry)

/-- The entries are the registry's to take: governed, and headed by the
journal's header where the session is new and nowhere else. -/
def preflightEntries (created : Bool) : List JournalEntry → Bool
  | [] => false
  | entry :: entries =>
      (if created then entry = .opened else entry ≠ .opened) && C.governed entry &&
        entries.all fun entry => entry ≠ .opened && C.governed entry

/-- Entries framed in order, within the record limit and the frame cap. -/
def frameEntries : ℕ → List JournalEntry → Except CaptureError Bytes
  | _, [] => .ok []
  | sequence, entry :: entries =>
      if C.maxJournalRecords < sequence then .error .journalLimit
      else
        match C.codec.encodeFrame sequence entry with
        | none => .error .value
        | some frame => (frameEntries (sequence + 1) entries).map (frame ++ ·)

end CaptureConfig

end Earshot
