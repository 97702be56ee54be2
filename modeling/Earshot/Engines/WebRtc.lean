import Earshot.Browser.Call
import Mathlib.Data.List.Sort
/-!
# The `getStats` engine

Facts are derived from consecutive snapshots: deltas of counters between
two, and readings of one. What a later snapshot is compared to is the carry,
so a call captured as several segments is derived as one. Values are exact:
a float's rounding is not modelled.
-/

namespace Earshot

namespace WebRtc

/-! ## Snapshots -/

/-- A member of a report. `other` is a list, a null, or a float that is not
finite; a key that is not a string is `none`. -/
inductive Member where
  | number (value : ℚ)
  | text (value : String)
  | flag (value : Bool)
  | mapping (entries : List (Option String × Member))
  | other

abbrev Stat := List (Option String × Member)

/-- Statistics by their id. -/
abbrev Stats := List (String × Stat)

def member (stat : Stat) (key : String) : Option Member :=
  (stat.find? (·.1 = some key)).map (·.2)

/-- `_number` -/
def number (stat : Stat) (key : String) : Option ℚ :=
  match member stat key with
  | some (.number value) => some value
  | _ => none

/-- `_string` -/
def string (stat : Stat) (key : String) : Option String :=
  match member stat key with
  | some (.text value) => if value = "" then none else some value
  | _ => none

/-- `_bool`, as it is tested. -/
def bool (stat : Stat) (key : String) : Bool :=
  match member stat key with
  | some (.flag value) => value
  | _ => false

/-- `_type` -/
def type (stat : Stat) : Option String := string stat "type"

def statOf (stats : Stats) (id : String) : Option Stat := (stats.find? (·.1 = id)).map (·.2)

/-- `sorted(stats.items())` -/
def sortedStats (stats : Stats) : Stats := stats.insertionSort fun a b => ¬ b.1 < a.1

/-- One snapshot, where it is not malformed. -/
def normalizeSnapshot : Member → Option (ℚ × Stats)
  | .mapping snapshot =>
      match number snapshot "timestamp_ms", member snapshot "stats" with
      | some timestamp, some (.mapping stats) =>
          some (timestamp, stats.filterMap fun entry =>
            match entry with
            | (some id, .mapping stat) => some (id, stat)
            | _ => none)
      | _, _ => none
  | _ => none

/-- `_normalize_snapshots` -/
def normalizeSnapshots (snapshots : List Member) : List (ℚ × Stats) :=
  snapshots.filterMap normalizeSnapshot

/-! ## What is derived -/

structure EngineMeasurement where
  name : String
  value : ℚ
  unit : String
  atMs : ℚ
  source : String
  confidence : String
  qualityKind : String
  sourceField : String
  basis : String
  deriving DecidableEq

structure EngineEvent where
  name : String
  atMs : ℚ
  participant : String
  source : String
  confidence : String
  sourceField : String
  deriving DecidableEq

/-- Facts as they are derived; `notes` in the order they are made. -/
structure Emitted where
  measurements : List EngineMeasurement
  events : List EngineEvent
  notes : List EngineCoverage

def Emitted.none : Emitted := ⟨[], [], []⟩

def Emitted.append (e e' : Emitted) : Emitted :=
  ⟨e.measurements ++ e'.measurements, e.events ++ e'.events, e.notes ++ e'.notes⟩

instance : Append Emitted := ⟨Emitted.append⟩

def SOURCE : String := "webrtc_stats"
def QUALITY_KIND : String := "transport.quality"
def PACKET_LOSS : String := "packet_loss_ratio"
def JITTER : String := "jitter"
def ROUND_TRIP_TIME : String := "round_trip_time"
def JITTER_BUFFER_DELAY : String := "jitter_buffer_delay"
def CONCEALMENT : String := "concealment_ratio"
def PROCESSING_DELAY : String := "processing_delay"
def PLAYOUT_DELAY : String := "playout_delay"
def SYNTHESIZED_RATIO : String := "synthesized_samples_ratio"
def RECONNECTING : String := "earshot.transport.reconnecting"
def ROUTE_CHANGED : String := "earshot.transport.route_changed"
def RENDER_STALE : String := "earshot.audio.render.stale"
def DOWN_STATES : List String := ["disconnected", "failed", "closed"]
def UP_STATES : List String := ["connected", "completed", "succeeded"]
def SECONDS_TO_MS : ℚ := 1000
def GROWTH_EPSILON_MS : ℚ := 1 / 1000000

/-- `_measurement` -/
def measurement (name : String) (value : ℚ) (unit : String) (atMs : ℚ)
    (confidence sourceField : String) : Emitted :=
  ⟨[⟨name, value, unit, atMs, SOURCE, confidence, QUALITY_KIND, sourceField,
    "webrtc_stats_delta"⟩], [], []⟩

/-- `_transport_event` -/
def transportEvent (name : String) (atMs : ℚ) (sourceField : String) : Emitted :=
  ⟨[], [⟨name, atMs, "user", SOURCE, "measured", sourceField⟩], []⟩

def note (signal : EngineSignal) (availability reason : String) : Emitted :=
  ⟨[], [], [⟨signal, availability, reason⟩]⟩

/-- `_CoverageLedger`: one note a signal, the first, in the order of the
signals. -/
def coverageLedger (notes : List EngineCoverage) : List EngineCoverage :=
  (notes.foldl
      (fun ledger note => if ledger.any (·.signal = note.signal) then ledger else ledger ++ [note])
      []).insertionSort fun a b => ¬ b.signal.label < a.signal.label

/-! ## Deltas -/

/-- A counter that fell was reset. -/
inductive Delta where
  | absent
  | reset
  | of (value : ℚ)

/-- `_counter_delta` -/
def counterDelta (previous current : Stat) (key : String) : Delta :=
  match number previous key, number current key with
  | some before, some after => if after < before then .reset else .of (after - before)
  | _, _ => .absent

/-- What two deltas give: a note where either was reset. -/
def withDeltas (signal : EngineSignal) (a b : Delta) (derive : ℚ → ℚ → Emitted) : Emitted :=
  match a, b with
  | .reset, _ | _, .reset => note signal "not_observed" "counter_reset"
  | .of a, .of b => derive a b
  | _, _ => .none

/-- `_emit_packet_loss` -/
def emitPacketLoss (previous current : Stat) (atMs : ℚ) : Emitted :=
  withDeltas .packetLoss (counterDelta previous current "packetsReceived")
    (counterDelta previous current "packetsLost") fun delta lost =>
      if delta + lost ≤ 0 then .none
      else measurement PACKET_LOSS (lost / (delta + lost)) "1" atMs "measured" "packetsLost"

/-- `dict.__setitem__` -/
def setAverage (averages : List (String × ℚ)) (id : String) (average : ℚ) : List (String × ℚ) :=
  if averages.any (·.1 = id) then averages.map fun e => if e.1 = id then (id, average) else e
  else averages ++ [(id, average)]

/-- `_emit_jitter_buffer`: the averages with this interval's, and whether it
grew. -/
def emitJitterBuffer (id : String) (previous current : Stat) (atMs : ℚ)
    (averages : List (String × ℚ)) : Emitted × List (String × ℚ) × Bool :=
  match counterDelta previous current "jitterBufferDelay",
      counterDelta previous current "jitterBufferEmittedCount" with
  | .reset, _ | _, .reset => (note .jitterBuffer "not_observed" "counter_reset", averages, false)
  | .of delay, .of emitted =>
      if emitted ≤ 0 then (.none, averages, false)
      else
        let average := delay / emitted * SECONDS_TO_MS
        let before := (averages.find? (·.1 = id)).map (·.2)
        (measurement JITTER_BUFFER_DELAY average "ms" atMs "measured" "jitterBufferDelay",
          setAverage averages id average,
          before.any fun before => before + GROWTH_EPSILON_MS < average)
  | _, _ => (.none, averages, false)

/-- `_emit_concealment` -/
def emitConcealment (previous current : Stat) (atMs : ℚ) : Emitted :=
  withDeltas .concealment (counterDelta previous current "concealedSamples")
    (counterDelta previous current "totalSamplesReceived") fun concealed total =>
      if total ≤ 0 then .none
      else measurement CONCEALMENT (min 1 (concealed / total)) "1" atMs "measured"
        "concealedSamples"

/-- `_emit_processing_delay` -/
def emitProcessingDelay (previous current : Stat) (atMs : ℚ) : Emitted :=
  withDeltas .processingDelay (counterDelta previous current "totalProcessingDelay")
    (counterDelta previous current "jitterBufferEmittedCount") fun processing emitted =>
      if emitted ≤ 0 then .none
      else measurement PROCESSING_DELAY (processing / emitted * SECONDS_TO_MS) "ms" atMs
        "measured" "totalProcessingDelay"

/-- `_emit_playout` -/
def emitPlayout (previous current : Stat) (atMs : ℚ) : Emitted :=
  withDeltas .playout (counterDelta previous current "totalPlayoutDelay")
      (counterDelta previous current "totalSamplesCount") (fun delay samples =>
        if samples ≤ 0 then .none
        else measurement PLAYOUT_DELAY (delay / samples * SECONDS_TO_MS) "ms" atMs "measured"
          "totalPlayoutDelay") ++
    withDeltas .playout (counterDelta previous current "synthesizedSamplesDuration")
      (counterDelta previous current "totalSamplesDuration") fun synthesized total =>
        if total ≤ 0 then .none
        else
          measurement SYNTHESIZED_RATIO (min 1 (synthesized / total)) "1" atMs "measured"
              "synthesizedSamplesDuration" ++
            if 0 < synthesized then
              ⟨[], [⟨RENDER_STALE, atMs, "agent", SOURCE, "measured",
                "synthesizedSamplesDuration"⟩], []⟩
            else .none

/-- `_audio_inbound` -/
def audioInbound (stats : Stats) : Stats :=
  stats.filter fun entry => type entry.2 = some "inbound-rtp" &&
    ((string entry.2 "kind").or (string entry.2 "mediaType")).all (· = "audio")

/-- `_audio_playout` -/
def audioPlayout (stats : Stats) : Stats :=
  stats.filter fun entry => type entry.2 = some "media-playout" &&
    (string entry.2 "kind").all (· = "audio")

/-- The ids two snapshots share, sorted, with the statistics of both. -/
def sharedStats (previous current : Stats) : List (String × Stat × Stat) :=
  (sortedStats previous).filterMap fun entry =>
    (statOf current entry.1).map fun stat => (entry.1, entry.2, stat)

/-- `_emit_deltas` -/
def emitDeltas (previous current : Stats) (atMs : ℚ) (averages : List (String × ℚ)) :
    Emitted × List (String × ℚ) × Bool :=
  let (emitted, averages, grew) :=
    (sharedStats (audioInbound previous) (audioInbound current)).foldl
      (fun (emitted, averages, grew) (id, previous, current) =>
        let (buffer, averages, grown) := emitJitterBuffer id previous current atMs averages
        (emitted ++ (emitPacketLoss previous current atMs ++ (buffer ++
            (emitConcealment previous current atMs ++
              emitProcessingDelay previous current atMs))), averages, grown || grew))
      (.none, averages, false)
  ((sharedStats (audioPlayout previous) (audioPlayout current)).foldl
    (fun emitted (_, previous, current) => emitted ++ emitPlayout previous current atMs) emitted,
    averages, grew)

/-! ## Readings of one snapshot -/

/-- `_by_type` -/
def byType (stats : Stats) (statType : String) : List Stat :=
  ((sortedStats stats).filter fun entry => type entry.2 = some statType).map (·.2)

/-- What the transports name as selected; the last that does. -/
def selectedId (stats : Stats) : Option String :=
  (byType stats "transport").foldl
    (fun id stat => (string stat "selectedCandidatePairId").or id) none

/-- `_selected_pair` -/
def selectedPair (stats : Stats) : Option Stat :=
  match ((selectedId stats).bind (statOf stats)).filter (type · = some "candidate-pair") with
  | some pair => some pair
  | none =>
      (byType stats "candidate-pair").find? fun stat => bool stat "selected" || bool stat "nominated"

/-- `_connection_state`. The states tested have ASCII letters alone. -/
def connectionState (stats : Stats) : Option String :=
  ((byType stats "transport").findSome? fun stat =>
      ["iceState", "dtlsState", "connectionState"].findSome? (string stat)).or
    ((selectedPair stats).bind fun pair => string pair "state")
  |>.map String.toLower

abbrev Route := Option String × Option String

/-- `_selected_route` -/
def selectedRoute (stats : Stats) : Route :=
  match selectedPair stats with
  | none => (selectedId stats, none)
  | some pair =>
      (((selectedId stats).or (string pair "id")).or (string pair "candidatePairId"),
        ((string pair "localCandidateId").bind (statOf stats)).bind (string · "networkType"))

/-- Both are known, and differ. -/
def differ : Option String → Option String → Bool
  | some previous, some current => previous ≠ current
  | _, _ => false

/-- `_route_changed` -/
def routeChanged (previous current : Route) : Bool :=
  differ previous.1 current.1 || differ previous.2 current.2

/-- `_merge_route` -/
def mergeRoute : Option Route → Route → Route
  | none, current => current
  | some previous, current => (current.1.or previous.1, current.2.or previous.2)

/-- `_round_trip_seconds` -/
def roundTripSeconds (stats : Stats) : Option ℚ :=
  ((byType stats "remote-inbound-rtp").findSome? (number · "roundTripTime")).or
    ((selectedPair stats).bind fun pair =>
      (number pair "currentRoundTripTime").or (number pair "roundTripTime"))

/-- `_emit_instants` -/
def emitInstants (stats : Stats) (atMs : ℚ) : Emitted :=
  (sortedStats (audioInbound stats)).foldl
      (fun emitted entry =>
        match number entry.2 "jitter" with
        | some jitter =>
            emitted ++ measurement JITTER (jitter * SECONDS_TO_MS) "ms" atMs "measured" "jitter"
        | none => emitted) .none ++
    match roundTripSeconds stats with
    | some seconds =>
        measurement ROUND_TRIP_TIME (seconds * SECONDS_TO_MS) "ms" atMs "measured" "roundTripTime"
    | none => .none

/-! ## The loop -/

/-- `WebRtcCarry` -/
structure Carry where
  prevStats : Option Stats
  prevState : Option String
  seenDown : Bool
  prevRoute : Option Route
  lastBufferAvgMs : List (String × ℚ)
  prevTsMs : Option ℚ
  originMs : Option ℚ

def Carry.fresh (originMs : ℚ) : Carry := ⟨none, none, false, none, [], none, some originMs⟩

/-- What the state machines observed. -/
structure Flags where
  jitterBufferGrowth : Bool
  reconnected : Bool
  routeChanged : Bool
  deriving DecidableEq

def Flags.none : Flags := ⟨false, false, false⟩

def Flags.or (f f' : Flags) : Flags :=
  ⟨f.jitterBufferGrowth || f'.jitterBufferGrowth, f.reconnected || f'.reconnected,
    f.routeChanged || f'.routeChanged⟩

/-- The loop's state: the carry it leaves, and what it derived. -/
structure Loop where
  carry : Carry
  emitted : Emitted
  flags : Flags

/-- The connection state of a snapshot: the events it makes, whether a
recovery is pending, and whether one was seen. -/
def connectionStep (carry : Carry) (ordered : Bool) (atMs : ℚ) (state : String) :
    Emitted × Bool × Bool :=
  if !ordered then (.none, DOWN_STATES.contains state, false)
  else if DOWN_STATES.contains state then
    (if carry.prevState.any DOWN_STATES.contains then .none
      else transportEvent RECONNECTING atMs "iceState", true, false)
  else if UP_STATES.contains state && carry.seenDown then (.none, false, true)
  else (.none, carry.seenDown, false)

/-- One turn of the loop of `analyze_webrtc_stats`. -/
def step (baseMs : ℚ) (loop : Loop) (snapshot : ℚ × Stats) : Loop :=
  let (tsMs, stats) := snapshot
  let carry := loop.carry
  let atMs := tsMs - baseMs
  let ordered := carry.prevTsMs.all (· ≤ tsMs)
  let disorder := if ordered then .none
    else note .snapshotOrder "not_observed" "non_monotonic_snapshot"
  let averages := if ordered then carry.lastBufferAvgMs else []
  let (transport, seenDown, reconnected) := match connectionState stats with
    | some state => connectionStep carry ordered atMs state
    | none => (.none, carry.seenDown, false)
  let route := selectedRoute stats
  let moved := ordered && carry.prevRoute.any (WebRtc.routeChanged · route)
  let (deltas, averages, grew) := match carry.prevStats with
    | some previous => if ordered then emitDeltas previous stats atMs averages
        else (.none, averages, false)
    | none => (.none, averages, false)
  { carry :=
      { prevStats := some stats
        prevState := (connectionState stats).or carry.prevState
        seenDown := seenDown
        prevRoute := some (if ordered then mergeRoute carry.prevRoute route else route)
        lastBufferAvgMs := averages
        prevTsMs := some tsMs
        originMs := some baseMs }
    emitted := loop.emitted ++ (disorder ++ (transport ++ ((if moved then
      transportEvent ROUTE_CHANGED atMs "selectedCandidatePairId" else .none) ++
        (deltas ++ emitInstants stats atMs))))
    flags := loop.flags.or ⟨grew, reconnected, moved⟩ }

/-- `WebRtcFacts` -/
structure Facts where
  measurements : List EngineMeasurement
  events : List EngineEvent
  coverage : List EngineCoverage
  flags : Flags
  carry : Option Carry

/-- The earliest reading. -/
def earliest (first : ℚ × Stats) (rest : List (ℚ × Stats)) : ℚ :=
  rest.foldl (fun ms snapshot => min ms snapshot.1) first.1

/-- The state the loop starts from: the carry, where it resumes one. -/
def start (carry : Option Carry) (first : ℚ × Stats) (rest : List (ℚ × Stats)) : ℚ × Carry :=
  match carry.filter (·.prevStats.isSome) with
  | some carry => ((carry.originMs).getD (earliest first rest), carry)
  | none => (earliest first rest, .fresh (earliest first rest))

/-- `analyze_webrtc_stats` -/
def analyzeWebrtcStats (snapshots : List Member) (carry : Option Carry) : Facts :=
  match normalizeSnapshots snapshots with
  | [] => ⟨[], [], [], .none, carry⟩
  | first :: rest =>
      let (baseMs, carry) := start carry first rest
      let loop := (first :: rest).foldl (step baseMs) ⟨carry, .none, .none⟩
      ⟨loop.emitted.measurements, loop.emitted.events, coverageLedger loop.emitted.notes,
        loop.flags, some loop.carry⟩

/-- Segments one after the other, each resuming what the last left. -/
def analyzeSegments (carry : Option Carry) : List (List Member) → List Facts
  | [] => []
  | segment :: segments =>
      let facts := analyzeWebrtcStats segment carry
      facts :: analyzeSegments facts.carry segments

end WebRtc

end Earshot
