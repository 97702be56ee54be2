import Mathlib.Data.List.Basic
/-!
# Capture classes and labels

What a policy lets a recorder keep is told by class. A label is free text that
a recorder keeps only in a portable form, and otherwise replaces by a digest.
-/

namespace Earshot

namespace Privacy

inductive CaptureClass where
  | metadata
  | extensionPayload
  | transcript
  | audio
  | toolPayload
  | modelPayload
  | diagnosticPayload
  | identity
  | rawOtlp
  deriving DecidableEq

/-- `CaptureClass(value)` -/
def CaptureClass.ofName : String → Option CaptureClass
  | "metadata" => some .metadata
  | "extension_payload" => some .extensionPayload
  | "transcript" => some .transcript
  | "audio" => some .audio
  | "tool_payload" => some .toolPayload
  | "model_payload" => some .modelPayload
  | "diagnostic_payload" => some .diagnosticPayload
  | "identity" => some .identity
  | "raw_otlp" => some .rawOtlp
  | _ => none

/-- A policy enables metadata. -/
structure CapturePolicy where
  enabled : List CaptureClass
  metadata : .metadata ∈ enabled

def CapturePolicy.metadataOnly : CapturePolicy := ⟨[.metadata], List.mem_singleton.mpr rfl⟩

def CapturePolicy.allows (policy : CapturePolicy) (captureClass : CaptureClass) : Bool :=
  decide (captureClass ∈ policy.enabled)

/-! ## The standard library -/

def isHex (c : Char) : Bool := c.isDigit || (decide ('a' ≤ c) && decide (c ≤ 'f'))

/-- A digest, in hexadecimal. -/
structure HexDigest where
  text : String
  length : text.toList.length = 64
  hex : text.toList.all isHex = true

/-- `urlsplit`, of a url that it and its port are read from. -/
structure SplitResult where
  scheme : String
  netloc : String
  hostname : Option String
  username : Option String
  password : Option String
  path : String
  query : String
  fragment : String

/-- What the code asks of the standard library. -/
structure Python where
  lower : String → String
  strip : String → String
  /-- `hashlib.sha256` of a text's bytes, in hexadecimal. -/
  sha256 : String → HexDigest
  /-- `urlsplit`, then the port: none where either raises. -/
  urlsplit : String → Option SplitResult
  /-- The names of `parse_qsl`, with blank values kept. -/
  queryNames : String → Option (List String)
  unquote : String → String
  /-- `base64.b64decode` that validates. -/
  b64decode : String → Option (List UInt8)

variable (py : Python)

/-! ## Safe forms -/

def isLabelChar (c : Char) : Bool :=
  c.isLower || c.isDigit || c == '_' || c == '.' || c == '-'

/-- A lower case letter, and at most so many label characters. -/
def isLabel (most : ℕ) (value : String) : Bool :=
  match value.toList with
  | [] => false
  | c :: rest => c.isLower && decide (rest.length ≤ most) && rest.all isLabelChar

/-- `_SAFE_SHA256_LABEL` -/
def isSha256Label (value : String) : Bool :=
  "sha256:".toList.isPrefixOf value.toList &&
    decide ((value.toList.drop 7).length = 64) && (value.toList.drop 7).all isHex

/-- The numbers of a version, between dots. -/
def isDotted (value : List Char) : Bool :=
  (value.splitOn '.').all fun part => !part.isEmpty && part.all Char.isDigit

/-- `v?[0-9]+(?:\.[0-9]+)*(?:[-+][a-z0-9.-]+)?` -/
def isVersionNumber (value : List Char) : Bool :=
  let unprefixed := if value.head? = some 'v' then value.drop 1 else value
  let numbers := unprefixed.takeWhile fun c => c != '-' && c != '+'
  let suffix := unprefixed.dropWhile fun c => c != '-' && c != '+'
  isDotted numbers && (suffix.isEmpty || (!(suffix.drop 1).isEmpty &&
    (suffix.drop 1).all fun c => c.isLower || c.isDigit || c == '.' || c == '-'))

/-- `_SAFE_VERSION_LABEL` -/
def isVersion (value : String) : Bool := isLabel 127 value || isVersionNumber value.toList

/-- `is_safe_semantic_label` -/
def isSafeSemanticLabel (value : String) : Bool := isSha256Label value || isLabel 127 value

/-- `"sha256:" + hashlib.sha256(…).hexdigest()` -/
def digestLabel (value : String) : String := "sha256:" ++ (py.sha256 value).text

/-- A label is kept where it is safe, and replaced by its digest elsewhere. -/
def sanitizeLabel (safe : String → Bool) (value : String) : String :=
  if safe value then value else digestLabel py value

/-- `sanitize_semantic_label` -/
def sanitizeSemanticLabel : String → String := sanitizeLabel py isSafeSemanticLabel

def SAFE_PROVENANCE_LABELS : List String :=
  ["ChatMessage.metrics", "ITU-T P.563", "POST", "RTCPeerConnection.getStats",
    "getOutputTimestamp", "getStats"]

/-- `sanitize_provenance_label` -/
def sanitizeProvenanceLabel : String → String :=
  sanitizeLabel py fun value => SAFE_PROVENANCE_LABELS.contains value || isSafeSemanticLabel value

/-- `is_safe_version_label` -/
def isSafeVersionLabel (value : String) : Bool := isSha256Label value || isVersion value

/-- `sanitize_version_label` -/
def sanitizeVersionLabel : String → String := sanitizeLabel py isSafeVersionLabel

def SAFE_MEASUREMENT_LABELS : List String := ["packet loss ratio", "roundTripTime"]

/-- `sanitize_measurement_label` -/
def sanitizeMeasurementLabel : String → String :=
  sanitizeLabel py fun value => SAFE_MEASUREMENT_LABELS.contains value || isSafeSemanticLabel value

def SAFE_MEASUREMENT_UNITS : List String := ["1", "MOS-LQO"]

/-- `sanitize_measurement_unit` -/
def sanitizeMeasurementUnit : String → String :=
  sanitizeLabel py fun value => SAFE_MEASUREMENT_UNITS.contains value || isSafeSemanticLabel value

def SAFE_ERROR_LABELS : List String :=
  ["CancelledError", "ConnectionError", "Exception", "OSError", "RuntimeError", "TimeoutError",
    "ValueError"]

/-- `sanitize_error_label` -/
def sanitizeErrorLabel : String → String :=
  sanitizeLabel py fun value => SAFE_ERROR_LABELS.contains value || isSafeSemanticLabel value

def SAFE_SOURCE_LABELS : List String :=
  ["LiveKit span attributes", "InterruptionFrame", "InterruptionFrame+BotStartedSpeakingFrame",
    "avatar_metrics", "avatarmetrics", "lk.llm_metrics", "lk.realtime_model_metrics",
    "lk.tts_metrics", "agent_false_interruption", "agent_session", "agent_turn",
    "session_close", "conversation_item_added.item.interrupted",
    "conversation_item_added.item.metrics",
    "conversation.item.input_audio_transcription.completed", "Results", "SpeechStarted",
    "UtteranceEnd", "START_SPEECH", "END_SPEECH", "audio_end_ms", "audio_start_ms",
    "cartesia.chunk.receipt", "cartesia.done.receipt", "cartesia.error.receipt",
    "cartesia.request.sent", "channel.alternatives.confidence", "chunk", "data",
    "deepgram.Results", "deepgram.Results.from_finalize.receipt",
    "deepgram.Results.is_final.receipt", "deepgram.Results.speech_final.receipt",
    "deepgram.SpeechStarted.receipt", "deepgram.UtteranceEnd.receipt", "done", "duration",
    "error", "events.END_SPEECH.receipt", "events.START_SPEECH.receipt", "clientContent",
    "clientContent.turnComplete", "goAway", "realtimeInput", "realtimeInput.activityEnd",
    "realtimeInput.activityStart", "serverContent", "serverContent.generationComplete",
    "serverContent.interrupted", "serverContent.modelTurn.inlineData",
    "serverContent.turnComplete", "sessionResumptionUpdate", "setupComplete", "toolCall",
    "toolCall.functionCalls", "toolCallCancellation", "toolCallCancellation.ids",
    "usageMetadata", "eot_inference_metrics", "eotinferencemetrics", "eou_metrics",
    "eoumetrics", "eou_detection", "exception", "function_tool", "llm", "llm generation",
    "llm_metrics", "llmmetrics", "llm_node", "llm_request", "llm_request_run", "llm_tool_call",
    "llm_tool_result", "gen_ai.usage.cache_creation.input_tokens",
    "gen_ai.usage.cache_read.input_tokens", "gen_ai.usage.input_tokens",
    "gen_ai.usage.output_tokens", "gen_ai.usage.reasoning_tokens", "metrics.character_count",
    "metrics.audio_duration", "metrics.processing_latency", "metrics.ttfb",
    "interruption_metrics", "interruptionmetrics", "input_audio_buffer.speech_started",
    "input_audio_buffer.speech_stopped", "overlapping_speech", "realtime_model_metrics",
    "realtimemodelmetrics", "response.created", "response.done", "response.output_audio.delta",
    "response.created_to_response.done", "sarvam.data", "sarvam.data.receipt",
    "sarvam.error.code", "stt", "start", "status_code", "step_time", "stt processing",
    "stt_metrics", "sttmetrics", "tts", "tts synthesis", "tts_metrics", "tts_node",
    "tts_request", "tts_request_run", "ttsmetrics", "turn detection", "turn",
    "turn.user_bot_latency_seconds", "turn.was_interrupted", "user_interruption_detected",
    "user_turn", "vad_metrics", "vadmetrics"]

/-- `sanitize_source_label` -/
def sanitizeSourceLabel : String → String :=
  sanitizeLabel py fun value => SAFE_SOURCE_LABELS.contains value || isSha256Label value

def SAFE_OPERATION_NAMES : List String :=
  ["agent", "avatar", "framework_metric", "framework_operation", "interruption_detection",
    "llm", "render", "stt", "tool", "transport_receive", "transport_send", "tts",
    "turn_detection", "vad"]

def SAFE_EVENT_NAMES : List String :=
  ["earshot.audio.first_byte_sent", "earshot.audio.first_packet_received",
    "earshot.audio.render.started", "earshot.interruption.accepted",
    "earshot.interruption.detected", "earshot.interruption.ignored",
    "earshot.response.first_audio_generated", "earshot.response.first_token",
    "earshot.speech.ended", "earshot.transport.reconnecting", "earshot.turn.committed",
    "framework.event", "otel.span_event"]

/-- A name is kept where it is safe, and replaced by a stable one elsewhere. -/
def normalizeName (safe : List String) (stable value : String) : String × Option HexDigest :=
  if safe.contains value || isLabel 127 value then (value, none)
  else (stable, some (py.sha256 value))

/-- `normalize_operation_name` -/
def normalizeOperationName : String → String × Option HexDigest :=
  normalizeName py SAFE_OPERATION_NAMES "framework_operation"

/-- `normalize_event_name` -/
def normalizeEventName : String → String × Option HexDigest :=
  normalizeName py SAFE_EVENT_NAMES "framework.event"

/-! ## Schema URLs -/

/-- A control character, or a space. -/
def isUnprintable (c : Char) : Bool := decide (c.toNat ≤ 0x20) || decide (c.toNat = 0x7F)

/-- The portable half of `_schema_url_properties`. -/
def isPortableSchema (value : String) (parsed : SplitResult) : Bool :=
  decide (value.length ≤ 2048) && parsed.scheme == "https" && parsed.hostname.isSome &&
    parsed.username.isNone && parsed.password.isNone && parsed.query.isEmpty &&
    parsed.fragment.isEmpty && "/".toList.isPrefixOf parsed.path.toList &&
    !value.toList.any isUnprintable

/-- The canonical half of `_schema_url_properties`. -/
def isCanonicalSchema (value : String) (parsed : SplitResult) : Bool :=
  isPortableSchema value parsed && parsed.netloc == "opentelemetry.io" &&
    "/schemas/".toList.isPrefixOf parsed.path.toList &&
    isVersionNumber (parsed.path.toList.drop 9)

/-- `_schema_url_properties` -/
def schemaUrlProperties (value : String) : Bool × Bool :=
  match py.urlsplit value with
  | none => (false, false)
  | some parsed => (isPortableSchema value parsed, isCanonicalSchema value parsed)

/-- `sanitize_schema_url` -/
def sanitizeSchemaUrl (allowExtension : Bool) (value : String) :
    Option String × Option HexDigest :=
  let properties := schemaUrlProperties py value
  if properties.2 || (properties.1 && allowExtension) then (some value, none)
  else (none, some (py.sha256 value))

end Privacy

end Earshot
