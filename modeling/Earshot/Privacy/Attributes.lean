import Mathlib.Data.List.Infix
import Earshot.Privacy.Labels
import Mathlib.Data.Rat.Defs
/-!
# Attributes

An attribute is kept when the policy allows the class of its key, and its
value is one the key may have. What is left out is told by the digest of its
key, its class and a reason.
-/

namespace Earshot

namespace Privacy

variable (py : Python) (policy : CapturePolicy)

/-! ## Values -/

/-- The models of the contract that a record is made of. -/
inductive ModelType where
  | adapter
  | participant
  | audioFormat
  | audioStream
  | coverage
  | timePoint
  | timeRange
  | evidence
  | causalLink
  | errorRecord
  | operation
  | event
  | qualityMeasurement
  | qualitySample
  | consentRecord
  | retentionPolicy
  | byteRange
  | mediaLocator
  | mediaRef
  | clockDomain
  | clockRelation
  deriving DecidableEq

/-- A JSON value, or a model with its declared fields and its extra ones. A
float is none where it is not finite. -/
inductive Value where
  | null
  | bool (b : Bool)
  | int (n : Int)
  | float (x : Option Rat)
  | str (s : String)
  | seq (items : List Value)
  | map (entries : List (String × Value))
  | model (type : ModelType) (fields extra : List (String × Value))

/-! ## Keys -/

def SAFE_EXACT : List String :=
  ["service.name", "service.namespace", "service.version", "service.instance.id",
    "deployment.environment.name", "telemetry.sdk.name", "telemetry.sdk.language",
    "telemetry.sdk.version", "gen_ai.operation.name", "gen_ai.conversation.id",
    "gen_ai.system", "gen_ai.provider.name", "gen_ai.request.model", "gen_ai.response.model",
    "gen_ai.output.type", "gen_ai.usage.input_tokens", "gen_ai.usage.output_tokens",
    "error.type", "session.id", "field_key_sha256", "earshot.operation.name",
    "earshot.operation.id", "earshot.request.id", "earshot.language.code",
    "earshot.language.probability", "earshot.stt.mode", "earshot.framework.name",
    "earshot.framework.metric.name", "earshot.framework.operation.name",
    "earshot.framework.version", "earshot.participant.id", "earshot.stream.id",
    "earshot.turn.id", "earshot.turn.index", "earshot.call.ended",
    "earshot.turn.reported_latency_ms", "earshot.turn.timeline_continuous",
    "earshot.stt.usage.audio_seconds", "earshot.tts.usage.character_count",
    "earshot.tts.voice", "earshot.link.type", "earshot.link.target_scope",
    "earshot.clock.domain.id", "earshot.time.monotonic_nano",
    "earshot.time.observed_unix_nano", "earshot.time.uncertainty_nano",
    "earshot.evidence.source", "earshot.evidence.observer", "earshot.source.field",
    "earshot.source.event.name", "earshot.source.name_sha256", "earshot.source.status_sha256",
    "earshot.source.schema_url_sha256", "earshot.source.resource_schema_url_sha256",
    "earshot.evidence.method", "earshot.evidence.method_version",
    "earshot.evidence.confidence", "earshot.evidence.availability", "earshot.event.id",
    "earshot.event.name", "earshot.privacy.capture_class", "earshot.quality.aggregation",
    "earshot.correlation", "earshot.chronology", "earshot.unit_basis", "lk.response.ttft",
    "lk.response.ttfb", "lk.eou.endpointing_delay", "lk.eou.transcription_delay",
    "lk.end_of_turn_delay", "lk.e2e_latency", "lk.generation_id", "lk.parent_generation_id",
    "lk.participant_id", "lk.participant_kind", "lk.speech_id", "lk.job_id", "lk.interrupted",
    "lk.transcript_confidence", "lk.transcription_delay", "turn.ended_by_conversation_end",
    "turn.user_bot_latency_seconds", "turn.was_interrupted", "conversation.id",
    "conversation.type", "earshot.conversation.item.id", "earshot.conversation.role",
    "turn.number", "turn.type", "turn.duration_seconds", "metrics.ttfb",
    "metrics.character_count"]

def SAFE_PREFIXES : List String :=
  ["gen_ai.usage.", "earshot.metric.", "earshot.duration.", "earshot.integration.tvic."]

/-- `is_safe_metadata_key` -/
def isSafeMetadataKey (key : String) : Bool :=
  SAFE_EXACT.contains key || SAFE_PREFIXES.any fun p => p.toList.isPrefixOf key.toList

def contains (value pattern : String) : Bool := decide (pattern.toList <:+: value.toList)

/-- `_CLASS_PATTERNS` -/
def CLASS_PATTERNS : List (CaptureClass × List String) :=
  [(.transcript, ["transcript", "caption", "utterance.text", "speech.text"]),
    (.audio, ["audio", "recording", "waveform", "media.uri", "media.url"]),
    (.toolPayload, ["tool.arguments", "tool.result", "tool.args", "function.arguments"]),
    (.diagnosticPayload,
      ["error.message", "exception.message", "exception.stacktrace", "log.body"]),
    (.modelPayload,
      ["prompt", "completion", "message", "system_instruction", "gen_ai.input",
        "gen_ai.output.messages"]),
    (.identity, ["phone_number", "caller_id", "user.email", "participant.name"])]

/-- `classify_attribute` -/
def classifyAttribute (key : String) : CaptureClass :=
  let lowered := py.lower key
  if isSafeMetadataKey key then .metadata
  else if contains lowered ".usage." && ("lk.".toList.isPrefixOf lowered.toList ||
      "gen_ai.".toList.isPrefixOf lowered.toList) then .metadata
  else ((CLASS_PATTERNS.find? fun item => item.2.any (contains lowered)).map (·.1)).getD .metadata

/-- `is_unobservable_heard_key` -/
def isUnobservableHeardKey (key : String) : Bool :=
  let normalized := (py.lower key).toList.map fun c => if c = '-' then '_' else c
  decide ("heard_at".toList <:+: normalized) || ".heard".toList.isSuffixOf normalized

/-- `is_locator_attribute_key` -/
def isLocatorAttributeKey (key : String) : Bool :=
  let normalized := py.lower key
  ["uri", "url"].contains normalized ||
    [".uri", ".url", "_uri", "_url"].any fun suffix => suffix.toList.isSuffixOf normalized.toList

/-! ## Locators -/

def LOCATOR_CREDENTIAL_NAMES : List String :=
  ["access_token", "api_key", "key", "sig", "signature", "token", "x-amz-credential",
    "x-amz-signature", "x-goog-credential", "x-goog-security-token", "x-goog-signature"]

def LOCATOR_SIGNED_PREFIXES : List String :=
  ["x-amz-", "x-goog-"]

/-- `_locator_name_is_credential` -/
def locatorNameIsCredential (name : String) : Bool :=
  let normalized := py.lower (py.strip name)
  LOCATOR_CREDENTIAL_NAMES.contains normalized ||
    LOCATOR_SIGNED_PREFIXES.any fun p => p.toList.isPrefixOf normalized.toList

inductive LocatorSafety where
  | portable
  | credential
  | invalid
  deriving DecidableEq

/-- What stands before the first `=`. -/
def parameterName (item : List Char) : String := String.ofList (item.takeWhile (· != '='))

/-- The path parameters: what follows the first `;` of each segment with one. -/
def pathParameters (path : String) : List (List Char) :=
  (((py.unquote path).toList.splitOn '/').filter fun segment => segment.contains ';').map
    fun segment => (segment.dropWhile (· != ';')).drop 1

def fragmentNames (fragment : String) : List String :=
  ((((py.unquote fragment).toList.splitOnP fun c => c == '&' || c == ';').filter
    fun item => !item.isEmpty).map parameterName)

/-- `media_locator_safety` -/
def mediaLocatorSafety (value : String) : LocatorSafety :=
  if value.isEmpty || decide (2048 < value.length) then .invalid
  else if value.toList.any isUnprintable then .invalid
  else
    match py.urlsplit value with
    | none => .invalid
    | some parsed =>
        match py.queryNames parsed.query with
        | none => .invalid
        | some queryNames =>
            let parameters := pathParameters py parsed.path
            let parameterNames := parameters.flatMap fun p => (p.splitOn ';').map parameterName
            if parsed.username.isSome || parsed.password.isSome ||
                (queryNames.map py.lower).any (locatorNameIsCredential py) ||
                parameterNames.any (locatorNameIsCredential py) ||
                (fragmentNames py parsed.fragment).any (locatorNameIsCredential py) then
              .credential
            else if parsed.scheme != "https" || parsed.hostname.isNone ||
                !parsed.fragment.isEmpty || !parameters.isEmpty then .invalid
            else .portable

/-! ## Values of metadata -/

def IJSON_INTEGER_MAX : ℕ := 9007199254740991

def DIGEST_METADATA_KEYS : List String :=
  ["earshot.source.name_sha256", "earshot.source.status_sha256",
    "earshot.source.schema_url_sha256", "earshot.source.resource_schema_url_sha256",
    "field_key_sha256"]

def BOOLEAN_METADATA_KEYS : List String :=
  ["lk.interrupted", "earshot.call.ended", "earshot.turn.timeline_continuous",
    "turn.ended_by_conversation_end", "turn.was_interrupted",
    "earshot.metric.connection.reused", "earshot.metric.interruption.accepted",
    "earshot.metric.interruption.resumed", "earshot.metric.request.cancelled",
    "earshot.metric.request.streamed"]

def INTEGER_METADATA_KEYS : List String :=
  ["earshot.turn.index", "turn.number", "metrics.character_count",
    "gen_ai.usage.input_tokens", "gen_ai.usage.output_tokens",
    "gen_ai.usage.cache_read.input_tokens", "gen_ai.usage.cache_creation.input_tokens",
    "gen_ai.usage.reasoning_tokens", "earshot.tts.usage.character_count"]

def NUMERIC_METADATA_KEYS : List String :=
  ["lk.response.ttft", "lk.response.ttfb", "lk.eou.endpointing_delay",
    "lk.eou.transcription_delay", "lk.end_of_turn_delay", "lk.e2e_latency",
    "earshot.turn.reported_latency_ms", "earshot.stt.usage.audio_seconds",
    "lk.transcript_confidence", "lk.transcription_delay", "turn.duration_seconds",
    "turn.user_bot_latency_seconds", "metrics.ttfb"]

def LANGUAGE_CODE_METADATA_KEYS : List String :=
  ["earshot.language.code"]

def PROBABILITY_METADATA_KEYS : List String :=
  ["earshot.language.probability"]

def DECIMAL_METADATA_KEYS : List String :=
  ["earshot.time.monotonic_nano", "earshot.time.observed_unix_nano",
    "earshot.time.uncertainty_nano"]

def TVIC_STRING_METADATA_KEYS : List String :=
  ["earshot.integration.tvic.epoch", "earshot.integration.tvic.fact_id",
    "earshot.integration.tvic.agent_id", "earshot.integration.tvic.audio_error_code",
    "earshot.integration.tvic.cancel_reason", "earshot.integration.tvic.cause",
    "earshot.integration.tvic.channel", "earshot.integration.tvic.drop_reason",
    "earshot.integration.tvic.error_category", "earshot.integration.tvic.error_code",
    "earshot.integration.tvic.status", "earshot.integration.tvic.terminal_source"]

def SEMANTIC_METADATA_KEYS : List String :=
  ["earshot.operation.name", "earshot.framework.name", "earshot.framework.metric.name",
    "earshot.framework.operation.name", "earshot.link.type", "earshot.link.target_scope",
    "earshot.evidence.source", "earshot.evidence.observer", "earshot.evidence.method",
    "earshot.evidence.confidence", "earshot.evidence.availability", "earshot.event.name",
    "earshot.privacy.capture_class", "earshot.quality.aggregation", "earshot.metric.basis",
    "earshot.correlation", "earshot.chronology", "earshot.unit_basis", "earshot.stt.mode",
    "gen_ai.operation.name", "gen_ai.output.type", "conversation.type",
    "earshot.conversation.role", "turn.type"]

def VERSION_METADATA_KEYS : List String :=
  ["service.version", "telemetry.sdk.version", "earshot.framework.version",
    "earshot.evidence.method_version"]

def SOURCE_METADATA_KEYS : List String :=
  ["earshot.source.field", "earshot.source.event.name"]

/-- A string that is safe. -/
def isText (safe : String → Bool) : Value → Bool
  | .str s => safe s
  | _ => false

/-- `_safe_scalar_metadata` -/
def safeScalarMetadata : Value → Bool :=
  isText fun s => decide (1 ≤ s.length) && decide (s.length ≤ 256) &&
    s.toList.all fun c => decide (0x20 ≤ c.toNat) && decide (c.toNat ≠ 0x7F)

/-- What `is_safe_unknown_metadata_value` asks of a scalar. -/
def isSafeUnknownScalar : Value → Bool
  | .null => true
  | .bool _ => true
  | .int n => decide (n.natAbs ≤ IJSON_INTEGER_MAX)
  | .float x => x.isSome
  | _ => false

/-- `is_safe_unknown_metadata_value` -/
def isSafeUnknownMetadataValue : Value → Bool
  | .seq items => items.all isSafeUnknownScalar
  | value => isSafeUnknownScalar value

/-- A number that is no less than zero, as the integer keys want it. -/
def isCount : Value → Bool
  | .int n => decide (0 ≤ n) && decide (n ≤ IJSON_INTEGER_MAX)
  | _ => false

def isQuantity : Value → Bool
  | .int n => decide (0 ≤ n) && decide (n ≤ IJSON_INTEGER_MAX)
  | .float (some x) => decide (0 ≤ x)
  | _ => false

def isProbability : Value → Bool
  | .int n => decide (0 ≤ n) && decide (n ≤ 1)
  | .float (some x) => decide (0 ≤ x) && decide (x ≤ 1)
  | _ => false

/-- `_SAFE_LANGUAGE_CODE` -/
def isLanguageCode (value : String) : Bool :=
  match value.toList.splitOn '-' with
  | [] => false
  | first :: rest => decide (2 ≤ first.length) && decide (first.length ≤ 8) &&
      first.all Char.isAlpha && rest.all fun part => decide (1 ≤ part.length) &&
        decide (part.length ≤ 8) && part.all Char.isAlphanum

def UINT64_DECIMAL_MAX : String := "18446744073709551615"

/-- A decimal, without leading zeros, of 64 bits. -/
def isDecimalNano (value : String) : Bool :=
  (value == "0" || (value.toList.all Char.isDigit && !value.isEmpty &&
      value.toList.head? != some '0')) &&
    (decide (value.length < 20) || (decide (value.length = 20) &&
      decide (value ≤ UINT64_DECIMAL_MAX)))

/-- `metadata_value_allowed` -/
def metadataValueAllowed (key : String) (value : Value) : Bool :=
  if DIGEST_METADATA_KEYS.contains key then
    isText (fun s => decide (s.length = 64) && s.toList.all isHex) value
  else if BOOLEAN_METADATA_KEYS.contains key then (value matches .bool _)
  else if INTEGER_METADATA_KEYS.contains key then isCount value
  else if NUMERIC_METADATA_KEYS.contains key then isQuantity value
  else if LANGUAGE_CODE_METADATA_KEYS.contains key then
    isText (fun s => decide (s.length ≤ 63) && isLanguageCode s) value
  else if PROBABILITY_METADATA_KEYS.contains key then isProbability value
  else if DECIMAL_METADATA_KEYS.contains key then isText isDecimalNano value
  else if TVIC_STRING_METADATA_KEYS.contains key then safeScalarMetadata value
  else if SEMANTIC_METADATA_KEYS.contains key then isText isSafeSemanticLabel value
  else if VERSION_METADATA_KEYS.contains key then isText isSafeVersionLabel value
  else if SOURCE_METADATA_KEYS.contains key then
    isText (fun s => sanitizeSourceLabel py s == s) value
  else if SAFE_EXACT.contains key then safeScalarMetadata value
  else isSafeUnknownMetadataValue value

/-! ## Portable values -/

mutual

/-- `snapshot_portable_value`: none where it raises. -/
def snapshotPortableValue (depth : ℕ) : Value → Option Value
  | .null => if 64 < depth then none else some .null
  | .bool b => if 64 < depth then none else some (.bool b)
  | .int n =>
      if 64 < depth then none
      else if IJSON_INTEGER_MAX < n.natAbs then none
      else some (.int n)
  | .float x => if 64 < depth then none else if x.isNone then none else some (.float x)
  | .str s => if 64 < depth then none else some (.str s)
  | .seq items =>
      if 64 < depth then none else (snapshotItems (depth + 1) items).map .seq
  | .map entries =>
      if 64 < depth then none else (snapshotEntries (depth + 1) entries).map .map
  | .model _ _ _ => none

def snapshotItems (depth : ℕ) : List Value → Option (List Value)
  | [] => some []
  | item :: items =>
      match snapshotPortableValue depth item with
      | none => none
      | some item' => (snapshotItems depth items).map (item' :: ·)

def snapshotEntries (depth : ℕ) : List (String × Value) → Option (List (String × Value))
  | [] => some []
  | (key, child) :: entries =>
      match snapshotPortableValue depth child with
      | none => none
      | some child' => (snapshotEntries depth entries).map ((key, child') :: ·)

end

/-- What a key of a governed map may be, and its value. -/
def nestedMetadataAllowed (key : String) (child : Value) : Bool :=
  isSafeSemanticLabel key && !isUnobservableHeardKey py key &&
    decide (classifyAttribute py key = .metadata) &&
    (!isSafeMetadataKey key || metadataValueAllowed py key child) &&
    !(isLocatorAttributeKey py key &&
      isText (fun s => decide (mediaLocatorSafety py s ≠ .portable)) child)

mutual

/-- `_is_portable_attribute_value` -/
def isPortableAttributeValue (govern : Bool) (depth : ℕ) : Value → Bool
  | .null => decide (depth ≤ 64)
  | .bool _ => decide (depth ≤ 64)
  | .int n => decide (depth ≤ 64) && decide (n.natAbs ≤ IJSON_INTEGER_MAX)
  | .float x => decide (depth ≤ 64) && x.isSome
  | .str _ => decide (depth ≤ 64)
  | .seq items => decide (depth ≤ 64) && portableItems govern (depth + 1) items
  | .map entries => decide (depth ≤ 64) && portableEntries govern (depth + 1) entries
  | .model _ _ _ => false

def portableItems (govern : Bool) (depth : ℕ) : List Value → Bool
  | [] => true
  | item :: items =>
      isPortableAttributeValue govern depth item && portableItems govern depth items

def portableEntries (govern : Bool) (depth : ℕ) : List (String × Value) → Bool
  | [] => true
  | (key, child) :: entries =>
      (!govern || nestedMetadataAllowed py key child) &&
        isPortableAttributeValue govern depth child && portableEntries govern depth entries

end

/-! ## Sanitizing -/

/-- `Omission` -/
structure Omission where
  fieldKeySha256 : HexDigest
  captureClass : CaptureClass
  reason : String

/-- Whether the policy allows a key. -/
def keyAllowed (key : String) : Bool :=
  let captureClass := classifyAttribute py key
  policy.allows captureClass && isSafeSemanticLabel key &&
    (decide (captureClass ≠ .metadata) ||
      (isSafeMetadataKey key || policy.allows .extensionPayload)) &&
    !isUnobservableHeardKey py key

/-- How safe a text under a locator's key is. -/
def locatorSafety (key : String) : Value → LocatorSafety
  | .str s => if isLocatorAttributeKey py key then mediaLocatorSafety py s else .portable
  | _ => .portable

/-- The value of an allowed key that is kept, or why it is not. -/
def sanitizeValue (key : String) (value : Value) : Except String Value :=
  let captureClass := classifyAttribute py key
  match snapshotPortableValue 0 value with
  | none => .error "unsafe_attribute_key_or_value"
  | some snapshot =>
      if captureClass = .metadata ∧ isSafeMetadataKey key = true ∧
          metadataValueAllowed py key snapshot = false then
        .error "unsafe_attribute_key_or_value"
      else
        match locatorSafety py key snapshot with
        | .credential => .error "credential_bearing_locator"
        | .invalid => .error "invalid_media_locator"
        | .portable =>
            if isPortableAttributeValue py
                (decide (captureClass = .metadata) && !isSafeMetadataKey key) 0 snapshot then
              .ok snapshot
            else .error "unsafe_attribute_key_or_value"

/-- One turn of `sanitize_attributes`. -/
def sanitizeAttribute (key : String) (value : Value) : Except Omission Value :=
  let omission := Omission.mk (py.sha256 key) (classifyAttribute py key)
  if keyAllowed py policy key then
    match sanitizeValue py key value with
    | .ok snapshot => .ok snapshot
    | .error reason => .error (omission reason)
  else if isUnobservableHeardKey py key then .error (omission "unobservable_claim")
  else .error (omission "capture_class_disabled")

/-- `sanitize_attributes` -/
def sanitizeAttributes : List (String × Value) → List (String × Value) × List Omission
  | [] => ([], [])
  | (key, value) :: attributes =>
      let rest := sanitizeAttributes attributes
      match sanitizeAttribute py policy key value with
      | .ok snapshot => ((key, snapshot) :: rest.1, rest.2)
      | .error omission => (rest.1, omission :: rest.2)

end Privacy

end Earshot
