import Earshot.Privacy.Attributes
/-!
# The contract of a record

Every model of the contract has declared fields, each with the values it
admits, and keeps what else it is given as extra fields.
-/

namespace Earshot

namespace Privacy

variable (py : Python)

/-! ## What a value holds -/

/-- What stands directly in a value. -/
def Value.children : Value → List Value
  | .seq items => items
  | .map entries => entries.map (·.2)
  | .model _ fields extra => fields.map (·.2) ++ extra.map (·.2)
  | _ => []

/-- What stands in a value, at any depth. -/
inductive Inside (value : Value) : Value → Prop where
  | refl : Inside value value
  | child {outer inner : Value} : inner ∈ outer.children → Inside value inner →
      Inside value outer

def lookup (name : String) (entries : List (String × Value)) : Option Value :=
  (entries.find? fun entry => entry.1 == name).map (·.2)

/-- `getattr(model, name, None)`: a declared field, or an extra one. -/
def Value.getattr (name : String) : Value → Option Value
  | .model _ fields extra => (lookup name fields).or (lookup name extra)
  | _ => none

/-! ## Fields -/

/-- What a field may be. -/
inductive FieldSpec where
  | text (admitted : String → Bool)
  | int (least : Int)
  | float
  | bool
  | number
  | attributes
  | model (type : ModelType)
  | tuple (type : ModelType)
  | optional (spec : FieldSpec)

/-- A value that a field admits. -/
def FieldSpec.admits : FieldSpec → Value → Prop
  | .text admitted, .str s => admitted s = true
  | .int least, .int n => least ≤ n
  | .float, .float _ => True
  | .bool, .bool _ => True
  | .number, .bool _ => True
  | .number, .int _ => True
  | .number, .float _ => True
  | .attributes, .map _ => True
  | .model type, .model type' _ _ => type' = type
  | .tuple type, .seq items => ∀ item ∈ items, ∃ fields extra, item = .model type fields extra
  | .optional _, .null => True
  | .optional spec, value => spec.admits value
  | _, _ => False

def nonEmptyStr : FieldSpec := .text fun s => !s.isEmpty

def opaqueId : FieldSpec := .text fun s => !s.isEmpty && decide (s.length ≤ 256)

def decimalNano : FieldSpec := .text isDecimalNano

/-- Whether a text is a decimal without leading zeros, with a sign or without. -/
def isSignedDecimal (value : String) : Bool :=
  let digits := if value.toList.head? = some '-' then value.toList.drop 1 else value.toList
  decide (digits = ['0']) || (digits.all Char.isDigit && !digits.isEmpty &&
    digits.head? != some '0')

def signedDecimalNano : FieldSpec :=
  .text fun s => isSignedDecimal s && decide (s.length ≤ 21)

/-- An identifier of so many hexadecimal digits, not all of them zero. -/
def otelId (length : ℕ) : FieldSpec :=
  .text fun s => decide (s.length = length) && s.toList.all isHex && s.toList.any (· != '0')

def sha256 : FieldSpec := .text fun s => decide (s.length = 64) && s.toList.all isHex

/-- `SemanticCode` -/
def isSemanticCode (value : String) : Bool := isLabel 255 value || isSha256Label value

def semanticCode : FieldSpec := .text isSemanticCode

/-- `VersionLabel` -/
def versionLabel : FieldSpec := .text fun s => isVersion s || isSha256Label s

def schemaUrl : FieldSpec := .text fun s => !s.isEmpty && (schemaUrlProperties py s).1

def literal (values : List String) : FieldSpec := .text fun s => values.contains s

def captureClassName : FieldSpec :=
  literal ["metadata", "extension_payload", "transcript", "audio", "tool_payload",
    "model_payload", "diagnostic_payload", "identity"]

def scope : FieldSpec := literal ["internal", "external", "unknown"]

/-! ## Models -/

/-- What an operation, an event and a sample say of their instrumentation. -/
def scopeFields : List (String × FieldSpec) :=
  [("resource", .attributes), ("resource_schema_url", .optional (schemaUrl py)),
    ("instrumentation_scope_name", .optional semanticCode),
    ("instrumentation_scope_version", .optional versionLabel),
    ("instrumentation_scope_attributes", .attributes),
    ("schema_url", .optional (schemaUrl py))]

/-- The declared fields of a model. -/
def declared : ModelType → List (String × FieldSpec)
  | .adapter => [("name", nonEmptyStr), ("version", nonEmptyStr), ("framework", nonEmptyStr),
      ("framework_version", .optional nonEmptyStr)]
  | .participant => [("participant_id", opaqueId), ("session_id", opaqueId),
      ("role", nonEmptyStr), ("endpoint_kind", .optional nonEmptyStr),
      ("pseudonymous_id", .optional nonEmptyStr), ("capture_class", captureClassName),
      ("attributes", .attributes)]
  | .audioFormat => [("encoding", nonEmptyStr), ("sample_rate_hz", .int 1), ("channels", .int 1),
      ("clock_rate_hz", .optional (.int 1))]
  | .audioStream => [("stream_id", opaqueId), ("session_id", opaqueId),
      ("participant_id", opaqueId), ("direction", nonEmptyStr), ("media_kind", nonEmptyStr),
      ("format", .optional (.model .audioFormat)), ("transport_ref", .optional opaqueId),
      ("capture_class", captureClassName), ("attributes", .attributes)]
  | .coverage => [("signal", nonEmptyStr), ("availability", nonEmptyStr),
      ("reason", .optional nonEmptyStr), ("dropped_count", .optional (.int 0)),
      ("evidence", .optional (.model .evidence)), ("attributes", .attributes)]
  | .timePoint => [("source_time_unix_nano", .optional decimalNano),
      ("observed_time_unix_nano", .optional decimalNano),
      ("monotonic_time_nano", .optional decimalNano), ("clock_domain_id", .optional opaqueId),
      ("uncertainty_nano", .optional decimalNano)]
  | .timeRange => [("start", .model .timePoint), ("end", .model .timePoint)]
  | .evidence => [("source", nonEmptyStr), ("observer", nonEmptyStr), ("method", nonEmptyStr),
      ("confidence", nonEmptyStr), ("availability", nonEmptyStr),
      ("method_version", .optional nonEmptyStr), ("source_field", .optional nonEmptyStr),
      ("sample_window", .optional (.model .timeRange)), ("attributes", .attributes)]
  | .causalLink => [("relationship", semanticCode), ("target_scope", scope),
      ("target_operation_id", .optional opaqueId), ("trace_id", .optional (otelId 32)),
      ("span_id", .optional (otelId 16)), ("attributes", .attributes)]
  | .errorRecord => [("code", nonEmptyStr), ("category", nonEmptyStr),
      ("message", .optional (.text fun _ => true)), ("capture_class", captureClassName),
      ("attributes", .attributes)]
  | .operation => [("operation_id", opaqueId), ("session_id", opaqueId),
      ("operation_name", nonEmptyStr), ("status", nonEmptyStr),
      ("started_at", .model .timePoint), ("ended_at", .optional (.model .timePoint)),
      ("participant_id", .optional opaqueId), ("stream_id", .optional opaqueId),
      ("turn_id", .optional opaqueId), ("trace_id", .optional (otelId 32)),
      ("span_id", .optional (otelId 16)), ("parent_span_id", .optional (otelId 16)),
      ("parent_scope", scope), ("links", .tuple .causalLink)] ++ scopeFields py ++
      [("evidence", .optional (.model .evidence)), ("capture_class", captureClassName),
        ("attributes", .attributes), ("error", .optional (.model .errorRecord))]
  | .event => [("event_id", opaqueId), ("session_id", opaqueId), ("event_name", nonEmptyStr),
      ("time", .model .timePoint), ("operation_id", .optional opaqueId),
      ("participant_id", .optional opaqueId), ("stream_id", .optional opaqueId),
      ("turn_id", .optional opaqueId), ("trace_id", .optional (otelId 32)),
      ("span_id", .optional (otelId 16))] ++ scopeFields py ++
      [("evidence", .optional (.model .evidence)), ("capture_class", captureClassName),
        ("attributes", .attributes)]
  | .qualityMeasurement => [("name", nonEmptyStr), ("value", .number), ("unit", nonEmptyStr),
      ("aggregation", semanticCode), ("raw_counter", .optional .number),
      ("attributes", .attributes)]
  | .qualitySample => [("sample_id", opaqueId), ("session_id", opaqueId),
      ("quality_kind", nonEmptyStr), ("sample_window", .model .timeRange),
      ("measurements", .tuple .qualityMeasurement), ("evidence", .optional (.model .evidence)),
      ("participant_id", .optional opaqueId), ("stream_id", .optional opaqueId)] ++
      scopeFields py ++ [("capture_class", captureClassName), ("attributes", .attributes)]
  | .consentRecord => [("status", nonEmptyStr), ("legal_basis", .optional nonEmptyStr),
      ("recorded_at_unix_nano", .optional decimalNano), ("authority", .optional nonEmptyStr)]
  | .retentionPolicy => [("expires_at_unix_nano", .optional decimalNano),
      ("ttl_nano", .optional decimalNano), ("policy_id", .optional nonEmptyStr)]
  | .byteRange => [("offset", .int 0), ("length", .int 1)]
  | .mediaLocator => [("uri", nonEmptyStr), ("access", nonEmptyStr),
      ("expires_at_unix_nano", .optional decimalNano)]
  | .mediaRef => [("media_id", opaqueId), ("session_id", opaqueId), ("stream_id", opaqueId),
      ("channel_index", .optional (.int 0)), ("media_kind", nonEmptyStr),
      ("content_type", nonEmptyStr), ("integrity", literal ["content_digest", "opaque_handle"]),
      ("sha256", .optional sha256), ("size_bytes", .optional (.int 0)),
      ("custodian", .optional semanticCode), ("clock_domain_id", .optional opaqueId),
      ("consent", .optional (.model .consentRecord)),
      ("retention", .optional (.model .retentionPolicy)),
      ("time_range", .optional (.model .timeRange)),
      ("byte_range", .optional (.model .byteRange)),
      ("locator", .optional (.model .mediaLocator)), ("capture_class", captureClassName),
      ("attributes", .attributes)]
  | .clockDomain => [("clock_domain_id", opaqueId), ("kind", nonEmptyStr),
      ("observer", nonEmptyStr), ("scope", .optional nonEmptyStr),
      ("monotonic_origin_nano", .optional decimalNano),
      ("wall_origin_unix_nano", .optional decimalNano),
      ("uncertainty_nano", .optional decimalNano),
      ("synchronization_method", .optional nonEmptyStr), ("attributes", .attributes)]
  | .clockRelation => [("relation_id", opaqueId), ("from_clock_domain_id", opaqueId),
      ("to_clock_domain_id", opaqueId), ("offset_nano", signedDecimalNano),
      ("drift_ppm", .optional .float), ("uncertainty_nano", .optional decimalNano),
      ("method", semanticCode), ("reference_unix_nano", .optional decimalNano),
      ("valid_from_unix_nano", .optional decimalNano),
      ("valid_to_unix_nano", .optional decimalNano),
      ("evidence", .optional (.model .evidence)), ("attributes", .attributes)]

/-- A record whose models, at any depth, have their declared fields, with
values that are admitted. -/
structure Conforms (type : ModelType) (record : Value) : Prop where
  root : ∃ fields extra, record = .model type fields extra
  names : ∀ type fields extra, Inside (.model type fields extra) record →
    fields.map (·.1) = (declared py type).map (·.1)
  admits : ∀ type fields extra, Inside (.model type fields extra) record →
    ∀ name spec value, (name, spec) ∈ declared py type →
      (name, value) ∈ fields → spec.admits value

/-- `model_validate`: none where the value is refused. -/
structure Contract where
  modelValidate : ModelType → List (String × Value) → Option Value
  conforms : ∀ type value record, modelValidate type value = some record →
    Conforms py type record

/-! ## Opaque chunks -/

structure RawOtlpChunk where
  chunkId : String
  signal : String
  contentType : String
  compression : String
  payload : List UInt8
  sha256 : Option String

def RAW_OTLP_FIELDS : List String :=
  ["chunk_id", "signal", "content_type", "compression", "sha256", "privacy_class",
    "payload_base64"]

/-- The text of a field, where it admits it. -/
def textOf (spec : String → Bool) : Option Value → Option String
  | some (.str s) => if spec s then some s else none
  | _ => none

/-- The digest of a chunk, where it has one. -/
def digestOf : Option Value → Option (Option String)
  | none => some none
  | some .null => some none
  | some value =>
      (textOf (fun s => decide (s.length = 64) && s.toList.all isHex) (some value)).map some

/-- `decode_raw_otlp_value` -/
def decodeRawOtlpValue (value : List (String × Value)) : Option RawOtlpChunk :=
  if value.any fun entry => !RAW_OTLP_FIELDS.contains entry.1 then none
  else
    match (lookup "privacy_class" value).getD (.str "raw_otlp"), lookup "payload_base64" value with
    | .str "raw_otlp", some (.str encoded) => do
        let payload ← py.b64decode encoded
        let chunkId ← textOf (fun s => !s.isEmpty && decide (s.length ≤ 256))
          (lookup "chunk_id" value)
        let signal ← textOf (fun s => !s.isEmpty) (lookup "signal" value)
        let contentType ← textOf (fun s => !s.isEmpty)
          ((lookup "content_type" value).or (some (.str "application/x-protobuf")))
        let compression ← textOf (fun s => !s.isEmpty)
          ((lookup "compression" value).or (some (.str "identity")))
        let digest ← digestOf (lookup "sha256" value)
        if payload.isEmpty then none
        else some ⟨chunkId, signal, contentType, compression, payload, digest⟩
    | _, _ => none

end Privacy

end Earshot
