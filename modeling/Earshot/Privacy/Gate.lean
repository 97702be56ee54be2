import Mathlib.Algebra.BigOperators.Group.List.Basic
import Mathlib.Algebra.Order.Ring.Nat
import Earshot.Privacy.Contract
/-!
# The governance gate

A journal is a format on disk, and no proof that a recorder wrote it. Every
record is validated again, and its capture classes are derived from its body,
before a subscriber or an artifact sees it.
-/

namespace Earshot

namespace Privacy

variable (py : Python) (policy : CapturePolicy)

/-! ## Records -/

inductive RecordKind where
  | adapter
  | participant
  | stream
  | coverage
  | operation
  | event
  | qualitySample
  | media
  | rawOtlp
  | clockDomain
  | clockRelation
  | omission
  | policy
  deriving DecidableEq

/-- `RECORD_MODELS` -/
def RecordKind.model : RecordKind → Option ModelType
  | .adapter => some .adapter
  | .participant => some .participant
  | .stream => some .audioStream
  | .coverage => some .coverage
  | .operation => some .operation
  | .event => some .event
  | .qualitySample => some .qualitySample
  | .media => some .mediaRef
  | .clockDomain => some .clockDomain
  | .clockRelation => some .clockRelation
  | _ => none

/-- `JournalRecordEntry`: the kinds of the ledger alone have no value. -/
structure JournalRecordEntry where
  kind : RecordKind
  value : Option (List (String × Value))
  coherent : value = none ↔ kind = .omission ∨ kind = .policy

/-! ## Equality -/

/-- The number that a value compares as. -/
def Value.asNumber : Value → Option Rat
  | .bool b => some (if b then 1 else 0)
  | .int n => some n
  | .float x => x
  | _ => none

mutual

/-- `==`, of maps whose keys stand in one order. -/
def Value.same : Value → Value → Bool
  | .null, .null => true
  | .str s, .str s' => s == s'
  | .seq items, .seq items' => sameItems items items'
  | .map entries, .map entries' => sameEntries entries entries'
  | .bool b, value => value.asNumber == (Value.bool b).asNumber
  | .int n, value => value.asNumber == (Value.int n).asNumber
  | .float (some x), value => value.asNumber == some x
  | _, _ => false

def sameItems : List Value → List Value → Bool
  | [], [] => true
  | item :: items, item' :: items' => item.same item' && sameItems items items'
  | _, _ => false

def sameEntries : List (String × Value) → List (String × Value) → Bool
  | [], [] => true
  | (key, child) :: entries, (key', child') :: entries' =>
      key == key' && child.same child' && sameEntries entries entries'
  | _, _ => false

end

/-! ## Normalized fields -/

/-- How a label is normalized. -/
inductive Normalizer where
  | semantic
  | provenance
  | version
  | source
  | measurementLabel
  | measurementUnit
  | error
  | operationName
  | eventName
  /-- The status of an operation: a digest is kept apart, as an attribute. -/
  | operationStatus
  | schemaUrl
  deriving DecidableEq

/-- What `record_operation` makes of a status. -/
def recordedStatus (status : String) : String :=
  let safe := sanitizeSemanticLabel py status
  if "sha256:".toList.isPrefixOf safe.toList then "unknown" else safe

/-- A label that normalizing leaves as it is. -/
def Normalizer.fixes (label : String) : Normalizer → Bool
  | .semantic => sanitizeSemanticLabel py label == label
  | .provenance => sanitizeProvenanceLabel py label == label
  | .version => sanitizeVersionLabel py label == label
  | .source => sanitizeSourceLabel py label == label
  | .measurementLabel => sanitizeMeasurementLabel py label == label
  | .measurementUnit => sanitizeMeasurementUnit py label == label
  | .error => sanitizeErrorLabel py label == label
  | .operationName =>
      (normalizeOperationName py label).1 == label && (normalizeOperationName py label).2.isNone
  | .eventName =>
      (normalizeEventName py label).1 == label && (normalizeEventName py label).2.isNone
  | .operationStatus => recordedStatus py label == label
  | .schemaUrl =>
      let sanitized := sanitizeSchemaUrl py (policy.allows .extensionPayload) label
      sanitized.1 == some label && sanitized.2.isNone

/-- What a recorder normalizes of a model. -/
def recorderLabels : ModelType → List (String × Normalizer)
  | .participant => [("role", .semantic), ("endpoint_kind", .semantic)]
  | .audioStream => [("direction", .semantic)]
  | .coverage => [("signal", .semantic), ("availability", .semantic), ("reason", .semantic)]
  | .operation => [("operation_name", .operationName), ("status", .operationStatus),
      ("instrumentation_scope_name", .semantic), ("instrumentation_scope_version", .version),
      ("schema_url", .schemaUrl), ("resource_schema_url", .schemaUrl)]
  | .event => [("event_name", .eventName), ("instrumentation_scope_name", .semantic),
      ("instrumentation_scope_version", .version), ("schema_url", .schemaUrl),
      ("resource_schema_url", .schemaUrl)]
  | .qualitySample => [("quality_kind", .semantic), ("instrumentation_scope_name", .semantic),
      ("instrumentation_scope_version", .version), ("schema_url", .schemaUrl),
      ("resource_schema_url", .schemaUrl)]
  | .evidence => [("source", .provenance), ("observer", .provenance), ("method", .provenance),
      ("confidence", .provenance), ("availability", .provenance), ("method_version", .version),
      ("source_field", .source)]
  | .causalLink => [("relationship", .semantic)]
  | .errorRecord => [("code", .error), ("category", .semantic)]
  | _ => []

/-- What the gate checks of a model by its type. -/
def checkedLabels : ModelType → List (String × Normalizer)
  | .event => [("event_name", .eventName)]
  | .operation => [("operation_name", .operationName), ("status", .semantic)]
  | .participant => [("role", .semantic), ("endpoint_kind", .semantic)]
  | .audioStream => [("direction", .semantic), ("media_kind", .semantic)]
  | .coverage => [("signal", .semantic), ("availability", .semantic), ("reason", .semantic)]
  | .qualitySample => [("quality_kind", .semantic)]
  | .errorRecord => [("code", .error), ("category", .semantic)]
  | .evidence => [("source", .provenance), ("observer", .provenance), ("method", .provenance),
      ("confidence", .provenance), ("availability", .provenance), ("method_version", .version),
      ("source_field", .source)]
  | .causalLink => [("relationship", .semantic)]
  | .clockDomain => [("kind", .semantic), ("observer", .semantic), ("scope", .semantic),
      ("synchronization_method", .semantic)]
  | .clockRelation => [("method", .semantic)]
  | .mediaRef => [("media_kind", .semantic), ("custodian", .semantic)]
  | _ => []

def ATTRIBUTE_FIELDS : List String := ["attributes", "resource", "instrumentation_scope_attributes"]

def SCHEMA_FIELDS : List String := ["schema_url", "resource_schema_url"]

/-- A loop whose body may raise. -/
def checkAll {β : Type} (check : β → Except String Unit) : List β → Except String Unit
  | [] => .ok ()
  | item :: items =>
      match check item with
      | .error e => .error e
      | .ok () => checkAll check items

/-- An attribute map that sanitizing leaves as it is, with nothing omitted. -/
def checkAttributes (model : Value) (name : String) : Except String Unit :=
  match model.getattr name with
  | none => .ok ()
  | some .null => .ok ()
  | some (.map attributes) =>
      let sanitized := sanitizeAttributes py policy attributes
      if !sanitized.2.isEmpty || !sameEntries sanitized.1 attributes then
        .error "record contains an unnormalized attribute map"
      else .ok ()
  | some _ => .error "no attribute map"

/-- A label that is missing, or that normalizing leaves as it is. -/
def checkLabel (model : Value) (label : String × Normalizer) : Except String Unit :=
  match model.getattr label.1 with
  | none => .ok ()
  | some .null => .ok ()
  | some (.str s) =>
      if label.2.fixes py policy s then .ok () else .error "label is not normalized"
  | some _ => .error "no label"

/-- What is normalized of a measurement of a sample. -/
def measurementLabels : List (String × Normalizer) :=
  [("name", .measurementLabel), ("unit", .measurementUnit)]

/-- The measurements of a sample. -/
def measurements (model : Value) : List Value :=
  match model with
  | .model .qualitySample _ _ =>
      match model.getattr "measurements" with
      | some (.seq items) => items
      | _ => []
  | _ => []

def Value.labels : Value → List (String × Normalizer)
  | .model type _ _ => checkedLabels type
  | _ => []

/-- The body of the loop of `_validate_normalized_fields`. -/
def checkModel (model : Value) : Except String Unit := do
  checkAll (checkAttributes py policy model) ATTRIBUTE_FIELDS
  checkAll (checkLabel py policy model) (SCHEMA_FIELDS.map fun name => (name, .schemaUrl))
  checkAll (checkLabel py policy model) model.labels
  checkAll (fun measurement => checkAll (checkLabel py policy measurement) measurementLabels)
    (measurements model)

/-- What `_walk_models` puts on its stack. -/
def Value.pending : Value → List Value
  | .model _ fields extra =>
      (fields.filter fun field => field.1 != "payload").map (·.2) ++ extra.map (·.2)
  | value => value.children

def Value.isModel : Value → Bool
  | .model _ _ _ => true
  | _ => false

theorem sum_sizeOf_items (items : List Value) :
    (items.map sizeOf).sum < sizeOf items := by
  induction items with
  | nil => decide
  | cons item items ih =>
    rw [List.map_cons, List.sum_cons]
    show _ < 1 + sizeOf item + sizeOf items
    omega

theorem sum_sizeOf_entries (entries : List (String × Value)) :
    ((entries.map (·.2)).map sizeOf).sum < sizeOf entries := by
  induction entries with
  | nil => decide
  | cons entry entries ih =>
    obtain ⟨key, child⟩ := entry
    rw [List.map_cons, List.map_cons, List.sum_cons]
    show _ < 1 + (1 + sizeOf key + sizeOf child) + sizeOf entries
    show sizeOf child + _ < _
    omega

theorem sum_sizeOf_filter (p : String × Value → Bool) (entries : List (String × Value)) :
    (((entries.filter p).map (·.2)).map sizeOf).sum ≤ ((entries.map (·.2)).map sizeOf).sum := by
  induction entries with
  | nil => exact Nat.le_refl _
  | cons entry entries ih =>
    rw [List.filter_cons]
    split
    · simp only [List.map_cons, List.sum_cons]
      omega
    · simp only [List.map_cons, List.sum_cons]
      omega

/-- What is pushed is smaller than what is popped. -/
theorem sum_sizeOf_pending (value : Value) : (value.pending.map sizeOf).sum < sizeOf value := by
  cases value with
  | seq items =>
    have := sum_sizeOf_items items
    simp only [Value.pending, Value.children, Value.seq.sizeOf_spec]
    omega
  | map entries =>
    have := sum_sizeOf_entries entries
    simp only [Value.pending, Value.children, Value.map.sizeOf_spec]
    omega
  | model type fields extra =>
    have hfields := sum_sizeOf_entries fields
    have hfiltered := sum_sizeOf_filter (fun field => field.1 != "payload") fields
    have hextra := sum_sizeOf_entries extra
    simp only [Value.pending, Value.model.sizeOf_spec, List.map_append, List.sum_append]
    omega
  | null | bool => simp [Value.pending, Value.children]
  | int n =>
    simp only [Value.pending, Value.children, Value.int.sizeOf_spec, List.map_nil, List.sum_nil]
    omega
  | float x =>
    simp only [Value.pending, Value.children, Value.float.sizeOf_spec, List.map_nil, List.sum_nil]
    omega
  | str s =>
    simp only [Value.pending, Value.children, Value.str.sizeOf_spec, List.map_nil, List.sum_nil]
    omega

/-- `_walk_models`, over its stack. -/
def walkModels : List Value → List Value
  | [] => []
  | current :: pending =>
      let models := walkModels (current.pending.reverse ++ pending)
      if current.isModel then current :: models else models
termination_by pending => (pending.map sizeOf).sum
decreasing_by
  have hless := sum_sizeOf_pending current
  rw [List.map_append, List.sum_append, List.map_reverse, List.sum_reverse, List.map_cons,
    List.sum_cons]
  omega

/-- `_validate_normalized_fields` -/
def validateNormalizedFields (record : Value) : Except String Unit :=
  checkAll (checkModel py policy) (walkModels [record])

/-! ## Classes -/

/-- The class of a key. -/
def keyClasses (attributeMap : Bool) (key : String) : List CaptureClass :=
  let captureClass := classifyAttribute py key
  if captureClass ≠ .metadata then [captureClass]
  else if attributeMap && (!isSafeMetadataKey key || isUnobservableHeardKey py key) then
    [.extensionPayload]
  else []

/-- The class that a declared field names, or is of. -/
def fieldClasses (name : String) (value : Value) : Except String (List CaptureClass) :=
  match value with
  | .null => .ok []
  | .str s =>
      if name = "capture_class" then
        match CaptureClass.ofName s with
        | some captureClass => .ok [captureClass]
        | none => .error "record has an unsupported capture class"
      else .ok (if name = "message" then [.diagnosticPayload] else [])
  | _ =>
      if name = "capture_class" then .error "record has an unsupported capture class"
      else .ok (if name = "message" then [.diagnosticPayload] else [])

/-- One extra field. -/
def checkExtra (field : String × Value) : Except String Unit :=
  if !isSafeSemanticLabel field.1 || isUnobservableHeardKey py field.1 ||
      decide (classifyAttribute py field.1 ≠ .metadata) then
    .error "model extension contains a sensitive or unsafe field"
  else if !(sanitizeAttributes py policy [field]).2.isEmpty then
    .error "model extension contains an unsafe value"
  else .ok ()

/-- `_validate_model_extra` -/
def validateModelExtra (extra : List (String × Value)) : Except String Unit :=
  if policy.allows .extensionPayload then checkAll (checkExtra py policy) extra
  else .error "model extension requires extension_payload capture"

mutual

/-- `_collect_classes` -/
def collectClasses (attributeMap : Bool) : Value → Except String (List CaptureClass)
  | .model _ fields extra =>
      if extra.isEmpty then collectFields fields
      else do
        validateModelExtra py policy extra
        let ofExtra ← collectEntries false extra
        let ofFields ← collectFields fields
        .ok (.extensionPayload :: (ofExtra ++ ofFields))
  | .map entries => collectEntries attributeMap entries
  | .seq items => collectItems items
  | _ => .ok []

def collectItems : List Value → Except String (List CaptureClass)
  | [] => .ok []
  | item :: items => do
      let ofItem ← collectClasses false item
      let ofItems ← collectItems items
      .ok (ofItem ++ ofItems)

def collectEntries (attributeMap : Bool) :
    List (String × Value) → Except String (List CaptureClass)
  | [] => .ok []
  | (key, item) :: entries => do
      let ofItem ← collectClasses false item
      let ofEntries ← collectEntries attributeMap entries
      .ok (keyClasses py attributeMap key ++ ofItem ++ ofEntries)

def collectFields : List (String × Value) → Except String (List CaptureClass)
  | [] => .ok []
  | (name, value) :: fields => do
      let own ← fieldClasses name value
      let ofValue ← collectClasses (ATTRIBUTE_FIELDS.contains name) value
      let ofFields ← collectFields fields
      .ok (own ++ ofValue ++ ofFields)

end

/-! ## The gate -/

/-- What a record says. -/
inductive Fact where
  | rawOtlp (chunk : RawOtlpChunk)
  | record (value : Value)

/-- The locator of a media reference. -/
def checkLocator (record : Value) : Except String Unit :=
  match record.getattr "locator" with
  | some (.model _ fields extra) =>
      match (Value.model .mediaLocator fields extra).getattr "uri" with
      | some (.str uri) =>
          if mediaLocatorSafety py uri = .portable then .ok ()
          else .error "media record contains a non-portable locator"
      | _ => .error "media record contains a non-portable locator"
  | _ => .ok ()

/-- A media reference is of audio, and its locator is checked. -/
def addMedia (record : Value) (classes : List CaptureClass) :
    Except String (List CaptureClass) :=
  match record with
  | .model .mediaRef _ _ => do
      checkLocator py record
      .ok (.audio :: classes)
  | _ => .ok classes

/-- The classes of a validated record. -/
def classifyRecord (record : Value) : Except String (List CaptureClass) := do
  validateNormalizedFields py policy record
  let collected ← collectClasses py policy false record
  let classes ← addMedia py record collected
  if classes.any fun captureClass => !policy.allows captureClass then
    .error "journal record retained a capture class disabled by policy"
  else .ok classes

/-- `validate_and_classify_record` -/
def validateAndClassifyRecord (contract : Contract py) (entry : JournalRecordEntry) :
    Except String (Option Fact × List CaptureClass) :=
  match entry.value with
  | none => .ok (none, [])
  | some value =>
      if entry.kind = .rawOtlp then
        match decodeRawOtlpValue py value with
        | none => .error "raw OTLP journal record is invalid"
        | some chunk => .ok (some (.rawOtlp chunk), [.rawOtlp])
      else
        match entry.kind.model with
        | none => .error "journal record kind has no contract model"
        | some type =>
            match contract.modelValidate type value with
            | none => .error "journal record is not a valid contract record"
            | some record => do
                let classes ← classifyRecord py policy record
                .ok (some (.record record), classes)

end Privacy

end Earshot
