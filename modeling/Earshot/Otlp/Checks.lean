import Earshot.Common.Memo
import Earshot.Transcript.Lines
/-!
# Checks of a request's spans

Whether one span can be stored. What a span says itself is read each time;
what its resource and its scope say is read through the request's memo,
which is keyed by the objects' identities. The spans hold references, and
what they refer to is a field of the heap, so two spans may share an object
or hold equal copies of it.

A message's bytes are the protobuf runtime's, and its size is their number.
Texts are well-formed Unicode, as the runtime requires of its strings.
-/

namespace Earshot.Otlp

open Memoized

/-! ## Messages -/

inductive AnyValue where
  | unset
  | string (s : String)
  | bool (b : Bool)
  | int (n : ℤ)
  | double (bits : UInt64)
  | bytes (content : List UInt8)
  | array (values : List AnyValue)
  | kvlist (values : List (String × AnyValue))

structure KeyValue where
  key : String
  value : AnyValue

/-- `otherFields` are those the receiver's checks do not read. -/
structure InstrumentationScope where
  name : String
  version : String
  attributes : List KeyValue
  otherFields : List UInt8

structure Resource where
  attributes : List KeyValue
  otherFields : List UInt8

structure Link where
  traceId : List UInt8
  spanId : List UInt8
  attributes : List KeyValue

structure Event where
  timeUnixNano : ℕ
  attributes : List KeyValue

structure Span where
  traceId : List UInt8
  spanId : List UInt8
  parentSpanId : List UInt8
  name : String
  startTimeUnixNano : ℕ
  endTimeUnixNano : ℕ
  attributes : List KeyValue
  events : List Event
  links : List Link

/-- `SerializeToString(deterministic=True)`, of each kind of message. -/
structure Protobuf where
  keyValue : KeyValue → List UInt8
  scope : InstrumentationScope → List UInt8
  resource : Resource → List UInt8

/-! ## References -/

/-- What the references of a request refer to. -/
structure Heap where
  scope : ℕ → InstrumentationScope
  resource : ℕ → Resource
  url : ℕ → String

/-- The `id` of a message: a scope and a resource are never one object. -/
inductive Ref where
  | scope (id : ℕ)
  | resource (id : ℕ)
  deriving DecidableEq

inductive MessageType where
  | scope
  | resource
  deriving DecidableEq

/-- `(type(message), _deterministic_bytes(message))` -/
def Heap.content (heap : Heap) (P : Protobuf) : Ref → MessageType × List UInt8
  | .scope id => (.scope, P.scope (heap.scope id))
  | .resource id => (.resource, P.resource (heap.resource id))

/-- A span with its resource and scope, and the two schema URLs, by reference. -/
structure OtlpSpan where
  resource : ℕ
  scope : ℕ
  span : Span
  resourceSchemaUrl : ℕ
  scopeSchemaUrl : ℕ

/-- A span with what it refers to. -/
structure SpanContent where
  resource : Resource
  scope : InstrumentationScope
  span : Span
  resourceSchemaUrl : String
  scopeSchemaUrl : String

def Heap.read (heap : Heap) (s : OtlpSpan) : SpanContent where
  resource := heap.resource s.resource
  scope := heap.scope s.scope
  span := s.span
  resourceSchemaUrl := heap.url s.resourceSchemaUrl
  scopeSchemaUrl := heap.url s.scopeSchemaUrl

/-! ## Bounds -/

def MAX_TIME_UNIX_NANO : ℕ := 9223372036854775807
def MAX_ATTRIBUTE_KEY_BYTES : ℕ := 1024
def MAX_SCOPE_NAME_BYTES : ℕ := 256
def MAX_SCOPE_ATTRIBUTES_BYTES : ℕ := 16 * 1024
def MAX_RESOURCE_BYTES : ℕ := 64 * 1024
def MAX_REQUEST_SCOPES : ℕ := 256
def MAX_REQUEST_SHARED_BYTES : ℕ := 8 * 1024 * 1024
def TRACE_ID_BYTES : ℕ := 16
def SPAN_ID_BYTES : ℕ := 8

/-- `REJECTION_REASONS`, in the order they are checked and reported. -/
inductive Reason where
  | traceId
  | spanId
  | parentSpanId
  | linkId
  | timeRange
  | endBeforeStart
  | nulText
  | attributeKey
  | scopeName
  | scopeAttributes
  | resource
  | scopeLimit
  | sharedBytes
  deriving DecidableEq

/-! ## Session keys -/

def EARSHOT_SESSION_ID : String := "earshot.session.id"
def SESSION_KEY_ATTRIBUTES : List String :=
  [EARSHOT_SESSION_ID, "gen_ai.conversation.id", "session.id", "conversation.id"]
def SESSION_KEY_MAX_BYTES : ℕ := 256

/-- `str.strip` -/
def strip (text : String) : String :=
  String.ofList (((text.toList.dropWhile Transcript.isSpace).reverse.dropWhile
    Transcript.isSpace).reverse)

structure SessionKey where
  value : String
  source : String

/-- `valid_session_key`, of `any_value`: of the kinds of value only a string is
a `str`. -/
def validSessionKey : AnyValue → Option String
  | .string s =>
    let trimmed := strip s
    if trimmed = Transcript.NOT_GIVEN then none
    else if 1 ≤ trimmed.utf8ByteSize ∧ trimmed.utf8ByteSize ≤ SESSION_KEY_MAX_BYTES then
      some trimmed
    else none
  | _ => none

/-- The loop of `_first_valid`: for each of the keys its first valid value. -/
def firstValidValues (keys : List String) :
    List KeyValue → List (String × String) → List (String × String)
  | [], found => found
  | item :: rest, found =>
    if item.key ∈ keys ∧ found.lookup item.key = none then
      match validSessionKey item.value with
      | some key => firstValidValues keys rest (found ++ [(item.key, key)])
      | none => firstValidValues keys rest found
    else firstValidValues keys rest found

/-- `_first_valid` -/
def firstValid (attributes : List KeyValue) (keys : List String) : Option SessionKey :=
  let found := firstValidValues keys attributes []
  keys.findSome? fun source => (found.lookup source).map fun value => ⟨value, source⟩

/-- `_resource_session_key` -/
def resourceSessionKey (resource : Resource) : Option SessionKey :=
  firstValid resource.attributes [EARSHOT_SESSION_ID]

/-! ## Checks of a resource and a scope -/

/-- `_utf8_at_most` -/
def utf8AtMost (text : String) (limit : ℕ) : Bool :=
  if text.length * 4 ≤ limit then true
  else decide (text.length ≤ limit) && decide (text.utf8ByteSize ≤ limit)

/-- `_attribute_keys_bounded` -/
def attributeKeysBounded : List KeyValue → Bool
  | [] => true
  | item :: rest =>
    if MAX_ATTRIBUTE_KEY_BYTES < item.key.length * 4 ∧
        utf8AtMost item.key MAX_ATTRIBUTE_KEY_BYTES = false then false
    else attributeKeysBounded rest

/-- `len(_varint(value))` -/
def varintLength (value : ℕ) : ℕ :=
  if h : value < 128 then 1 else 1 + varintLength (value / 128)
  decreasing_by omega

/-- `_field_size`, of the attributes. -/
def fieldSize (P : Protobuf) (messages : List KeyValue) : ℕ :=
  (messages.map fun message =>
    1 + varintLength (P.keyValue message).length + (P.keyValue message).length).sum

/-- `_ContextCheck` -/
structure ContextCheck where
  keysBounded : Bool
  rejection : Option Reason
  size : ℕ := 0
  nameBytes : ℕ := 0
  nulInName : Bool := false

/-- `_scope_check` -/
def scopeCheck (P : Protobuf) (scope : InstrumentationScope) : ContextCheck :=
  let rejection : Option Reason :=
    if utf8AtMost scope.name MAX_SCOPE_NAME_BYTES = false then some .scopeName
    else if MAX_SCOPE_ATTRIBUTES_BYTES < fieldSize P scope.attributes then some .scopeAttributes
    else none
  { keysBounded := attributeKeysBounded scope.attributes
    rejection
    size := if rejection = none then (P.scope scope).length else 0
    nameBytes := if rejection = none then scope.name.utf8ByteSize else 0
    nulInName := decide ('\x00' ∈ scope.name.toList) }

/-- `_resource_check` -/
def resourceCheck (P : Protobuf) (resource : Resource) (schemaUrl : String) : ContextCheck :=
  let size := (P.resource resource).length + schemaUrl.utf8ByteSize
  { keysBounded := attributeKeysBounded resource.attributes
    rejection := if MAX_RESOURCE_BYTES < size then some .resource else none
    size }

/-! ## The memo -/

/-- `RequestMemo`: an entry for each function and the objects it was read for. -/
structure RequestMemo (P : Protobuf) (heap : Heap) where
  sessionKeys : Memo fun id => resourceSessionKey (heap.resource id)
  scopeChecks : Memo fun id => scopeCheck P (heap.scope id)
  resourceChecks : Memo fun key : ℕ × String => resourceCheck P (heap.resource key.1) key.2
  firsts : Canonical (heap.content P)

namespace RequestMemo

variable {P : Protobuf} {heap : Heap}

def empty (P : Protobuf) (heap : Heap) : RequestMemo P heap :=
  ⟨Memo.empty _, Memo.empty _, Memo.empty _, Canonical.empty _⟩

/-- `memo.get(_resource_session_key, resource)` -/
def getSessionKey (memo : RequestMemo P heap) (resource : ℕ) :
    Option SessionKey × RequestMemo P heap :=
  let found := memo.sessionKeys.get resource
  (found.1, { memo with sessionKeys := found.2 })

/-- `memo.get(_scope_check, scope)` -/
def getScopeCheck (memo : RequestMemo P heap) (scope : ℕ) : ContextCheck × RequestMemo P heap :=
  let found := memo.scopeChecks.get scope
  (found.1, { memo with scopeChecks := found.2 })

/-- `memo.get(_resource_check, resource, extra=(schema_url,))` -/
def getResourceCheck (memo : RequestMemo P heap) (resource : ℕ) (schemaUrl : String) :
    ContextCheck × RequestMemo P heap :=
  let found := memo.resourceChecks.get (resource, schemaUrl)
  (found.1, { memo with resourceChecks := found.2 })

/-- `memo.first_equal(message)` -/
def firstEqual (memo : RequestMemo P heap) (message : Ref) : Ref × RequestMemo P heap :=
  let found := memo.firsts.get message
  (found.1, { memo with firsts := found.2 })

@[simp] theorem getSessionKey_fst (memo : RequestMemo P heap) (resource : ℕ) :
    (memo.getSessionKey resource).1 = resourceSessionKey (heap.resource resource) :=
  Memo.get_fst _ _

@[simp] theorem getScopeCheck_fst (memo : RequestMemo P heap) (scope : ℕ) :
    (memo.getScopeCheck scope).1 = scopeCheck P (heap.scope scope) :=
  Memo.get_fst _ _

@[simp] theorem getResourceCheck_fst (memo : RequestMemo P heap) (resource : ℕ) (url : String) :
    (memo.getResourceCheck resource url).1 = resourceCheck P (heap.resource resource) url :=
  Memo.get_fst _ _

@[simp] theorem getScopeCheck_firsts (memo : RequestMemo P heap) (scope : ℕ) :
    (memo.getScopeCheck scope).2.firsts = memo.firsts := rfl

@[simp] theorem getResourceCheck_firsts (memo : RequestMemo P heap) (resource : ℕ) (url : String) :
    (memo.getResourceCheck resource url).2.firsts = memo.firsts := rfl

end RequestMemo

/-! ## The check of a span -/

section SpanRejection

variable {P : Protobuf} {heap : Heap}

/-- `_valid_id` -/
def validId (value : List UInt8) (size : ℕ) : Bool :=
  decide (value.length = size) && value.any fun byte => byte ≠ 0

/-- `_in_time_domain` -/
def inTimeDomain (value : ℕ) : Bool := decide (1 ≤ value) && decide (value ≤ MAX_TIME_UNIX_NANO)

/-- `resolve_session_key` -/
def resolveSessionKey (s : OtlpSpan) (memo : RequestMemo P heap) :
    Option SessionKey × RequestMemo P heap :=
  match firstValid s.span.attributes SESSION_KEY_ATTRIBUTES with
  | some own => (some own, memo)
  | none => memo.getSessionKey s.resource

/-- The part of `span_rejection` that reads the span's own IDs and times. -/
def rawRejection (raw : Span) : Option Reason :=
  if validId raw.traceId TRACE_ID_BYTES = false then some .traceId
  else if validId raw.spanId SPAN_ID_BYTES = false then some .spanId
  else if raw.parentSpanId ≠ [] ∧ raw.parentSpanId.length ≠ SPAN_ID_BYTES then
    some .parentSpanId
  else if raw.links.any fun link =>
      link.traceId.length ≠ TRACE_ID_BYTES ∨ link.spanId.length ≠ SPAN_ID_BYTES then
    some .linkId
  else if (inTimeDomain raw.startTimeUnixNano && inTimeDomain raw.endTimeUnixNano) = false ∨
      (raw.events.all fun event => inTimeDomain event.timeUnixNano) = false then
    some .timeRange
  else if raw.endTimeUnixNano < raw.startTimeUnixNano then some .endBeforeStart
  else none

/-- Its part that reads the session key and the two checks as well. -/
def contextRejection (raw : Span) (key : Option SessionKey) (scope resource : ContextCheck) :
    Option Reason :=
  if '\x00' ∈ raw.name.toList ∨ scope.nulInName = true ∨
      key.any (fun key => '\x00' ∈ key.value.toList) = true then
    some .nulText
  else if (resource.keysBounded && scope.keysBounded &&
      (attributeKeysBounded raw.attributes &&
        raw.events.all (fun event => attributeKeysBounded event.attributes) &&
        raw.links.all fun link => attributeKeysBounded link.attributes)) = false then
    some .attributeKey
  else scope.rejection.or resource.rejection

/-- `span_rejection` -/
def spanRejection (s : OtlpSpan) (memo : RequestMemo P heap) :
    Option Reason × RequestMemo P heap :=
  match rawRejection s.span with
  | some reason => (some reason, memo)
  | none =>
    let key := resolveSessionKey s memo
    let scope := key.2.getScopeCheck s.scope
    let resource := scope.2.getResourceCheck s.resource (heap.url s.resourceSchemaUrl)
    (contextRejection s.span key.1 scope.1 resource.1, resource.2)

end SpanRejection

/-! ## What is checked -/

/-- The session key a span names, or its resource. -/
def SpanContent.sessionKey (s : SpanContent) : Option SessionKey :=
  (firstValid s.span.attributes SESSION_KEY_ATTRIBUTES).or
    (firstValid s.resource.attributes [EARSHOT_SESSION_ID])

/-- The attributes a span comes with: its resource's, its scope's, and its
own, its events' and its links'. -/
def SpanContent.attributes (s : SpanContent) : List KeyValue :=
  s.resource.attributes ++ s.scope.attributes ++ s.span.attributes ++
    s.span.events.flatMap Event.attributes ++ s.span.links.flatMap Link.attributes

/-- **What the receiver promises of a span it stores**, by the span's content
alone: the first check it fails. -/
def SpanContent.rejection (P : Protobuf) (s : SpanContent) : Option Reason :=
  (rawRejection s.span).or <|
    if '\x00' ∈ s.span.name.toList ∨ '\x00' ∈ s.scope.name.toList ∨
        ∃ key ∈ s.sessionKey, '\x00' ∈ key.value.toList then
      some .nulText
    else if ∃ item ∈ s.attributes, MAX_ATTRIBUTE_KEY_BYTES < item.key.utf8ByteSize then
      some .attributeKey
    else if MAX_SCOPE_NAME_BYTES < s.scope.name.utf8ByteSize then some .scopeName
    else if MAX_SCOPE_ATTRIBUTES_BYTES < fieldSize P s.scope.attributes then
      some .scopeAttributes
    else if MAX_RESOURCE_BYTES <
        (P.resource s.resource).length + s.resourceSchemaUrl.utf8ByteSize then
      some .resource
    else none

/-- A character is of one to four bytes. -/
theorem utf8ByteSize_bounds (text : String) :
    text.length ≤ text.utf8ByteSize ∧ text.utf8ByteSize ≤ text.length * 4 := by
  have hsize : ∀ chars : List Char,
      chars.length ≤ chars.utf8Encode.size ∧ chars.utf8Encode.size ≤ chars.length * 4 := by
    intro chars
    induction chars with
    | nil => exact ⟨Nat.le_refl _, Nat.le_refl _⟩
    | cons c chars ih =>
      have hpos := c.utf8Size_pos
      have hfour := c.utf8Size_le_four
      rw [List.utf8Encode_cons, ByteArray.size_append, List.utf8Encode_singleton,
        List.size_toByteArray, String.length_utf8EncodeChar, List.length_cons]
      omega
  obtain ⟨hlow, hhigh⟩ := hsize text.toList
  rw [← String.toByteArray_ofList, String.ofList_toList] at hlow hhigh
  exact ⟨hlow, hhigh⟩

/-- **The shortcut decides the bound.** -/
theorem utf8AtMost_iff (text : String) (limit : ℕ) :
    utf8AtMost text limit = true ↔ text.utf8ByteSize ≤ limit := by
  obtain ⟨hlow, hhigh⟩ := utf8ByteSize_bounds text
  unfold utf8AtMost
  split
  · exact ⟨fun _ => by omega, fun _ => rfl⟩
  · rw [Bool.and_eq_true, decide_eq_true_iff, decide_eq_true_iff]
    omega

theorem attributeKeysBounded_iff (attributes : List KeyValue) :
    attributeKeysBounded attributes = true ↔
      ∀ item ∈ attributes, item.key.utf8ByteSize ≤ MAX_ATTRIBUTE_KEY_BYTES := by
  induction attributes with
  | nil => exact ⟨fun _ => by rintro _ ⟨⟩, fun _ => rfl⟩
  | cons item rest ih =>
    rw [attributeKeysBounded, List.forall_mem_cons]
    have hbounds := utf8ByteSize_bounds item.key
    have hiff := utf8AtMost_iff item.key MAX_ATTRIBUTE_KEY_BYTES
    split
    · rename_i h
      have hover : ¬ item.key.utf8ByteSize ≤ MAX_ATTRIBUTE_KEY_BYTES := by
        rw [← hiff, h.2]
        exact Bool.noConfusion
      exact ⟨fun hfalse => Bool.noConfusion hfalse, fun hall => absurd hall.1 hover⟩
    · rename_i h
      have hwithin : item.key.utf8ByteSize ≤ MAX_ATTRIBUTE_KEY_BYTES := by
        by_cases hlong : MAX_ATTRIBUTE_KEY_BYTES < item.key.length * 4
        · exact hiff.mp (by simpa using fun hfalse => h ⟨hlong, hfalse⟩)
        · omega
      rw [ih]
      exact ⟨fun hrest => ⟨hwithin, hrest⟩, And.right⟩

section SpanRejection

variable {P : Protobuf} {heap : Heap}

theorem resolveSessionKey_fst (s : OtlpSpan) (memo : RequestMemo P heap) :
    (resolveSessionKey s memo).1 = (heap.read s).sessionKey := by
  unfold resolveSessionKey SpanContent.sessionKey
  show _ = (firstValid s.span.attributes SESSION_KEY_ATTRIBUTES).or _
  cases firstValid s.span.attributes SESSION_KEY_ATTRIBUTES with
  | some own => rfl
  | none => exact RequestMemo.getSessionKey_fst memo s.resource

@[simp] theorem resolveSessionKey_firsts (s : OtlpSpan) (memo : RequestMemo P heap) :
    (resolveSessionKey s memo).2.firsts = memo.firsts := by
  unfold resolveSessionKey
  split <;> rfl

/-- The keys of all that a span comes with are bounded, part by part. -/
theorem keysBounded_eq_false_iff (s : SpanContent) :
    (attributeKeysBounded s.resource.attributes && attributeKeysBounded s.scope.attributes &&
      (attributeKeysBounded s.span.attributes &&
        s.span.events.all (fun event => attributeKeysBounded event.attributes) &&
        s.span.links.all fun link => attributeKeysBounded link.attributes)) = false ↔
    ∃ item ∈ s.attributes, MAX_ATTRIBUTE_KEY_BYTES < item.key.utf8ByteSize := by
  rw [← not_iff_not, Bool.not_eq_false]
  simp only [Bool.and_eq_true, List.all_eq_true, attributeKeysBounded_iff,
    SpanContent.attributes, List.mem_append, List.mem_flatMap, not_exists, not_and, not_lt]
  constructor
  · rintro ⟨⟨hresource, hscope⟩, ⟨hown, hevents⟩, hlinks⟩ item
    rintro ((((h | h) | h) | ⟨event, he, h⟩) | ⟨link, hl, h⟩)
    · exact hresource item h
    · exact hscope item h
    · exact hown item h
    · exact hevents event he item h
    · exact hlinks link hl item h
  · intro h
    exact ⟨⟨fun item hi => h item (.inl (.inl (.inl (.inl hi)))),
      fun item hi => h item (.inl (.inl (.inl (.inr hi))))⟩,
      ⟨fun item hi => h item (.inl (.inl (.inr hi))),
        fun event he item hi => h item (.inl (.inr ⟨event, he, hi⟩))⟩,
      fun link hl item hi => h item (.inr ⟨link, hl, hi⟩)⟩

/-- Its scope's name, its scope's attributes and its resource are measured in
this order. -/
theorem sizes_or (P : Protobuf) (s : SpanContent) :
    (scopeCheck P s.scope).rejection.or (resourceCheck P s.resource s.resourceSchemaUrl).rejection =
      if MAX_SCOPE_NAME_BYTES < s.scope.name.utf8ByteSize then some .scopeName
      else if MAX_SCOPE_ATTRIBUTES_BYTES < fieldSize P s.scope.attributes then
        some .scopeAttributes
      else if MAX_RESOURCE_BYTES <
          (P.resource s.resource).length + s.resourceSchemaUrl.utf8ByteSize then
        some .resource
      else none := by
  have hname := utf8AtMost_iff s.scope.name MAX_SCOPE_NAME_BYTES
  unfold scopeCheck resourceCheck
  dsimp only
  by_cases hlong : MAX_SCOPE_NAME_BYTES < s.scope.name.utf8ByteSize
  · have hfalse : utf8AtMost s.scope.name MAX_SCOPE_NAME_BYTES = false := by
      rw [← Bool.not_eq_true, hname]
      omega
    rw [if_pos hfalse, if_pos hlong, Option.some_or]
  · rw [if_neg (by rw [Bool.not_eq_false, hname]; omega), if_neg hlong]
    by_cases hlarge : MAX_SCOPE_ATTRIBUTES_BYTES < fieldSize P s.scope.attributes
    · rw [if_pos hlarge, if_pos hlarge, Option.some_or]
    · rw [if_neg hlarge, if_neg hlarge, Option.none_or]

/-- **A span's check is of its content**, whatever the memo was used for. -/
theorem spanRejection_fst (s : OtlpSpan) (memo : RequestMemo P heap) :
    (spanRejection s memo).1 = (heap.read s).rejection P := by
  unfold spanRejection SpanContent.rejection
  show _ = (rawRejection s.span).or _
  cases rawRejection s.span with
  | some reason => rfl
  | none =>
    dsimp only
    rw [RequestMemo.getScopeCheck_fst, RequestMemo.getResourceCheck_fst, resolveSessionKey_fst,
      Option.none_or]
    have hnul : (∃ key ∈ (heap.read s).sessionKey, '\x00' ∈ key.value.toList) ↔
        (heap.read s).sessionKey.any (fun key => '\x00' ∈ key.value.toList) = true := by
      rw [Option.any_eq_true_iff_get]
      cases (heap.read s).sessionKey with
      | none => simp
      | some key => simp
    unfold contextRejection
    refine if_congr (by rw [hnul]; simp [scopeCheck, Heap.read]) rfl
      (if_congr (keysBounded_eq_false_iff (heap.read s)) rfl (sizes_or P (heap.read s)))

@[simp] theorem spanRejection_firsts (s : OtlpSpan) (memo : RequestMemo P heap) :
    (spanRejection s memo).2.firsts = memo.firsts := by
  unfold spanRejection
  split
  · rfl
  · exact resolveSessionKey_firsts s memo

end SpanRejection

end Earshot.Otlp
