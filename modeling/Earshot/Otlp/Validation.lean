import Mathlib.Data.Finset.Card
import Mathlib.Data.Finset.Image
import Mathlib.Data.Finset.Dedup
import Mathlib.Data.List.ReduceOption
import Mathlib.Logic.Function.Basic
import Earshot.Otlp.Checks
/-!
# Validation of a request

The spans of a request that are kept. The request's bounds are counted over
small numbers that stand for its scopes and resources, found by identity
and given by content. The abstract account counts contents: it keeps the
spans kept so far, and nothing else.

`Stands` relates the two. A number stands for one content, and for no other,
and the numbers kept are those of the spans kept (`Keeps`), so the two
accounts reject the same spans for the same reasons.
-/

namespace Earshot.Otlp

open Memoized

variable {P : Protobuf} {heap : Heap}

/-! ## Numbers -/

/-- What `validate_spans` knows of the objects its spans share. `scope_numbers`
and `resource_numbers` are told apart by type. -/
structure Tables (P : Protobuf) (heap : Heap) where
  memo : RequestMemo P heap
  numbers : MessageType → Numbering (Ref × String)
  sharedObjects : List ((Ref × ℕ) × ℕ × ℕ)

/-- `_number` -/
def Tables.number (t : Tables P heap) (message : Ref) (schemaUrl size : ℕ) (urlCounted : Bool) :
    (ℕ × ℕ) × Tables P heap :=
  match t.sharedObjects.lookup (message, schemaUrl) with
  | some known => (known, t)
  | none =>
    let url := heap.url schemaUrl
    let urlBytes := if urlCounted = true then 0 else url.utf8ByteSize
    let type := (heap.content P message).1
    let first := t.memo.firstEqual message
    let numbered := (t.numbers type).number (first.1, url)
    let known := (numbered.1, size + urlBytes)
    (known, {
      memo := first.2
      numbers := Function.update t.numbers type numbered.2
      sharedObjects := ((message, schemaUrl), known) :: t.sharedObjects })

/-! ## The request's bounds -/

/-- What `validate_spans` counts. -/
structure Budget (P : Protobuf) (heap : Heap) where
  tables : Tables P heap
  scopes : Finset ℕ
  pairs : Finset (ℕ × ℕ)
  shared : ℕ

def Budget.empty (P : Protobuf) (heap : Heap) : Budget P heap where
  tables := ⟨RequestMemo.empty P heap, fun _ => Numbering.empty _, []⟩
  scopes := ∅
  pairs := ∅
  shared := 0

/-- `span_rejection(span, memo=memo)` -/
def Tables.check (t : Tables P heap) (s : OtlpSpan) : Option Reason × Tables P heap :=
  let checked := spanRejection s t.memo
  (checked.1, { t with memo := checked.2 })

/-- The number of the span's scope, and the bytes a pair stores of it. -/
def Tables.numberScope (t : Tables P heap) (s : OtlpSpan) : (ℕ × ℕ) × Tables P heap :=
  let check := t.memo.getScopeCheck s.scope
  Tables.number { t with memo := check.2 } (.scope s.scope) s.scopeSchemaUrl check.1.size false

/-- The number of its resource, whose size counts the URL. -/
def Tables.numberResource (t : Tables P heap) (s : OtlpSpan) : (ℕ × ℕ) × Tables P heap :=
  let check := t.memo.getResourceCheck s.resource (heap.url s.resourceSchemaUrl)
  Tables.number { t with memo := check.2 } (.resource s.resource) s.resourceSchemaUrl
    check.1.size true

/-- `memo.get(_scope_check, span.scope).name_bytes` -/
def Tables.nameBytes (t : Tables P heap) (s : OtlpSpan) : ℕ × Tables P heap :=
  let check := t.memo.getScopeCheck s.scope
  (check.1.nameBytes, { t with memo := check.2 })

/-- A span that passes its own checks is kept within the request's bounds. -/
def Budget.place (b : Budget P heap) (s : OtlpSpan) : Option Reason × Budget P heap :=
  let scope := b.tables.numberScope s
  if scope.1.1 ∉ b.scopes ∧ MAX_REQUEST_SCOPES ≤ b.scopes.card then
    (some .scopeLimit, { b with tables := scope.2 })
  else
    let resource := scope.2.numberResource s
    let name := resource.2.nameBytes s
    let pair := (resource.1.1, scope.1.1)
    let cost := name.1 + if pair ∈ b.pairs then 0 else resource.1.2 + scope.1.2
    if MAX_REQUEST_SHARED_BYTES < b.shared + cost then
      (some .sharedBytes, { b with tables := name.2 })
    else
      (none, ⟨name.2, insert scope.1.1 b.scopes, insert pair b.pairs, b.shared + cost⟩)

/-- One round of `validate_spans`: the span's reason. -/
def Budget.weigh (b : Budget P heap) (s : OtlpSpan) : Option Reason × Budget P heap :=
  let checked := b.tables.check s
  if checked.1 = none then Budget.place { b with tables := checked.2 } s
  else (checked.1, { b with tables := checked.2 })

/-- `rejected[reason] += 1` -/
def bump : List (Reason × ℕ) → Reason → List (Reason × ℕ)
  | [], reason => [(reason, 1)]
  | entry :: rest, reason =>
    if entry.1 = reason then (entry.1, entry.2 + 1) :: rest else entry :: bump rest reason

structure SpanValidation where
  accepted : List OtlpSpan
  rejected : List (Reason × ℕ)

/-- `rejected_spans` -/
def SpanValidation.rejectedSpans (v : SpanValidation) : ℕ := (v.rejected.map Prod.snd).sum

/-- What the loop of `validate_spans` notes of a span. -/
def SpanValidation.note (v : SpanValidation) (s : OtlpSpan) : Option Reason → SpanValidation
  | none => { v with accepted := v.accepted ++ [s] }
  | some reason => { v with rejected := bump v.rejected reason }

/-- The loop of `validate_spans`. -/
def validateFrom : Budget P heap → SpanValidation → List OtlpSpan → SpanValidation
  | _, v, [] => v
  | b, v, s :: rest => validateFrom (b.weigh s).2 (v.note s (b.weigh s).1) rest

/-- `validate_spans` -/
def validateSpans (P : Protobuf) (heap : Heap) (spans : List OtlpSpan) : SpanValidation :=
  validateFrom (Budget.empty P heap) ⟨[], []⟩ spans

/-! ## The same, by content -/

namespace SpanContent

/-- What a request's scopes are told apart by. -/
def scopeKey (P : Protobuf) (s : SpanContent) : List UInt8 × String :=
  (P.scope s.scope, s.scopeSchemaUrl)

def resourceKey (P : Protobuf) (s : SpanContent) : List UInt8 × String :=
  (P.resource s.resource, s.resourceSchemaUrl)

def pairKey (P : Protobuf) (s : SpanContent) : (List UInt8 × String) × (List UInt8 × String) :=
  (s.resourceKey P, s.scopeKey P)

/-- The bytes of its resource and its scope, schema URLs included. -/
def contextBytes (P : Protobuf) (s : SpanContent) : ℕ :=
  ((P.resource s.resource).length + s.resourceSchemaUrl.utf8ByteSize) +
    ((P.scope s.scope).length + s.scopeSchemaUrl.utf8ByteSize)

end SpanContent

/-- The distinct scopes of the spans kept. -/
def scopesOf (P : Protobuf) (kept : List SpanContent) : Finset (List UInt8 × String) :=
  (kept.map (SpanContent.scopeKey P)).toFinset

/-- What one more span adds. -/
def costOf (P : Protobuf) (kept : List SpanContent) (s : SpanContent) : ℕ :=
  s.scope.name.utf8ByteSize +
    if s.pairKey P ∈ kept.map (SpanContent.pairKey P) then 0 else s.contextBytes P

/-- What the spans kept, latest first, store more than once. -/
def totalOf (P : Protobuf) : List SpanContent → ℕ
  | [] => 0
  | s :: earlier => totalOf P earlier + costOf P earlier s

/-- **Whether a span is kept** after those kept so far. -/
def verdict (P : Protobuf) (kept : List SpanContent) (s : SpanContent) : Option Reason :=
  (s.rejection P).or <|
    if s.scopeKey P ∉ scopesOf P kept ∧ MAX_REQUEST_SCOPES ≤ (scopesOf P kept).card then
      some .scopeLimit
    else if MAX_REQUEST_SHARED_BYTES < totalOf P kept + costOf P kept s then some .sharedBytes
    else none

/-- The spans kept after one more. -/
def keep (P : Protobuf) (kept : List SpanContent) (s : SpanContent) : List SpanContent :=
  if verdict P kept s = none then s :: kept else kept

/-- **The verdicts of a request**, span by span. -/
def verdicts (P : Protobuf) : List SpanContent → List SpanContent → List (Option Reason)
  | _, [] => []
  | kept, s :: rest => verdict P kept s :: verdicts P (keep P kept s) rest

/-- The items whose verdict is to keep them. -/
def keptOf {α : Type} (items : List α) (reasons : List (Option Reason)) : List α :=
  ((items.zip reasons).filter fun item => item.2 = none).map Prod.fst

/-! ## Numbers stand for contents -/

namespace Tables

/-- The number of a content and its schema URL. -/
def find? (t : Tables P heap) (content : MessageType × List UInt8) (url : String) : Option ℕ :=
  (t.memo.firsts.find? content).bind fun first => (t.numbers content.1).find? (first, url)

variable {t t' : Tables P heap} {content content' : MessageType × List UInt8} {url url' : String}
  {n : ℕ}

/-- **A number stands for one content.** -/
theorem find?_injective (content content' : MessageType × List UInt8)
    (htype : content.1 = content'.1) (h : t.find? content url = some n)
    (h' : t.find? content' url' = some n) : content = content' ∧ url = url' := by
  obtain ⟨first, hfirst, hn⟩ := Option.bind_eq_some_iff.mp h
  obtain ⟨first', hfirst', hn'⟩ := Option.bind_eq_some_iff.mp h'
  rw [htype] at hn
  obtain ⟨rfl, rfl⟩ := Prod.mk.inj (Numbering.find?_injective hn hn')
  exact ⟨(Canonical.value_of_find? hfirst).symm.trans (Canonical.value_of_find? hfirst'), rfl⟩

/-- What has a number keeps it. -/
def Extends (t t' : Tables P heap) : Prop :=
  ∀ content url n, t.find? content url = some n → t'.find? content url = some n

theorem Extends.trans {t₁ t₂ t₃ : Tables P heap} (h : Extends t₁ t₂) (h' : Extends t₂ t₃) :
    Extends t₁ t₃ := fun content url n hn => h' content url n (h content url n hn)

/-- What a pair stores of an object and its schema URL. -/
def storedBytes (P : Protobuf) (heap : Heap) (message : Ref) (schemaUrl : ℕ) : ℕ :=
  match message with
  | .scope id => (scopeCheck P (heap.scope id)).size + (heap.url schemaUrl).utf8ByteSize
  | .resource id => (resourceCheck P (heap.resource id) (heap.url schemaUrl)).size

/-- The numbers found by identity are those of the content. -/
def Sound (t : Tables P heap) : Prop :=
  ∀ message schemaUrl known, t.sharedObjects.lookup (message, schemaUrl) = some known →
    t.find? (heap.content P message) (heap.url schemaUrl) = some known.1 ∧
      known.2 = storedBytes P heap message schemaUrl

/-- The memo's other entries do not matter. -/
theorem find?_withMemo {memo : RequestMemo P heap} (h : memo.firsts = t.memo.firsts)
    (content : MessageType × List UInt8) (url : String) :
    ({ t with memo } : Tables P heap).find? content url = t.find? content url := by
  unfold find?
  dsimp only
  rw [h]

theorem Sound.withMemo {memo : RequestMemo P heap} (ht : t.Sound)
    (h : memo.firsts = t.memo.firsts) : Sound { t with memo } := by
  intro message schemaUrl known hknown
  rw [find?_withMemo h]
  exact ht message schemaUrl known hknown

theorem extends_withMemo {memo : RequestMemo P heap} (h : memo.firsts = t.memo.firsts) :
    t.Extends { t with memo } := by
  intro content url n hn
  rwa [find?_withMemo h]

/-- **An object's number is its content's**, and what had a number keeps it. -/
theorem Sound.number (ht : t.Sound) (message : Ref) (schemaUrl size : ℕ) (urlCounted : Bool)
    (hsize : size + (if urlCounted = true then 0 else (heap.url schemaUrl).utf8ByteSize) =
      storedBytes P heap message schemaUrl) :
    (t.number message schemaUrl size urlCounted).2.Sound ∧
      t.Extends (t.number message schemaUrl size urlCounted).2 ∧
      (t.number message schemaUrl size urlCounted).2.find? (heap.content P message)
        (heap.url schemaUrl) = some (t.number message schemaUrl size urlCounted).1.1 ∧
      (t.number message schemaUrl size urlCounted).1.2 =
        storedBytes P heap message schemaUrl := by
  unfold Tables.number
  cases hlookup : t.sharedObjects.lookup (message, schemaUrl) with
  | some known =>
    obtain ⟨hnumber, hbytes⟩ := ht message schemaUrl known hlookup
    exact ⟨ht, fun _ _ _ h => h, hnumber, hbytes⟩
  | none =>
    dsimp only
    set type := (heap.content P message).1 with htype
    set first := t.memo.firstEqual message with hfirst
    set numbered := (t.numbers type).number (first.1, heap.url schemaUrl) with hnumbered
    set after : Tables P heap := ⟨first.2, Function.update t.numbers type numbered.2,
      ((message, schemaUrl), (numbered.1, size + _)) :: t.sharedObjects⟩ with hafter
    have hextends : t.Extends after := by
      intro content url n hn
      obtain ⟨c, hc, hn⟩ := Option.bind_eq_some_iff.mp hn
      refine Option.bind_eq_some_iff.mpr ⟨c, Canonical.find?_get_of_some message hc, ?_⟩
      by_cases hsame : content.1 = type
      · show (Function.update t.numbers type numbered.2 content.1).find? (c, url) = some n
        rw [hsame] at hn ⊢
        rw [Function.update_self]
        exact Numbering.find?_number_of_some _ hn
      · show (Function.update t.numbers type numbered.2 content.1).find? (c, url) = some n
        rw [Function.update_of_ne hsame]
        exact hn
    have hself : after.find? (heap.content P message) (heap.url schemaUrl) = some numbered.1 := by
      refine Option.bind_eq_some_iff.mpr ⟨first.1, Canonical.find?_get _ message, ?_⟩
      show (Function.update t.numbers type numbered.2 type).find? _ = _
      rw [Function.update_self]
      exact Numbering.find?_number _ _
    refine ⟨?_, hextends, hself, hsize⟩
    intro message' schemaUrl' known hknown
    rw [hafter] at hknown
    dsimp only at hknown
    rw [List.lookup_cons] at hknown
    split at hknown
    · rename_i heq
      obtain ⟨rfl, rfl⟩ := Prod.mk.inj (eq_of_beq heq)
      obtain rfl := Option.some.inj hknown
      exact ⟨hself, hsize⟩
    · obtain ⟨hnumber, hbytes⟩ := ht message' schemaUrl' known hknown
      exact ⟨hextends _ _ _ hnumber, hbytes⟩

end Tables

/-! ## The two accounts -/

namespace Tables

def scopeNumber (t : Tables P heap) (s : SpanContent) : Option ℕ :=
  t.find? (.scope, P.scope s.scope) s.scopeSchemaUrl

def resourceNumber (t : Tables P heap) (s : SpanContent) : Option ℕ :=
  t.find? (.resource, P.resource s.resource) s.resourceSchemaUrl

variable {t : Tables P heap} {s s' : SpanContent} {n : ℕ}

theorem scopeKey_of_scopeNumber (h : t.scopeNumber s = some n) (h' : t.scopeNumber s' = some n) :
    s.scopeKey P = s'.scopeKey P := by
  obtain ⟨hcontent, hurl⟩ := find?_injective (.scope, P.scope s.scope)
    (.scope, P.scope s'.scope) rfl h h'
  exact Prod.ext (Prod.mk.inj hcontent).2 hurl

theorem resourceKey_of_resourceNumber (h : t.resourceNumber s = some n)
    (h' : t.resourceNumber s' = some n) : s.resourceKey P = s'.resourceKey P := by
  obtain ⟨hcontent, hurl⟩ := find?_injective (.resource, P.resource s.resource)
    (.resource, P.resource s'.resource) rfl h h'
  exact Prod.ext (Prod.mk.inj hcontent).2 hurl

theorem scopeNumber_congr (h : s.scopeKey P = s'.scopeKey P) :
    t.scopeNumber s = t.scopeNumber s' := by
  obtain ⟨hcontent, hurl⟩ := Prod.mk.inj h
  unfold scopeNumber
  rw [hcontent, hurl]

theorem resourceNumber_congr (h : s.resourceKey P = s'.resourceKey P) :
    t.resourceNumber s = t.resourceNumber s' := by
  obtain ⟨hcontent, hurl⟩ := Prod.mk.inj h
  unfold resourceNumber
  rw [hcontent, hurl]

end Tables

/-- **The numbers counted are those of the spans kept.** -/
structure Budget.Keeps (b : Budget P heap) (kept : List SpanContent) : Prop where
  sound : b.tables.Sound
  scopeKnown : ∀ s ∈ kept, ∃ n, b.tables.scopeNumber s = some n
  resourceKnown : ∀ s ∈ kept, ∃ n, b.tables.resourceNumber s = some n
  scopes : ∀ n, n ∈ b.scopes ↔ ∃ s ∈ kept, b.tables.scopeNumber s = some n
  pairs : ∀ p, p ∈ b.pairs ↔
    ∃ s ∈ kept, b.tables.resourceNumber s = some p.1 ∧ b.tables.scopeNumber s = some p.2
  shared : b.shared = totalOf P kept

namespace Budget.Keeps

variable {b : Budget P heap} {kept : List SpanContent} {s : SpanContent} {n m : ℕ}

theorem empty (P : Protobuf) (heap : Heap) : (Budget.empty P heap).Keeps [] where
  sound := by rintro _ _ _ ⟨⟩
  scopeKnown := by rintro _ ⟨⟩
  resourceKnown := by rintro _ ⟨⟩
  scopes n := ⟨fun h => absurd h (Finset.notMem_empty n), by rintro ⟨_, ⟨⟩, _⟩⟩
  pairs p := ⟨fun h => absurd h (Finset.notMem_empty p), by rintro ⟨_, ⟨⟩, _⟩⟩
  shared := rfl

/-- More objects met change nothing that is counted. -/
theorem extend (h : b.Keeps kept) {t : Tables P heap} (ht : t.Sound) (he : b.tables.Extends t) :
    Budget.Keeps { b with tables := t } kept where
  sound := ht
  scopeKnown s hs := (h.scopeKnown s hs).imp fun n hn => he _ _ _ hn
  resourceKnown s hs := (h.resourceKnown s hs).imp fun n hn => he _ _ _ hn
  scopes n := by
    rw [h.scopes]
    constructor
    · rintro ⟨s, hs, hn⟩
      exact ⟨s, hs, he _ _ _ hn⟩
    · rintro ⟨s, hs, hn⟩
      obtain ⟨m, hm⟩ := h.scopeKnown s hs
      obtain rfl := Option.some.inj ((he _ _ _ hm).symm.trans hn)
      exact ⟨s, hs, hm⟩
  pairs p := by
    rw [h.pairs]
    constructor
    · rintro ⟨s, hs, hresource, hscope⟩
      exact ⟨s, hs, he _ _ _ hresource, he _ _ _ hscope⟩
    · rintro ⟨s, hs, hresource, hscope⟩
      obtain ⟨resource, hr⟩ := h.resourceKnown s hs
      obtain ⟨scope, hsc⟩ := h.scopeKnown s hs
      have hreq := Option.some.inj ((he _ _ _ hr).symm.trans hresource)
      have hseq := Option.some.inj ((he _ _ _ hsc).symm.trans hscope)
      exact ⟨s, hs, hreq ▸ hr, hseq ▸ hsc⟩
  shared := h.shared

theorem mem_scopes (h : b.Keeps kept) (hn : b.tables.scopeNumber s = some n) :
    n ∈ b.scopes ↔ s.scopeKey P ∈ scopesOf P kept := by
  rw [h.scopes, scopesOf, List.mem_toFinset, List.mem_map]
  constructor
  · rintro ⟨k, hk, hkn⟩
    exact ⟨k, hk, Tables.scopeKey_of_scopeNumber hkn hn⟩
  · rintro ⟨k, hk, hkey⟩
    exact ⟨k, hk, (Tables.scopeNumber_congr hkey).trans hn⟩

theorem mem_pairs (h : b.Keeps kept) (hn : b.tables.scopeNumber s = some n)
    (hm : b.tables.resourceNumber s = some m) :
    (m, n) ∈ b.pairs ↔ s.pairKey P ∈ kept.map (SpanContent.pairKey P) := by
  rw [h.pairs, List.mem_map]
  constructor
  · rintro ⟨k, hk, hresource, hscope⟩
    exact ⟨k, hk, Prod.ext (Tables.resourceKey_of_resourceNumber hresource hm)
      (Tables.scopeKey_of_scopeNumber hscope hn)⟩
  · rintro ⟨k, hk, hkey⟩
    obtain ⟨hresource, hscope⟩ := Prod.mk.inj hkey
    exact ⟨k, hk, (Tables.resourceNumber_congr hresource).trans hm,
      (Tables.scopeNumber_congr hscope).trans hn⟩

/-- **As many numbers as contents.** -/
theorem card_scopes (h : b.Keeps kept) : b.scopes.card = (scopesOf P kept).card := by
  have himage : b.scopes.image some = (scopesOf P kept).image
      fun key => b.tables.find? (.scope, key.1) key.2 := by
    ext found
    rw [Finset.mem_image, Finset.mem_image]
    constructor
    · rintro ⟨n, hn, rfl⟩
      obtain ⟨s, hs, hsn⟩ := (h.scopes n).mp hn
      exact ⟨s.scopeKey P, List.mem_toFinset.mpr (List.mem_map_of_mem hs), hsn⟩
    · rintro ⟨key, hkey, rfl⟩
      obtain ⟨s, hs, rfl⟩ := List.mem_map.mp (List.mem_toFinset.mp hkey)
      obtain ⟨n, hn⟩ := h.scopeKnown s hs
      exact ⟨n, (h.scopes n).mpr ⟨s, hs, hn⟩, hn.symm⟩
  rw [← Finset.card_image_of_injective b.scopes (Option.some_injective ℕ), himage]
  refine Finset.card_image_of_injOn ?_
  intro key hkey key' hkey' heq
  obtain ⟨s, hs, rfl⟩ := List.mem_map.mp (List.mem_toFinset.mp (Finset.mem_coe.mp hkey))
  obtain ⟨s', hs', rfl⟩ := List.mem_map.mp (List.mem_toFinset.mp (Finset.mem_coe.mp hkey'))
  obtain ⟨n, hn⟩ := h.scopeKnown s hs
  exact Tables.scopeKey_of_scopeNumber hn (heq.symm.trans hn)

/-- A span kept is counted. -/
theorem insert (h : b.Keeps kept) (hn : b.tables.scopeNumber s = some n)
    (hm : b.tables.resourceNumber s = some m) :
    Budget.Keeps ⟨b.tables, Insert.insert n b.scopes, Insert.insert (m, n) b.pairs,
      b.shared + costOf P kept s⟩ (s :: kept) where
  sound := h.sound
  scopeKnown := List.forall_mem_cons.mpr ⟨⟨n, hn⟩, h.scopeKnown⟩
  resourceKnown := List.forall_mem_cons.mpr ⟨⟨m, hm⟩, h.resourceKnown⟩
  scopes n' := by
    rw [Finset.mem_insert, h.scopes]
    constructor
    · rintro (rfl | ⟨k, hk, hkn⟩)
      · exact ⟨s, List.mem_cons_self, hn⟩
      · exact ⟨k, List.mem_cons_of_mem _ hk, hkn⟩
    · rintro ⟨k, hk, hkn⟩
      rcases List.mem_cons.mp hk with rfl | hk
      · exact Or.inl (Option.some.inj (hkn.symm.trans hn))
      · exact Or.inr ⟨k, hk, hkn⟩
  pairs p := by
    rw [Finset.mem_insert, h.pairs]
    constructor
    · rintro (rfl | ⟨k, hk, hkp⟩)
      · exact ⟨s, List.mem_cons_self, hm, hn⟩
      · exact ⟨k, List.mem_cons_of_mem _ hk, hkp⟩
    · rintro ⟨k, hk, hkm, hkn⟩
      rcases List.mem_cons.mp hk with rfl | hk
      · exact Or.inl (Prod.ext (Option.some.inj (hkm.symm.trans hm))
          (Option.some.inj (hkn.symm.trans hn)))
      · exact Or.inr ⟨k, hk, hkm, hkn⟩
  shared := by rw [totalOf, h.shared]

end Budget.Keeps

/-- A scope that passes its check is measured. -/
theorem scopeCheck_of_rejection {s : SpanContent} (h : s.rejection P = none) :
    (scopeCheck P s.scope).size = (P.scope s.scope).length ∧
      (scopeCheck P s.scope).nameBytes = s.scope.name.utf8ByteSize := by
  have hrejection : (scopeCheck P s.scope).rejection = none := by
    have hsizes := sizes_or P s
    rw [SpanContent.rejection, Option.or_eq_none_iff] at h
    split_ifs at h with hnul hkey hname hattributes hresource
    · exact absurd h.2 (by rintro ⟨⟩)
    · exact absurd h.2 (by rintro ⟨⟩)
    · exact absurd h.2 (by rintro ⟨⟩)
    · exact absurd h.2 (by rintro ⟨⟩)
    · exact absurd h.2 (by rintro ⟨⟩)
    · rw [if_neg hname, if_neg hattributes, if_neg hresource, Option.or_eq_none_iff] at hsizes
      exact hsizes.1
  exact ⟨if_pos hrejection, if_pos hrejection⟩

namespace Tables

variable {t : Tables P heap}

theorem check_fst (t : Tables P heap) (s : OtlpSpan) :
    (t.check s).1 = (heap.read s).rejection P :=
  spanRejection_fst s t.memo

theorem Sound.check (ht : t.Sound) (s : OtlpSpan) :
    (t.check s).2.Sound ∧ t.Extends (t.check s).2 :=
  ⟨ht.withMemo (spanRejection_firsts s t.memo), extends_withMemo (spanRejection_firsts s t.memo)⟩

/-- The scope of a span that passes its check. -/
theorem Sound.numberScope (ht : t.Sound) {s : OtlpSpan} (hs : (heap.read s).rejection P = none) :
    (t.numberScope s).2.Sound ∧ t.Extends (t.numberScope s).2 ∧
      (t.numberScope s).2.scopeNumber (heap.read s) = some (t.numberScope s).1.1 ∧
      (t.numberScope s).1.2 = (P.scope (heap.scope s.scope)).length +
        (heap.url s.scopeSchemaUrl).utf8ByteSize := by
  have hmemo := RequestMemo.getScopeCheck_firsts t.memo s.scope
  obtain ⟨hsound, hextends, hnumber, hbytes⟩ := (ht.withMemo hmemo).number
    (.scope s.scope) s.scopeSchemaUrl (t.memo.getScopeCheck s.scope).1.size false
    (by rw [RequestMemo.getScopeCheck_fst]; rfl)
  refine ⟨hsound, (extends_withMemo hmemo).trans hextends, hnumber, hbytes.trans ?_⟩
  exact congrArg (· + _) (scopeCheck_of_rejection hs).1

theorem Sound.numberResource (ht : t.Sound) (s : OtlpSpan) :
    (t.numberResource s).2.Sound ∧ t.Extends (t.numberResource s).2 ∧
      (t.numberResource s).2.resourceNumber (heap.read s) = some (t.numberResource s).1.1 ∧
      (t.numberResource s).1.2 = (P.resource (heap.resource s.resource)).length +
        (heap.url s.resourceSchemaUrl).utf8ByteSize := by
  have hmemo := RequestMemo.getResourceCheck_firsts t.memo s.resource (heap.url s.resourceSchemaUrl)
  obtain ⟨hsound, hextends, hnumber, hbytes⟩ := (ht.withMemo hmemo).number
    (.resource s.resource) s.resourceSchemaUrl
    (t.memo.getResourceCheck s.resource (heap.url s.resourceSchemaUrl)).1.size true
    (by rw [RequestMemo.getResourceCheck_fst]; rfl)
  exact ⟨hsound, (extends_withMemo hmemo).trans hextends, hnumber, hbytes⟩

theorem Sound.nameBytes (ht : t.Sound) {s : OtlpSpan} (hs : (heap.read s).rejection P = none) :
    (t.nameBytes s).2.Sound ∧ t.Extends (t.nameBytes s).2 ∧
      (t.nameBytes s).1 = (heap.read s).scope.name.utf8ByteSize := by
  have hmemo := RequestMemo.getScopeCheck_firsts t.memo s.scope
  refine ⟨ht.withMemo hmemo, extends_withMemo hmemo, ?_⟩
  show (t.memo.getScopeCheck s.scope).1.nameBytes = _
  rw [RequestMemo.getScopeCheck_fst]
  exact (scopeCheck_of_rejection hs).2

end Tables

namespace Budget.Keeps

variable {b : Budget P heap} {kept : List SpanContent}

/-- **A span that passes its checks is kept by number as it is by content.** -/
theorem place (h : b.Keeps kept) {s : OtlpSpan} (hs : (heap.read s).rejection P = none) :
    (b.place s).1 = verdict P kept (heap.read s) ∧
      (b.place s).2.Keeps (keep P kept (heap.read s)) := by
  unfold keep verdict Budget.place
  rw [hs, Option.none_or]
  obtain ⟨hsound, hextends, hscope, hscopeBytes⟩ := h.sound.numberScope hs
  set scope := b.tables.numberScope s
  have hb := h.extend hsound hextends
  have hlimit : (scope.1.1 ∉ b.scopes ∧ MAX_REQUEST_SCOPES ≤ b.scopes.card) ↔
      (heap.read s).scopeKey P ∉ scopesOf P kept ∧ MAX_REQUEST_SCOPES ≤ (scopesOf P kept).card :=
    and_congr (not_congr (hb.mem_scopes hscope)) (by rw [h.card_scopes])
  dsimp only
  by_cases hover : (heap.read s).scopeKey P ∉ scopesOf P kept ∧
      MAX_REQUEST_SCOPES ≤ (scopesOf P kept).card
  · rw [if_pos (hlimit.mpr hover), if_pos hover, if_neg (by rintro ⟨⟩)]
    exact ⟨rfl, hb⟩
  · rw [if_neg fun hcounted => hover (hlimit.mp hcounted), if_neg hover]
    obtain ⟨hsound', hextends', hresource, hresourceBytes⟩ := hsound.numberResource s
    set resource := scope.2.numberResource s
    obtain ⟨hsound'', hextends'', hname⟩ := hsound'.nameBytes hs
    set name := resource.2.nameBytes s
    have hb' := h.extend hsound'' ((hextends.trans hextends').trans hextends'')
    have hscope' := hextends'' _ _ _ (hextends' _ _ _ hscope)
    have hresource' := hextends'' _ _ _ hresource
    have hcost : name.1 + (if (resource.1.1, scope.1.1) ∈ b.pairs then 0
        else resource.1.2 + scope.1.2) = costOf P kept (heap.read s) := by
      rw [hname, hresourceBytes, hscopeBytes, costOf]
      exact congrArg (_ + ·) (if_congr (hb'.mem_pairs hscope' hresource') rfl rfl)
    rw [hcost, ← h.shared]
    split
    · rw [if_neg (by rintro ⟨⟩)]
      exact ⟨rfl, hb'⟩
    · rw [if_pos rfl]
      exact ⟨rfl, hb'.insert hscope' hresource'⟩

/-- **One span is judged as its content is**, and counted if it is kept. -/
theorem weigh (h : b.Keeps kept) (s : OtlpSpan) :
    (b.weigh s).1 = verdict P kept (heap.read s) ∧
      (b.weigh s).2.Keeps (keep P kept (heap.read s)) := by
  obtain ⟨hsound, hextends⟩ := h.sound.check s
  have hb := h.extend hsound hextends
  unfold Budget.weigh
  dsimp only
  rw [Tables.check_fst]
  split
  · rename_i hs
    exact hb.place hs
  · rename_i hs
    obtain ⟨reason, hreason⟩ := Option.ne_none_iff_exists'.mp hs
    have hverdict : verdict P kept (heap.read s) = some reason := by
      rw [verdict, hreason, Option.some_or]
    rw [keep, hverdict, if_neg (by rintro ⟨⟩), hreason]
    exact ⟨rfl, hb⟩

end Budget.Keeps

theorem Budget.place_of_rejected {b : Budget P heap} {s : OtlpSpan} {reason : Reason}
    (h : (b.place s).1 = some reason) :
    (b.place s).2.scopes = b.scopes ∧ (b.place s).2.pairs = b.pairs ∧
      (b.place s).2.shared = b.shared := by
  unfold Budget.place at h ⊢
  set scope := b.tables.numberScope s
  set resource := scope.2.numberResource s
  set name := resource.2.nameBytes s
  set cost := name.1 + if (resource.1.1, scope.1.1) ∈ b.pairs then 0 else resource.1.2 + scope.1.2
  by_cases hscope : scope.1.1 ∉ b.scopes ∧ MAX_REQUEST_SCOPES ≤ b.scopes.card
  · rw [if_pos hscope]
    exact ⟨rfl, rfl, rfl⟩
  · rw [if_neg hscope] at h ⊢
    by_cases hbytes : MAX_REQUEST_SHARED_BYTES < b.shared + cost
    · rw [if_pos hbytes]
      exact ⟨rfl, rfl, rfl⟩
    · rw [if_neg hbytes] at h
      cases h

/-- **A rejected span changes no budget.** -/
theorem Budget.admit_of_rejected {b : Budget P heap} {s : OtlpSpan} {reason : Reason}
    (h : (b.weigh s).1 = some reason) :
    (b.weigh s).2.scopes = b.scopes ∧ (b.weigh s).2.pairs = b.pairs ∧
      (b.weigh s).2.shared = b.shared := by
  unfold Budget.weigh at h ⊢
  dsimp only at h ⊢
  by_cases hchecked : (b.tables.check s).1 = none
  · rw [if_pos hchecked] at h ⊢
    exact Budget.place_of_rejected h
  · rw [if_neg hchecked]
    exact ⟨rfl, rfl, rfl⟩

/-! ## Verdicts -/

section Verdicts

variable {α β : Type} {kept : List SpanContent}

@[simp] theorem length_verdicts (spans : List SpanContent) :
    (verdicts P kept spans).length = spans.length := by
  induction spans generalizing kept with
  | nil => rfl
  | cons s rest ih => rw [verdicts, List.length_cons, List.length_cons, ih]

theorem verdicts_append (before after : List SpanContent) :
    verdicts P kept (before ++ after) =
      verdicts P kept before ++ verdicts P (before.foldl (keep P) kept) after := by
  induction before generalizing kept with
  | nil => rfl
  | cons s before ih => exact congrArg (verdict P kept s :: ·) ih

/-- **Without a rejected span the others are judged as they were.** -/
theorem verdicts_of_rejected {before after : List SpanContent} {s : SpanContent} {reason : Reason}
    (h : verdict P (before.foldl (keep P) kept) s = some reason) :
    ∃ later, verdicts P kept (before ++ s :: after) =
        verdicts P kept before ++ some reason :: later ∧
      verdicts P kept (before ++ after) = verdicts P kept before ++ later := by
  refine ⟨verdicts P (before.foldl (keep P) kept) after, ?_, verdicts_append before after⟩
  rw [verdicts_append, verdicts, h, keep, h, if_neg (by rintro ⟨⟩)]

theorem keptOf_cons (item : α) (items : List α) (reason : Option Reason)
    (reasons : List (Option Reason)) :
    keptOf (item :: items) (reason :: reasons) =
      if reason = none then item :: keptOf items reasons else keptOf items reasons := by
  unfold keptOf
  rw [List.zip_cons_cons, List.filter_cons]
  by_cases h : reason = none
  · rw [if_pos (decide_eq_true h), if_pos h, List.map_cons]
  · rw [if_neg (by rwa [decide_eq_true_iff]), if_neg h]

theorem keptOf_sublist (items : List α) (reasons : List (Option Reason)) :
    (keptOf items reasons).Sublist items := by
  induction items generalizing reasons with
  | nil => exact List.nil_sublist _
  | cons item items ih =>
    cases reasons with
    | nil => exact List.nil_sublist _
    | cons reason reasons =>
      rw [keptOf_cons]
      split
      · exact (ih reasons).cons_cons item
      · exact (ih reasons).cons item

theorem map_keptOf (f : α → β) (items : List α) (reasons : List (Option Reason)) :
    (keptOf items reasons).map f = keptOf (items.map f) reasons := by
  induction items generalizing reasons with
  | nil => rfl
  | cons item items ih =>
    cases reasons with
    | nil => rfl
    | cons reason reasons =>
      rw [List.map_cons, keptOf_cons, keptOf_cons, ← ih]
      split
      · exact List.map_cons
      · rfl

/-- Every item is kept or has a reason. -/
theorem length_keptOf_add (items : List α) (reasons : List (Option Reason))
    (h : reasons.length = items.length) :
    (keptOf items reasons).length + reasons.reduceOption.length = items.length := by
  induction items generalizing reasons with
  | nil =>
    rw [List.length_eq_zero_iff.mp h]
    rfl
  | cons item items ih =>
    cases reasons with
    | nil => cases h
    | cons reason reasons =>
      have hrest := ih reasons (Nat.succ.inj h)
      rw [keptOf_cons]
      cases reason with
      | none =>
        rw [if_pos rfl, List.reduceOption_cons_of_none, List.length_cons, List.length_cons]
        omega
      | some reason =>
        rw [if_neg (by rintro ⟨⟩), List.reduceOption_cons_of_some, List.length_cons,
          List.length_cons]
        omega

/-- **The spans kept are all kept again.** -/
theorem verdicts_keptOf (spans : List SpanContent) :
    verdicts P kept (keptOf spans (verdicts P kept spans)) =
      List.replicate (keptOf spans (verdicts P kept spans)).length none := by
  induction spans generalizing kept with
  | nil => rfl
  | cons s rest ih =>
    rw [verdicts, keptOf_cons, keep]
    split
    · rename_i h
      rw [verdicts, h, keep, if_pos h, ih, List.length_cons, List.replicate_succ]
    · exact ih

theorem keptOf_replicate (items : List α) :
    keptOf items (List.replicate items.length none) = items := by
  induction items with
  | nil => rfl
  | cons item items ih =>
    rw [List.length_cons, List.replicate_succ, keptOf_cons, if_pos rfl, ih]

end Verdicts

/-! ## Counts -/

theorem sum_bump (counts : List (Reason × ℕ)) (reason : Reason) :
    ((bump counts reason).map Prod.snd).sum = (counts.map Prod.snd).sum + 1 := by
  induction counts with
  | nil => rfl
  | cons entry rest ih =>
    rw [bump]
    split
    · rw [List.map_cons, List.map_cons, List.sum_cons, List.sum_cons]
      omega
    · rw [List.map_cons, List.map_cons, List.sum_cons, List.sum_cons, ih]
      omega

theorem lookup_bump (counts : List (Reason × ℕ)) (reason reason' : Reason) :
    ((bump counts reason).lookup reason').getD 0 =
      (counts.lookup reason').getD 0 + if reason = reason' then 1 else 0 := by
  induction counts with
  | nil =>
    rw [bump, List.lookup_cons]
    by_cases h : reason = reason'
    · rw [h, beq_self_eq_true, if_pos rfl]
      rfl
    · rw [beq_eq_false_iff_ne.mpr (Ne.symm h), if_neg h]
      rfl
  | cons entry rest ih =>
    rw [bump]
    by_cases hentry : entry.1 = reason
    · rw [if_pos hentry, List.lookup_cons, List.lookup_cons, hentry]
      by_cases h : reason = reason'
      · rw [h, beq_self_eq_true, if_pos rfl]
        rfl
      · rw [beq_eq_false_iff_ne.mpr (Ne.symm h), if_neg h]
        rfl
    · rw [if_neg hentry, List.lookup_cons, List.lookup_cons]
      by_cases h : reason' = entry.1
      · rw [h, beq_self_eq_true, if_neg (Ne.symm hentry)]
        rfl
      · rw [beq_eq_false_iff_ne.mpr h, ih]

theorem sum_tally (reasons : List Reason) (counts : List (Reason × ℕ)) :
    ((reasons.foldl bump counts).map Prod.snd).sum =
      (counts.map Prod.snd).sum + reasons.length := by
  induction reasons generalizing counts with
  | nil => rfl
  | cons reason reasons ih =>
    rw [List.foldl_cons, ih, sum_bump, List.length_cons]
    omega

theorem lookup_tally (reasons : List (Option Reason)) (counts : List (Reason × ℕ))
    (reason : Reason) :
    ((reasons.reduceOption.foldl bump counts).lookup reason).getD 0 =
      (counts.lookup reason).getD 0 + reasons.count (some reason) := by
  induction reasons generalizing counts with
  | nil => rfl
  | cons first reasons ih =>
    cases first with
    | none => rw [List.reduceOption_cons_of_none, ih, List.count_cons_of_ne (by rintro ⟨⟩)]
    | some first =>
      rw [List.reduceOption_cons_of_some, List.foldl_cons, ih, lookup_bump, List.count_cons,
        Nat.add_assoc]
      congr 1
      rw [Nat.add_comm]
      congr 1
      exact if_congr (by rw [beq_iff_eq, Option.some_inj]) rfl rfl

/-! ## The whole request -/

/-- **The loop notes each span under its content's verdict.** -/
theorem Budget.Keeps.validateFrom {b : Budget P heap} {kept : List SpanContent} (h : b.Keeps kept)
    (v : SpanValidation) (spans : List OtlpSpan) :
    Otlp.validateFrom b v spans =
      ⟨v.accepted ++ keptOf spans (verdicts P kept (spans.map heap.read)),
        (verdicts P kept (spans.map heap.read)).reduceOption.foldl bump v.rejected⟩ := by
  induction spans generalizing b kept v with
  | nil => exact congrArg (SpanValidation.mk · v.rejected) (List.append_nil _).symm
  | cons s rest ih =>
    obtain ⟨hverdict, hkeeps⟩ := h.weigh s
    rw [Otlp.validateFrom, ih hkeeps, hverdict, List.map_cons, verdicts, keptOf_cons]
    cases hreason : verdict P kept (heap.read s) with
    | none =>
      rw [if_pos rfl, List.reduceOption_cons_of_none]
      exact congrArg (SpanValidation.mk · _) (List.append_assoc _ _ _)
    | some reason =>
      rw [if_neg (by rintro ⟨⟩), List.reduceOption_cons_of_some]
      rfl

theorem validateSpans_eq (spans : List OtlpSpan) :
    validateSpans P heap spans =
      ⟨keptOf spans (verdicts P [] (spans.map heap.read)),
        (verdicts P [] (spans.map heap.read)).reduceOption.foldl bump []⟩ :=
  (Budget.Keeps.empty P heap).validateFrom ⟨[], []⟩ spans

/-- **A request is judged by its contents**, whichever of its spans share
their objects: the spans kept are those no verdict rejects, in their order,
and the counts are those of the verdicts. A rejected span changes no budget,
and no later verdict; and what was kept is kept again, from whatever objects
it is read. -/
theorem validateSpans_judges (P : Protobuf) (heap : Heap) (spans : List OtlpSpan) :
    (validateSpans P heap spans).accepted =
        keptOf spans (verdicts P [] (spans.map heap.read)) ∧
      (∀ reason, ((validateSpans P heap spans).rejected.lookup reason).getD 0 =
        (verdicts P [] (spans.map heap.read)).count (some reason)) ∧
      (validateSpans P heap spans).accepted.Sublist spans ∧
      (validateSpans P heap spans).accepted.length +
        (validateSpans P heap spans).rejectedSpans = spans.length ∧
      (∀ (b : Budget P heap) (s : OtlpSpan) (reason : Reason), (b.weigh s).1 = some reason →
        (b.weigh s).2.scopes = b.scopes ∧ (b.weigh s).2.pairs = b.pairs ∧
          (b.weigh s).2.shared = b.shared) ∧
      (∀ (before after : List SpanContent) (s : SpanContent) (reason : Reason),
        verdict P (before.foldl (keep P) []) s = some reason →
          ∃ later, verdicts P [] (before ++ s :: after) =
              verdicts P [] before ++ some reason :: later ∧
            verdicts P [] (before ++ after) = verdicts P [] before ++ later) ∧
      ∀ (heap' : Heap) (again : List OtlpSpan),
        again.map heap'.read = (validateSpans P heap spans).accepted.map heap.read →
          validateSpans P heap' again = ⟨again, []⟩ := by
  rw [validateSpans_eq]
  have hlength : (verdicts P [] (spans.map heap.read)).length = spans.length := by
    rw [length_verdicts, List.length_map]
  refine ⟨rfl, fun reason => ?_, keptOf_sublist _ _, ?_, fun _ _ _ => Budget.admit_of_rejected,
    fun _ _ _ _ => verdicts_of_rejected, ?_⟩
  · exact (lookup_tally _ _ _).trans (Nat.zero_add _)
  · rw [SpanValidation.rejectedSpans, sum_tally, List.map_nil, List.sum_nil, Nat.zero_add]
    exact length_keptOf_add _ _ hlength
  · intro heap' again hagain
    have hcontents : (keptOf spans (verdicts P [] (spans.map heap.read))).map heap.read =
        keptOf (spans.map heap.read) (verdicts P [] (spans.map heap.read)) := map_keptOf _ _ _
    have hall : verdicts P [] (again.map heap'.read) = List.replicate again.length none := by
      rw [hagain, hcontents, verdicts_keptOf, ← hcontents, ← hagain, List.length_map]
    rw [validateSpans_eq, hall, keptOf_replicate]
    congr 1
    have hnone : (List.replicate again.length (none : Option Reason)).reduceOption = [] := by
      rw [List.reduceOption_replicate_none]
    rw [hnone]
    rfl

end Earshot.Otlp
