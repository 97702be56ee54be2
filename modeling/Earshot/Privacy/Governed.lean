import Earshot.Common.Run
import Earshot.Privacy.Gate
/-!
# What the gate admits

A record that passes the gate is what a recorder under the same policy would
have written: its attribute maps and its labels are left as they are, and no
content of a class that the policy disables stands in it.
-/

namespace Earshot

namespace Privacy

open Checked

variable {py : Python} {policy : CapturePolicy} {contract : Contract py}
variable {entry : JournalRecordEntry} {record : Value} {classes : List CaptureClass}

/-- A record retains content of a class. -/
inductive Retains (py : Python) (record : Value) : CaptureClass → Prop where
  /-- A key, of a map at any depth. -/
  | key {entries : List (String × Value)} {entry : String × Value} :
      Inside (.map entries) record → entry ∈ entries → Retains py record
        (classifyAttribute py entry.1)
  | extraKey {type : ModelType} {fields extra : List (String × Value)}
      {entry : String × Value} : Inside (.model type fields extra) record → entry ∈ extra →
        Retains py record (classifyAttribute py entry.1)
  | extra {type : ModelType} {fields extra : List (String × Value)} :
      Inside (.model type fields extra) record → extra ≠ [] →
        Retains py record .extensionPayload
  /-- A key of an attribute map that is not known to be safe. -/
  | unknownKey {type : ModelType} {fields extra attributes : List (String × Value)}
      {name : String} {entry : String × Value} : Inside (.model type fields extra) record →
        name ∈ ATTRIBUTE_FIELDS → (name, .map attributes) ∈ fields → entry ∈ attributes →
        classifyAttribute py entry.1 = .metadata → isSafeMetadataKey entry.1 = false →
        Retains py record .extensionPayload
  | captureClass {type : ModelType} {fields extra : List (String × Value)} {name : String}
      {captureClass : CaptureClass} : Inside (.model type fields extra) record →
        ("capture_class", .str name) ∈ fields → CaptureClass.ofName name = some captureClass →
        Retains py record captureClass
  | message {type : ModelType} {fields extra : List (String × Value)} {value : Value} :
      Inside (.model type fields extra) record → ("message", value) ∈ fields → value ≠ .null →
        Retains py record .diagnosticPayload
  | media {fields extra : List (String × Value)} : record = .model .mediaRef fields extra →
      Retains py record .audio

/-- What a recorder under the policy would have written. -/
structure RecorderGoverned (py : Python) (policy : CapturePolicy) (record : Value) : Prop where
  attributes : ∀ type fields extra, Inside (.model type fields extra) record →
    ∀ name ∈ ATTRIBUTE_FIELDS, ∀ value,
      (Value.model type fields extra).getattr name = some value → value ≠ .null →
      ∃ attributes, value = .map attributes ∧
        sanitizeAttributes py policy attributes = (attributes, [])
  retained : ∀ captureClass, Retains py record captureClass →
    policy.allows captureClass = true
  labels : ∀ type fields extra, Inside (.model type fields extra) record →
    ∀ label ∈ recorderLabels type, ∀ value,
      (Value.model type fields extra).getattr label.1 = some value → value ≠ .null →
      ∃ s, value = .str s ∧ label.2.fixes py policy s = true
  measurements : ∀ fields extra, Inside (.model .qualitySample fields extra) record →
    ∀ measurement ∈ measurements (.model .qualitySample fields extra),
      ∀ label ∈ measurementLabels, ∀ value, measurement.getattr label.1 = some value →
        value ≠ .null → ∃ s, value = .str s ∧ label.2.fixes py policy s = true
  locators : ∀ fields extra, record = .model .mediaRef fields extra →
    ∀ fields' extra', record.getattr "locator" = some (.model .mediaLocator fields' extra') →
      ∃ uri, (Value.model .mediaLocator fields' extra').getattr "uri" = some (.str uri) ∧
        mediaLocatorSafety py uri = .portable

/-- What passes the gate is governed: its classes are enabled, and a record is
as a recorder would have written it. -/
structure Governed (py : Python) (policy : CapturePolicy) (fact : Option Fact)
    (classes : List CaptureClass) : Prop where
  enabled : ∀ captureClass ∈ classes, policy.allows captureClass = true
  record : ∀ record, fact = some (.record record) → RecorderGoverned py policy record

/-- An opaque chunk comes under a policy that allows it; the name of an
instrumentation scope is no longer than a label, or a digest; and the status of
an operation is no digest. -/
structure WithinLabels (py : Python) (policy : CapturePolicy) (contract : Contract py)
    (entry : JournalRecordEntry) : Prop where
  rawOtlp : entry.kind = .rawOtlp → policy.allows .rawOtlp = true
  scopeName : ∀ type value record, entry.kind.model = some type → entry.value = some value →
    contract.modelValidate type value = some record →
    ∀ type fields extra, Inside (.model type fields extra) record →
      type = .operation ∨ type = .event ∨ type = .qualitySample →
      ∀ s, (Value.model type fields extra).getattr "instrumentation_scope_name" =
        some (.str s) → s.length ≤ 128 ∨ isSha256Label s = true
  status : ∀ type value record, entry.kind.model = some type → entry.value = some value →
    contract.modelValidate type value = some record →
    ∀ fields extra, Inside (.model .operation fields extra) record →
      ∀ s, (Value.model .operation fields extra).getattr "status" = some (.str s) →
        isSha256Label s = false

/-! ## Loops -/

theorem checkAll_ok {β : Type} {check : β → Except String Unit} {items : List β} :
    checkAll check items = .ok () ↔ ∀ item ∈ items, check item = .ok () := by
  induction items with
  | nil => exact ⟨fun _ item hmem => absurd hmem List.not_mem_nil, fun _ => rfl⟩
  | cons item items ih =>
    unfold checkAll
    cases hcheck : check item with
    | error e =>
      refine ⟨fun h => (by cases h), fun h => ?_⟩
      have := h item List.mem_cons_self
      rw [hcheck] at this
      cases this
    | ok u =>
      dsimp only
      rw [ih]
      refine ⟨fun h other hmem => ?_, fun h other hmem => h other (List.mem_cons_of_mem _ hmem)⟩
      rcases List.mem_cons.mp hmem with rfl | hrest
      · exact hcheck
      · exact h other hrest

/-! ## The walk over models -/

theorem Value.pending_of_child {value inner : Value} (h : inner ∈ value.children)
    (hpayload : ∀ type fields extra, value = .model type fields extra →
      "payload" ∉ fields.map (·.1)) : inner ∈ value.pending := by
  cases value with
  | model type fields extra =>
    have hnot := hpayload type fields extra rfl
    rcases List.mem_append.mp h with hfield | hextra
    · obtain ⟨field, hmem, rfl⟩ := List.mem_map.mp hfield
      refine List.mem_append_left _ (List.mem_map.mpr ⟨field, List.mem_filter.mpr ⟨hmem, ?_⟩, rfl⟩)
      rw [bne_iff_ne]
      intro heq
      exact hnot (List.mem_map.mpr ⟨field, hmem, heq⟩)
    · exact List.mem_append_right _ hextra
  | seq | map | null | bool | int | float | str => exact h

theorem Value.child_of_pending {value inner : Value} (h : inner ∈ value.pending) :
    inner ∈ value.children := by
  cases value with
  | model type fields extra =>
    rcases List.mem_append.mp h with hfield | hextra
    · obtain ⟨field, hmem, rfl⟩ := List.mem_map.mp hfield
      exact List.mem_append_left _ (List.mem_map.mpr ⟨field, List.mem_of_mem_filter hmem, rfl⟩)
    · exact List.mem_append_right _ hextra
  | seq | map | null | bool | int | float | str => exact h

/-- No model in a value declares a payload. -/
def NoPayload (value : Value) : Prop :=
  ∀ type fields extra, Inside (.model type fields extra) value → "payload" ∉ fields.map (·.1)

/-- What is on the stack after one turn. -/
theorem mem_walkModels_cons {model current : Value} {pending : List Value}
    (hmodel : model.isModel = true)
    (h : ∀ value ∈ current.pending.reverse ++ pending, Inside model value →
      model ∈ walkModels (current.pending.reverse ++ pending))
    (hpayload : NoPayload current) {value : Value} (hmem : value ∈ current :: pending)
    (hinside : Inside model value) : model ∈ walkModels (current :: pending) := by
  have hsub : model ∈ walkModels (current.pending.reverse ++ pending) →
      model ∈ walkModels (current :: pending) := by
    intro hmem
    rw [walkModels]
    split
    · exact List.mem_cons_of_mem _ hmem
    · exact hmem
  rcases List.mem_cons.mp hmem with rfl | hrest
  · cases hinside with
    | refl =>
      rw [walkModels, if_pos hmodel]
      exact List.mem_cons_self
    | child hchild hin =>
      have hpushed := Value.pending_of_child hchild fun type fields extra heq =>
        hpayload type fields extra (heq ▸ .refl)
      exact hsub (h _ (List.mem_append_left _ (List.mem_reverse.mpr hpushed)) hin)
  · exact hsub (h _ (List.mem_append_right _ hrest) hinside)

/-- What is pushed declares no payload either. -/
theorem noPayload_pushed {current : Value} {pending : List Value}
    (hpayload : ∀ value ∈ current :: pending, NoPayload value) :
    ∀ value ∈ current.pending.reverse ++ pending, NoPayload value := by
  intro value hvalue type fields extra hin
  rcases List.mem_append.mp hvalue with hpushed | hrest
  · exact hpayload current List.mem_cons_self type fields extra
      (.child (Value.child_of_pending (List.mem_reverse.mp hpushed)) hin)
  · exact hpayload value (List.mem_cons_of_mem _ hrest) type fields extra hin

/-- **The walk reaches every model**, at any depth: by induction on its turns. -/
theorem mem_walkModels {model : Value} (hmodel : model.isModel = true) (pending : List Value)
    (hpayload : ∀ value ∈ pending, NoPayload value) :
    ∀ value ∈ pending, Inside model value → model ∈ walkModels pending := by
  induction pending using walkModels.induct with
  | case1 => exact fun value hmem => absurd hmem List.not_mem_nil
  | case2 current pending hcurrent ih =>
    exact fun value hmem hinside => mem_walkModels_cons hmodel (ih (noPayload_pushed hpayload))
      (hpayload current List.mem_cons_self) hmem hinside
  | case3 current pending hcurrent ih =>
    exact fun value hmem hinside => mem_walkModels_cons hmodel (ih (noPayload_pushed hpayload))
      (hpayload current List.mem_cons_self) hmem hinside

/-! ## The classes of a record -/

theorem collectItems_mem {items : List Value} (h : collectItems py policy items = .ok classes)
    {item : Value} (hmem : item ∈ items) :
    ∃ below, collectClasses py policy false item = .ok below ∧ below ⊆ classes := by
  induction items generalizing classes with
  | nil => exact absurd hmem List.not_mem_nil
  | cons first items ih =>
    unfold collectItems at h
    obtain ⟨ofItem, hitem, h⟩ := bind_eq_ok.mp h
    obtain ⟨ofItems, hitems, h⟩ := bind_eq_ok.mp h
    obtain rfl := Except.ok.inj h
    rcases List.mem_cons.mp hmem with rfl | hrest
    · exact ⟨ofItem, hitem, List.subset_append_left _ _⟩
    · obtain ⟨below, hbelow, hsub⟩ := ih hitems hrest
      exact ⟨below, hbelow, fun c hc => List.mem_append_right _ (hsub hc)⟩

theorem collectEntries_mem {attributeMap : Bool} {entries : List (String × Value)}
    (h : collectEntries py policy attributeMap entries = .ok classes) {entry : String × Value}
    (hmem : entry ∈ entries) :
    (∃ below, collectClasses py policy false entry.2 = .ok below ∧ below ⊆ classes) ∧
      keyClasses py attributeMap entry.1 ⊆ classes := by
  induction entries generalizing classes with
  | nil => exact absurd hmem List.not_mem_nil
  | cons first entries ih =>
    obtain ⟨key, child⟩ := first
    unfold collectEntries at h
    obtain ⟨ofItem, hitem, h⟩ := bind_eq_ok.mp h
    obtain ⟨ofEntries, hentries, h⟩ := bind_eq_ok.mp h
    obtain rfl := Except.ok.inj h
    rcases List.mem_cons.mp hmem with rfl | hrest
    · refine ⟨⟨ofItem, hitem, fun c hc => ?_⟩, fun c hc => ?_⟩
      · exact List.mem_append_left _ (List.mem_append_right _ hc)
      · exact List.mem_append_left _ (List.mem_append_left _ hc)
    · obtain ⟨⟨below, hbelow, hsub⟩, hkey⟩ := ih hentries hrest
      exact ⟨⟨below, hbelow, fun c hc => List.mem_append_right _ (hsub hc)⟩,
        fun c hc => List.mem_append_right _ (hkey hc)⟩

theorem collectFields_mem {fields : List (String × Value)}
    (h : collectFields py policy fields = .ok classes) {field : String × Value}
    (hmem : field ∈ fields) :
    (∃ below, collectClasses py policy (ATTRIBUTE_FIELDS.contains field.1) field.2 = .ok below ∧
        below ⊆ classes) ∧
      ∃ own, fieldClasses field.1 field.2 = .ok own ∧ own ⊆ classes := by
  induction fields generalizing classes with
  | nil => exact absurd hmem List.not_mem_nil
  | cons first fields ih =>
    obtain ⟨name, value⟩ := first
    unfold collectFields at h
    obtain ⟨own, hown, h⟩ := bind_eq_ok.mp h
    obtain ⟨ofValue, hvalue, h⟩ := bind_eq_ok.mp h
    obtain ⟨ofFields, hfields, h⟩ := bind_eq_ok.mp h
    obtain rfl := Except.ok.inj h
    rcases List.mem_cons.mp hmem with rfl | hrest
    · refine ⟨⟨ofValue, hvalue, fun c hc => ?_⟩, own, hown, fun c hc => ?_⟩
      · exact List.mem_append_left _ (List.mem_append_right _ hc)
      · exact List.mem_append_left _ (List.mem_append_left _ hc)
    · obtain ⟨⟨below, hbelow, hsub⟩, own', hown', hsub'⟩ := ih hfields hrest
      exact ⟨⟨below, hbelow, fun c hc => List.mem_append_right _ (hsub hc)⟩, own', hown',
        fun c hc => List.mem_append_right _ (hsub' hc)⟩

theorem collectClasses_model {attributeMap : Bool} {type : ModelType}
    {fields extra : List (String × Value)}
    (h : collectClasses py policy attributeMap (.model type fields extra) = .ok classes) :
    (∃ below, collectFields py policy fields = .ok below ∧ below ⊆ classes) ∧
      (extra ≠ [] → .extensionPayload ∈ classes ∧
        ∃ below, collectEntries py policy false extra = .ok below ∧ below ⊆ classes) := by
  unfold collectClasses at h
  split at h
  · next hempty =>
    exact ⟨⟨classes, h, List.Subset.refl _⟩, fun hextra =>
      absurd (List.isEmpty_iff.mp hempty) hextra⟩
  · obtain ⟨u, -, h⟩ := bind_eq_ok.mp h
    obtain ⟨ofExtra, hextra, h⟩ := bind_eq_ok.mp h
    obtain ⟨ofFields, hfields, h⟩ := bind_eq_ok.mp h
    obtain rfl := Except.ok.inj h
    refine ⟨⟨ofFields, hfields, fun c hc => ?_⟩, fun _ => ⟨List.mem_cons_self, ofExtra, hextra,
      fun c hc => ?_⟩⟩
    · exact List.mem_cons_of_mem _ (List.mem_append_right _ hc)
    · exact List.mem_cons_of_mem _ (List.mem_append_left _ hc)

/-- The classes of what stands directly in a value. -/
theorem collectClasses_child {attributeMap : Bool} {value inner : Value}
    (h : collectClasses py policy attributeMap value = .ok classes)
    (hinner : inner ∈ value.children) :
    ∃ attributeMap' below, collectClasses py policy attributeMap' inner = .ok below ∧
      below ⊆ classes := by
  cases value with
  | seq items =>
    unfold collectClasses at h
    exact ⟨false, collectItems_mem h hinner⟩
  | map entries =>
    unfold collectClasses at h
    obtain ⟨entry, hmem, rfl⟩ := List.mem_map.mp hinner
    exact ⟨false, (collectEntries_mem h hmem).1⟩
  | model type fields extra =>
    obtain ⟨⟨below, hfields, hsub⟩, hextra⟩ := collectClasses_model h
    rcases List.mem_append.mp hinner with hfield | hother
    · obtain ⟨field, hmem, rfl⟩ := List.mem_map.mp hfield
      obtain ⟨⟨below', hbelow, hsub'⟩, -⟩ := collectFields_mem hfields hmem
      exact ⟨_, below', hbelow, List.Subset.trans hsub' hsub⟩
    · obtain ⟨entry, hmem, rfl⟩ := List.mem_map.mp hother
      obtain ⟨-, below', hentries, hsub'⟩ := hextra (List.ne_nil_of_mem hmem)
      obtain ⟨⟨below'', hbelow, hsub''⟩, -⟩ := collectEntries_mem hentries hmem
      exact ⟨false, below'', hbelow, List.Subset.trans hsub'' hsub'⟩
  | null | bool | int | float | str => exact absurd hinner List.not_mem_nil

/-- **The collection reaches every value**, at any depth. -/
theorem collectClasses_inside {attributeMap : Bool} {value inner : Value}
    (hinside : Inside inner value)
    (h : collectClasses py policy attributeMap value = .ok classes) :
    ∃ attributeMap' below, collectClasses py policy attributeMap' inner = .ok below ∧
      below ⊆ classes := by
  induction hinside generalizing attributeMap classes with
  | refl => exact ⟨attributeMap, classes, h, List.Subset.refl _⟩
  | child hchild hin ih =>
    obtain ⟨attributeMap', below, hbelow, hsub⟩ := collectClasses_child h hchild
    obtain ⟨attributeMap'', below', hbelow', hsub'⟩ := ih hbelow
    exact ⟨attributeMap'', below', hbelow', List.Subset.trans hsub' hsub⟩

theorem mem_keyClasses {attributeMap : Bool} {key : String}
    (h : classifyAttribute py key ≠ .metadata) :
    classifyAttribute py key ∈ keyClasses py attributeMap key := by
  unfold keyClasses
  dsimp only
  rw [if_pos h]
  exact List.mem_singleton.mpr rfl

/-- **Every class of content that a record retains is collected.** -/
theorem retains_mem (hcollect : collectClasses py policy false record = .ok classes)
    {captureClass : CaptureClass} (h : Retains py record captureClass) :
    captureClass = .metadata ∨ captureClass ∈ classes ∨
      ∃ fields extra, record = .model .mediaRef fields extra ∧ captureClass = .audio := by
  cases h with
  | @key entries entry hinside hmem =>
    obtain ⟨attributeMap, below, hbelow, hsub⟩ := collectClasses_inside hinside hcollect
    unfold collectClasses at hbelow
    by_cases hclass : classifyAttribute py entry.1 = .metadata
    · exact .inl hclass
    · exact .inr (.inl (hsub ((collectEntries_mem hbelow hmem).2 (mem_keyClasses hclass))))
  | @extraKey type fields extra entry hinside hmem =>
    obtain ⟨attributeMap, below, hbelow, hsub⟩ := collectClasses_inside hinside hcollect
    obtain ⟨-, below', hentries, hsub'⟩ :=
      (collectClasses_model hbelow).2 (List.ne_nil_of_mem hmem)
    by_cases hclass : classifyAttribute py entry.1 = .metadata
    · exact .inl hclass
    · exact .inr (.inl (hsub (hsub'
        ((collectEntries_mem hentries hmem).2 (mem_keyClasses hclass)))))
  | extra hinside hextra =>
    obtain ⟨attributeMap, below, hbelow, hsub⟩ := collectClasses_inside hinside hcollect
    exact .inr (.inl (hsub ((collectClasses_model hbelow).2 hextra).1))
  | @unknownKey type fields extra attributes name entry hinside hname hfield hmem hclass hsafe =>
    obtain ⟨attributeMap, below, hbelow, hsub⟩ := collectClasses_inside hinside hcollect
    obtain ⟨⟨below', hfields, hsub'⟩, -⟩ := collectClasses_model hbelow
    obtain ⟨⟨below'', hvalue, hsub''⟩, -⟩ := collectFields_mem hfields hfield
    rw [List.contains_iff_mem.mpr hname] at hvalue
    unfold collectClasses at hvalue
    refine .inr (.inl (hsub (hsub' (hsub'' ((collectEntries_mem hvalue hmem).2 ?_)))))
    unfold keyClasses
    dsimp only
    rw [if_neg (not_not.mpr hclass), hsafe]
    exact List.mem_singleton.mpr rfl
  | @captureClass type fields extra name captureClass hinside hfield hname =>
    obtain ⟨attributeMap, below, hbelow, hsub⟩ := collectClasses_inside hinside hcollect
    obtain ⟨⟨below', hfields, hsub'⟩, -⟩ := collectClasses_model hbelow
    obtain ⟨-, own, hown, hsub''⟩ := collectFields_mem hfields hfield
    unfold fieldClasses at hown
    dsimp only at hown
    rw [if_pos rfl, hname] at hown
    obtain rfl := Except.ok.inj hown
    exact .inr (.inl (hsub (hsub' (hsub'' List.mem_cons_self))))
  | @message type fields extra value hinside hfield hnull =>
    obtain ⟨attributeMap, below, hbelow, hsub⟩ := collectClasses_inside hinside hcollect
    obtain ⟨⟨below', hfields, hsub'⟩, -⟩ := collectClasses_model hbelow
    obtain ⟨-, own, hown, hsub''⟩ := collectFields_mem hfields hfield
    have hmem : .diagnosticPayload ∈ own := by
      unfold fieldClasses at hown
      dsimp only at hown
      split at hown
      · exact absurd rfl hnull
      · rw [if_neg (by decide), if_pos rfl] at hown
        rw [← Except.ok.inj hown]
        exact List.mem_cons_self
      · rw [if_neg (by decide), if_pos rfl] at hown
        rw [← Except.ok.inj hown]
        exact List.mem_cons_self
    exact .inr (.inl (hsub (hsub' (hsub'' hmem))))
  | media hrecord => exact .inr (.inr ⟨_, _, hrecord, rfl⟩)

/-! ## Attribute maps -/

mutual

/-- A snapshot is the value itself. -/
theorem snapshotPortableValue_eq {depth : ℕ} {value snapshot : Value}
    (h : snapshotPortableValue depth value = some snapshot) : snapshot = value := by
  cases value with
  | null =>
    unfold snapshotPortableValue at h
    split at h
    · cases h
    · exact (Option.some.inj h).symm
  | bool b =>
    unfold snapshotPortableValue at h
    split at h
    · cases h
    · exact (Option.some.inj h).symm
  | int n =>
    unfold snapshotPortableValue at h
    split at h
    · cases h
    · split at h
      · cases h
      · exact (Option.some.inj h).symm
  | float x =>
    unfold snapshotPortableValue at h
    split at h
    · cases h
    · split at h
      · cases h
      · exact (Option.some.inj h).symm
  | str s =>
    unfold snapshotPortableValue at h
    split at h
    · cases h
    · exact (Option.some.inj h).symm
  | seq items =>
    unfold snapshotPortableValue at h
    split at h
    · cases h
    · obtain ⟨items', hitems, rfl⟩ := Option.map_eq_some_iff.mp h
      rw [snapshotItems_eq hitems]
  | map entries =>
    unfold snapshotPortableValue at h
    split at h
    · cases h
    · obtain ⟨entries', hentries, rfl⟩ := Option.map_eq_some_iff.mp h
      rw [snapshotEntries_eq hentries]
  | model type fields extra =>
    unfold snapshotPortableValue at h
    cases h

theorem snapshotItems_eq {depth : ℕ} {items snapshot : List Value}
    (h : snapshotItems depth items = some snapshot) : snapshot = items := by
  cases items with
  | nil =>
    unfold snapshotItems at h
    exact (Option.some.inj h).symm
  | cons item items =>
    unfold snapshotItems at h
    split at h
    · cases h
    · next item' hitem =>
      obtain ⟨items', hitems, rfl⟩ := Option.map_eq_some_iff.mp h
      rw [snapshotPortableValue_eq hitem, snapshotItems_eq hitems]

theorem snapshotEntries_eq {depth : ℕ} {entries snapshot : List (String × Value)}
    (h : snapshotEntries depth entries = some snapshot) : snapshot = entries := by
  cases entries with
  | nil =>
    unfold snapshotEntries at h
    exact (Option.some.inj h).symm
  | cons entry entries =>
    obtain ⟨key, child⟩ := entry
    unfold snapshotEntries at h
    split at h
    · cases h
    · next child' hchild =>
      obtain ⟨entries', hentries, rfl⟩ := Option.map_eq_some_iff.mp h
      rw [snapshotPortableValue_eq hchild, snapshotEntries_eq hentries]

end

/-- A value that is kept is kept as it is. -/
theorem sanitizeAttribute_eq {key : String} {value snapshot : Value}
    (h : sanitizeAttribute py policy key value = .ok snapshot) : snapshot = value := by
  unfold sanitizeAttribute at h
  dsimp only at h
  split at h
  · split at h
    · next kept hkept =>
      obtain rfl := Except.ok.inj h
      unfold sanitizeValue at hkept
      dsimp only at hkept
      split at hkept
      · cases hkept
      · next copy hcopy =>
        split at hkept
        · cases hkept
        · split at hkept
          · cases hkept
          · cases hkept
          · split at hkept
            · rw [← Except.ok.inj hkept]
              exact snapshotPortableValue_eq hcopy
            · cases hkept
    · cases h
  · split at h <;> cases h

/-- **A map with nothing omitted is left as it is.** -/
theorem sanitizeAttributes_fixed {attributes : List (String × Value)}
    (h : (sanitizeAttributes py policy attributes).2 = []) :
    sanitizeAttributes py policy attributes = (attributes, []) := by
  induction attributes with
  | nil => rfl
  | cons first attributes ih =>
    obtain ⟨key, value⟩ := first
    unfold sanitizeAttributes at h ⊢
    dsimp only at h ⊢
    split at h
    · next snapshot hkept =>
      have hrest := ih h
      rw [hrest, sanitizeAttribute_eq hkept]
    · cases h

/-! ## Labels -/

theorem isLabel_length {most : ℕ} {value : String} (h : isLabel most value = true) :
    value.length ≤ most + 1 := by
  unfold isLabel at h
  split at h
  · cases h
  · next c rest heq =>
    simp only [Bool.and_eq_true, decide_eq_true_eq] at h
    rw [← String.length_toList, heq, List.length_cons]
    omega

theorem isLabel_of_length {most least : ℕ} {value : String} (h : isLabel most value = true)
    (hlength : value.length ≤ least + 1) : isLabel least value = true := by
  unfold isLabel at h ⊢
  split at h
  · cases h
  · next c rest heq =>
    rw [← String.length_toList, heq, List.length_cons] at hlength
    simp only [Bool.and_eq_true, decide_eq_true_eq] at h ⊢
    exact ⟨⟨h.1.1, by omega⟩, h.2⟩

/-- A digest is a safe label. -/
theorem isSha256Label_digestLabel (value : String) :
    isSha256Label (digestLabel py value) = true := by
  have hlist : (digestLabel py value).toList = "sha256:".toList ++ (py.sha256 value).text.toList :=
    String.toList_append
  have hdrop : (digestLabel py value).toList.drop 7 = (py.sha256 value).text.toList := by
    rw [hlist]
    rfl
  unfold isSha256Label
  rw [hdrop, hlist]
  simp only [Bool.and_eq_true, decide_eq_true_eq]
  refine ⟨⟨?_, (py.sha256 value).length⟩, (py.sha256 value).hex⟩
  exact List.isPrefixOf_iff_prefix.mpr (List.prefix_append _ _)

/-- **Normalizing leaves a label as it is** only where it is safe. -/
theorem sanitizeLabel_fixed {safe : String → Bool} {value : String}
    (hsafe : ∀ value, isSha256Label value = true → safe value = true) :
    sanitizeLabel py safe value = value ↔ safe value = true := by
  unfold sanitizeLabel
  constructor
  · intro h
    split at h
    · next hvalue => exact hvalue
    · rw [← h]
      exact hsafe _ (isSha256Label_digestLabel _)
  · intro h
    rw [if_pos h]

theorem sanitizeSemanticLabel_fixed {value : String} :
    sanitizeSemanticLabel py value = value ↔ isSafeSemanticLabel value = true :=
  sanitizeLabel_fixed fun value h => by
    unfold isSafeSemanticLabel
    rw [h, Bool.true_or]

theorem sanitizeVersionLabel_fixed {value : String} :
    sanitizeVersionLabel py value = value ↔ isSafeVersionLabel value = true :=
  sanitizeLabel_fixed fun value h => by
    unfold isSafeVersionLabel
    rw [h, Bool.true_or]

/-- A label has no colon, so it is no digest. -/
theorem not_prefix_of_isLabel {most : ℕ} {value : String} (h : isLabel most value = true) :
    "sha256:".toList.isPrefixOf value.toList = false := by
  by_contra hprefix
  rw [Bool.not_eq_false, List.isPrefixOf_iff_prefix] at hprefix
  obtain ⟨rest, hrest⟩ := hprefix
  have hcolon : isLabelChar ':' = false := by decide
  have hlist : "sha256:".toList = ['s', 'h', 'a', '2', '5', '6', ':'] := by decide
  unfold isLabel at h
  rw [← hrest, hlist] at h
  simp only [List.cons_append, List.all_cons, hcolon, Bool.false_and, Bool.and_false,
    Bool.false_eq_true] at h

/-- The status of an operation is left as it is where it is a label. -/
theorem recordedStatus_fixed {status : String} :
    recordedStatus py status = status ↔
      isSafeSemanticLabel status = true ∧ isSha256Label status = false := by
  unfold recordedStatus
  dsimp only
  constructor
  · intro h
    split at h
    · rw [← h]
      decide +kernel
    · next hnot =>
      have hsafe := sanitizeSemanticLabel_fixed.mp h
      rw [h] at hnot
      refine ⟨hsafe, ?_⟩
      unfold isSha256Label
      rw [Bool.not_eq_true] at hnot
      rw [hnot, Bool.false_and, Bool.false_and]
  · rintro ⟨hsafe, hdigest⟩
    have hlabel : isLabel 127 status = true := by
      unfold isSafeSemanticLabel at hsafe
      rw [hdigest, Bool.false_or] at hsafe
      exact hsafe
    rw [sanitizeSemanticLabel_fixed.mpr hsafe, not_prefix_of_isLabel hlabel]
    rfl

/-! ## What conforms -/

theorem lookup_mem {name : String} {entries : List (String × Value)} {value : Value}
    (h : lookup name entries = some value) : (name, value) ∈ entries := by
  obtain ⟨entry, hfind, rfl⟩ := Option.map_eq_some_iff.mp h
  have hbeq := List.find?_some hfind
  rw [← beq_iff_eq.mp hbeq]
  exact List.mem_of_find?_eq_some hfind

/-- A declared field is no extra one. -/
theorem getattr_declared {type : ModelType} {fields extra : List (String × Value)}
    {name : String} {value : Value} (hname : name ∈ fields.map (·.1))
    (h : (Value.model type fields extra).getattr name = some value) : (name, value) ∈ fields := by
  unfold Value.getattr at h
  dsimp only at h
  cases hfields : lookup name fields with
  | some found =>
    rw [hfields] at h
    rw [← Option.some.inj h]
    exact lookup_mem hfields
  | none =>
    obtain ⟨entry, hmem, heq⟩ := List.mem_map.mp hname
    have hnone := List.find?_eq_none.mp (Option.map_eq_none_iff.mp hfields) entry hmem
    exact absurd (beq_iff_eq.mpr heq) hnone

/-- A declared field has a value that its spec admits. -/
theorem Conforms.getattr {type type' : ModelType} {fields extra : List (String × Value)}
    (h : Conforms py type record) (hinside : Inside (.model type' fields extra) record)
    {name : String} {spec : FieldSpec} (hdeclared : (name, spec) ∈ declared py type')
    {value : Value} (hvalue : (Value.model type' fields extra).getattr name = some value) :
    spec.admits value := by
  refine h.admits type' fields extra hinside name spec value hdeclared
    (getattr_declared ?_ hvalue)
  rw [h.names type' fields extra hinside]
  exact List.mem_map.mpr ⟨_, hdeclared, rfl⟩

theorem admits_text {admitted : String → Bool} {value : Value}
    (h : (FieldSpec.optional (.text admitted)).admits value) (hnull : value ≠ .null) :
    ∃ s, value = .str s ∧ admitted s = true := by
  cases value with
  | str s => exact ⟨s, rfl, h⟩
  | null => exact absurd rfl hnull
  | bool | int | float | seq | map | model => exact h.elim

theorem declared_payload (type : ModelType) : "payload" ∉ (declared py type).map (·.1) := by
  cases type <;> simp [declared, scopeFields]

/-- No model of a record declares a payload. -/
theorem Conforms.noPayload {type : ModelType} (h : Conforms py type record) :
    NoPayload record := by
  intro type' fields extra hinside
  rw [h.names type' fields extra hinside]
  exact declared_payload type'

/-! ## The checks of a record -/

/-- What has an instrumentation scope. -/
def Scoped (type : ModelType) : Prop :=
  type = .operation ∨ type = .event ∨ type = .qualitySample

theorem scope_declared {type : ModelType} (h : Scoped type) :
    ("instrumentation_scope_name", .optional semanticCode) ∈ declared py type ∧
      ("instrumentation_scope_version", .optional versionLabel) ∈ declared py type := by
  rcases h with rfl | rfl | rfl <;> simp [declared, scopeFields]

/-- What a recorder normalizes, and what of it the gate checks. -/
theorem recorderLabels_cases {type : ModelType} {label : String × Normalizer}
    (h : label ∈ recorderLabels type) : label ∈ checkedLabels type ∨
      label ∈ SCHEMA_FIELDS.map (fun name => (name, Normalizer.schemaUrl)) ∨
      (Scoped type ∧ (label = ("instrumentation_scope_name", .semantic) ∨
        label = ("instrumentation_scope_version", .version))) ∨
      (type = .operation ∧ label = ("status", .operationStatus)) := by
  cases type <;> simp [recorderLabels, checkedLabels, SCHEMA_FIELDS, Scoped] at h ⊢ <;> tauto

theorem checkLabel_ok {model value : Value} {label : String × Normalizer}
    (h : checkLabel py policy model label = .ok ()) (hvalue : model.getattr label.1 = some value)
    (hnull : value ≠ .null) : ∃ s, value = .str s ∧ label.2.fixes py policy s = true := by
  unfold checkLabel at h
  rw [hvalue] at h
  split at h
  · next heq => cases heq
  · next heq => exact absurd (Option.some.inj heq) hnull
  · next s heq =>
    split at h
    · next hfixes => exact ⟨s, Option.some.inj heq, hfixes⟩
    · cases h
  · cases h

theorem checkAttributes_ok {model value : Value} {name : String}
    (h : checkAttributes py policy model name = .ok ()) (hvalue : model.getattr name = some value)
    (hnull : value ≠ .null) : ∃ attributes, value = .map attributes ∧
      sanitizeAttributes py policy attributes = (attributes, []) := by
  unfold checkAttributes at h
  rw [hvalue] at h
  split at h
  · next heq => cases heq
  · next heq => exact absurd (Option.some.inj heq) hnull
  · next attributes heq =>
    dsimp only at h
    split at h
    · cases h
    · next hsame =>
      rw [Bool.not_eq_true, Bool.or_eq_false_iff, Bool.not_eq_false'] at hsame
      have hempty := List.isEmpty_iff.mp hsame.1
      exact ⟨attributes, Option.some.inj heq, sanitizeAttributes_fixed hempty⟩
  · cases h

/-- What the checks of one model say. -/
theorem checkModel_ok {model : Value} (h : checkModel py policy model = .ok ()) :
    (∀ name ∈ ATTRIBUTE_FIELDS, checkAttributes py policy model name = .ok ()) ∧
      (∀ label ∈ SCHEMA_FIELDS.map (fun name => (name, Normalizer.schemaUrl)),
        checkLabel py policy model label = .ok ()) ∧
      (∀ label ∈ model.labels, checkLabel py policy model label = .ok ()) ∧
      ∀ measurement ∈ measurements model,
        ∀ label ∈ measurementLabels, checkLabel py policy measurement label = .ok () := by
  unfold checkModel at h
  obtain ⟨_, hattributes, h⟩ := bind_eq_ok.mp h
  obtain ⟨_, hschema, h⟩ := bind_eq_ok.mp h
  obtain ⟨_, hlabels, hmeasurements⟩ := bind_eq_ok.mp h
  exact ⟨checkAll_ok.mp hattributes, checkAll_ok.mp hschema, checkAll_ok.mp hlabels,
    fun measurement hmem => checkAll_ok.mp (checkAll_ok.mp hmeasurements measurement hmem)⟩

/-- **What passes the checks** is left as it is by them, model by model. -/
theorem checkModel_inside {type type' : ModelType} (hconforms : Conforms py type record)
    (h : validateNormalizedFields py policy record = .ok ())
    {fields extra : List (String × Value)}
    (hinside : Inside (.model type' fields extra) record) :
    checkModel py policy (.model type' fields extra) = .ok () := by
  refine checkAll_ok.mp h _ (mem_walkModels rfl [record] (fun value hmem => ?_) record
    (List.mem_singleton.mpr rfl) hinside)
  rw [List.mem_singleton.mp hmem]
  exact hconforms.noPayload

/-! ## The gate -/

/-- What passes the gate. -/
theorem validateAndClassifyRecord_cases {fact : Option Fact}
    (h : validateAndClassifyRecord py policy contract entry = .ok (fact, classes)) :
    (entry.value = none ∧ fact = none ∧ classes = []) ∨
      (entry.kind = .rawOtlp ∧ (∃ chunk, fact = some (.rawOtlp chunk)) ∧ classes = [.rawOtlp]) ∨
      ∃ type value record, entry.kind.model = some type ∧ entry.value = some value ∧
        contract.modelValidate type value = some record ∧
        classifyRecord py policy record = .ok classes ∧ fact = some (.record record) := by
  unfold validateAndClassifyRecord at h
  split at h
  · next hnone =>
    obtain ⟨rfl, rfl⟩ := Prod.mk.inj (Except.ok.inj h)
    exact .inl ⟨hnone, rfl, rfl⟩
  · next value hvalue =>
    split at h
    · next hkind =>
      split at h
      · cases h
      · next chunk hchunk =>
        obtain ⟨rfl, rfl⟩ := Prod.mk.inj (Except.ok.inj h)
        exact .inr (.inl ⟨hkind, ⟨chunk, rfl⟩, rfl⟩)
    · split at h
      · cases h
      · next type hmodel =>
        split at h
        · cases h
        · next record hrecord =>
          obtain ⟨classes', hclasses, h⟩ := bind_eq_ok.mp h
          obtain ⟨rfl, rfl⟩ := Prod.mk.inj (Except.ok.inj h)
          exact .inr (.inr ⟨type, value, record, hmodel, hvalue, hrecord, hclasses, rfl⟩)

/-- The classes of a record that passes, and the checks it passes. -/
theorem classifyRecord_ok (h : classifyRecord py policy record = .ok classes) :
    validateNormalizedFields py policy record = .ok () ∧
      (∀ captureClass ∈ classes, policy.allows captureClass = true) ∧
      (∃ below, collectClasses py policy false record = .ok below ∧ below ⊆ classes) ∧
      ∀ fields extra, record = .model .mediaRef fields extra →
        .audio ∈ classes ∧ checkLocator py record = .ok () := by
  unfold classifyRecord at h
  obtain ⟨_, hnormalized, h⟩ := bind_eq_ok.mp h
  obtain ⟨collected, hcollected, h⟩ := bind_eq_ok.mp h
  obtain ⟨all, hall, h⟩ := bind_eq_ok.mp h
  split at h
  · cases h
  · next henabled =>
    obtain rfl := Except.ok.inj h
    rw [Bool.not_eq_true, List.any_eq_false] at henabled
    refine ⟨hnormalized, fun captureClass hmem => ?_, ?_, ?_⟩
    · have := henabled captureClass hmem
      rw [Bool.not_eq_true, Bool.not_eq_false'] at this
      exact this
    · unfold addMedia at hall
      split at hall
      · obtain ⟨_, -, hall⟩ := bind_eq_ok.mp hall
        obtain rfl := Except.ok.inj hall
        exact ⟨collected, hcollected, List.subset_cons_self _ _⟩
      · obtain rfl := Except.ok.inj hall
        exact ⟨collected, hcollected, List.Subset.refl _⟩
    · rintro fields extra rfl
      unfold addMedia at hall
      obtain ⟨_, hlocator, hall⟩ := bind_eq_ok.mp hall
      obtain rfl := Except.ok.inj hall
      exact ⟨List.mem_cons_self, hlocator⟩

theorem allows_metadata (policy : CapturePolicy) : policy.allows .metadata = true :=
  decide_eq_true policy.metadata

/-- The labels of a model that passes its checks. -/
theorem labels_fixed {type type' : ModelType} (hconforms : Conforms py type record)
    {fields extra : List (String × Value)}
    (hinside : Inside (.model type' fields extra) record)
    (hcheck : checkModel py policy (.model type' fields extra) = .ok ())
    (hscope : Scoped type' → ∀ s,
      (Value.model type' fields extra).getattr "instrumentation_scope_name" = some (.str s) →
        s.length ≤ 128 ∨ isSha256Label s = true)
    (hstatus : type' = .operation → ∀ s,
      (Value.model type' fields extra).getattr "status" = some (.str s) →
        isSha256Label s = false)
    {label : String × Normalizer} (hlabel : label ∈ recorderLabels type') {value : Value}
    (hvalue : (Value.model type' fields extra).getattr label.1 = some value)
    (hnull : value ≠ .null) : ∃ s, value = .str s ∧ label.2.fixes py policy s = true := by
  obtain ⟨-, hschema, hlabels, -⟩ := checkModel_ok hcheck
  rcases recorderLabels_cases hlabel with hchecked | hchecked | ⟨hscoped, rfl | rfl⟩ |
    ⟨rfl, rfl⟩
  · exact checkLabel_ok (hlabels label hchecked) hvalue hnull
  · exact checkLabel_ok (hschema label hchecked) hvalue hnull
  · -- the contract bounds the name, and a label is shorter
    obtain ⟨s, rfl, hcode⟩ := admits_text
      (hconforms.getattr hinside (scope_declared hscoped).1 hvalue) hnull
    refine ⟨s, rfl, beq_iff_eq.mpr (sanitizeSemanticLabel_fixed.mpr ?_)⟩
    unfold isSemanticCode at hcode
    unfold isSafeSemanticLabel
    rcases hscope hscoped s hvalue with hlength | hdigest
    · rw [Bool.or_eq_true] at hcode ⊢
      rcases hcode with hcode | hdigest
      · exact .inr (isLabel_of_length hcode hlength)
      · exact .inl hdigest
    · rw [hdigest, Bool.true_or]
  · obtain ⟨s, rfl, hversion⟩ := admits_text
      (hconforms.getattr hinside (scope_declared hscoped).2 hvalue) hnull
    refine ⟨s, rfl, beq_iff_eq.mpr (sanitizeVersionLabel_fixed.mpr ?_)⟩
    unfold isSafeVersionLabel
    rw [Bool.or_comm]
    exact hversion
  · obtain ⟨s, rfl, hfixes⟩ := checkLabel_ok
      (hlabels ("status", .semantic) (List.mem_cons_of_mem _ List.mem_cons_self)) hvalue hnull
    exact ⟨s, rfl, beq_iff_eq.mpr (recordedStatus_fixed.mpr
      ⟨sanitizeSemanticLabel_fixed.mp (beq_iff_eq.mp hfixes), hstatus rfl s hvalue⟩)⟩

theorem checkLocator_ok (h : checkLocator py record = .ok ())
    {fields extra : List (String × Value)}
    (hlocator : record.getattr "locator" = some (.model .mediaLocator fields extra)) :
    ∃ uri, (Value.model .mediaLocator fields extra).getattr "uri" = some (.str uri) ∧
      mediaLocatorSafety py uri = .portable := by
  unfold checkLocator at h
  rw [hlocator] at h
  dsimp only at h
  split at h
  · next uri huri =>
    split at h
    · next hportable => exact ⟨uri, huri, hportable⟩
    · cases h
  · cases h

/-- **A record within its labels that passes the gate** is what a recorder
would have written. -/
theorem recorderGoverned {type : ModelType} {value : List (String × Value)}
    (hmodel : entry.kind.model = some type) (hvalue : entry.value = some value)
    (hrecord : contract.modelValidate type value = some record)
    (hclasses : classifyRecord py policy record = .ok classes)
    (hwithin : WithinLabels py policy contract entry) : RecorderGoverned py policy record := by
  have hconforms := contract.conforms type value record hrecord
  obtain ⟨hnormalized, henabled, ⟨below, hbelow, hsub⟩, hmedia⟩ := classifyRecord_ok hclasses
  constructor
  · intro type' fields extra hinside name hname value hattribute hnull
    have hcheck := checkModel_inside hconforms hnormalized hinside
    exact checkAttributes_ok ((checkModel_ok hcheck).1 name hname) hattribute hnull
  · intro captureClass hretains
    rcases retains_mem hbelow hretains with rfl | hmem | ⟨fields, extra, hmediaRef, rfl⟩
    · exact allows_metadata policy
    · exact henabled captureClass (hsub hmem)
    · exact henabled .audio (hmedia fields extra hmediaRef).1
  · intro type' fields extra hinside label hlabel value hattribute hnull
    refine labels_fixed hconforms hinside (checkModel_inside hconforms hnormalized hinside)
      (fun hscoped => hwithin.scopeName type _ record hmodel hvalue hrecord type' fields extra
        hinside hscoped) (fun heq => ?_) hlabel hattribute hnull
    subst heq
    exact hwithin.status type _ record hmodel hvalue hrecord fields extra hinside
  · intro fields extra hinside measurement hmem label hlabel value hattribute hnull
    have hcheck := checkModel_inside hconforms hnormalized hinside
    exact checkLabel_ok ((checkModel_ok hcheck).2.2.2 measurement hmem label hlabel) hattribute
      hnull
  · intro fields extra hmediaRef fields' extra' hlocator
    exact checkLocator_ok (hmedia fields extra hmediaRef).2 hlocator

theorem scopeName_mem {type : ModelType} (h : Scoped type) :
    ("instrumentation_scope_name", Normalizer.semantic) ∈ recorderLabels type := by
  rcases h with rfl | rfl | rfl <;> decide

/-- **What the gate admits is governed** if and only if an opaque chunk comes
under a policy that allows it, no instrumentation scope has a name longer than
a label, and no operation has a digest for its status: these the gate lets
through unchecked. -/
theorem governed_iff (py : Python) (contract : Contract py) (policy : CapturePolicy)
    (entry : JournalRecordEntry) (fact : Option Fact) (classes : List CaptureClass)
    (h : validateAndClassifyRecord py policy contract entry = .ok (fact, classes)) :
    Governed py policy fact classes ↔ WithinLabels py policy contract entry := by
  constructor
  · intro hgoverned
    have hrecorded (type : ModelType) (value : List (String × Value)) (record : Value)
        (hmodel : entry.kind.model = some type) (hvalue : entry.value = some value)
        (hrecord : contract.modelValidate type value = some record) :
        RecorderGoverned py policy record := by
      rcases validateAndClassifyRecord_cases h with ⟨hnone, -⟩ | ⟨hkind, -⟩ |
        ⟨type', value', record', hmodel', hvalue', hrecord', -, hfact⟩
      · rw [hnone] at hvalue
        cases hvalue
      · rw [hkind] at hmodel
        cases hmodel
      · obtain rfl := Option.some.inj (hmodel.symm.trans hmodel')
        obtain rfl := Option.some.inj (hvalue.symm.trans hvalue')
        obtain rfl := Option.some.inj (hrecord.symm.trans hrecord')
        exact hgoverned.record record hfact
    constructor
    · intro hkind
      rcases validateAndClassifyRecord_cases h with ⟨hnone, -⟩ | ⟨-, -, hclasses⟩ |
        ⟨type, value, record, hmodel, -⟩
      · rcases entry.coherent.mp hnone with homission | hpolicy
        · rw [hkind] at homission
          cases homission
        · rw [hkind] at hpolicy
          cases hpolicy
      · exact hgoverned.enabled .rawOtlp (hclasses ▸ List.mem_cons_self)
      · rw [hkind] at hmodel
        cases hmodel
    · intro type value record hmodel hvalue hrecord type' fields extra hinside hscoped s hname
      obtain ⟨s', hs, hfixes⟩ := (hrecorded type value record hmodel hvalue hrecord).labels type'
        fields extra hinside _ (scopeName_mem hscoped) _ hname (by simp)
      obtain rfl := Value.str.inj hs
      have hsafe := sanitizeSemanticLabel_fixed.mp (beq_iff_eq.mp hfixes)
      unfold isSafeSemanticLabel at hsafe
      rcases Bool.or_eq_true _ _ ▸ hsafe with hdigest | hlabel
      · exact .inr hdigest
      · exact .inl (isLabel_length hlabel)
    · intro type value record hmodel hvalue hrecord fields extra hinside s hstatus
      obtain ⟨s', hs, hfixes⟩ := (hrecorded type value record hmodel hvalue hrecord).labels
        .operation fields extra hinside ("status", .operationStatus) (by decide) _ hstatus
        (by simp)
      obtain rfl := Value.str.inj hs
      exact (recordedStatus_fixed.mp (beq_iff_eq.mp hfixes)).2
  · intro hwithin
    rcases validateAndClassifyRecord_cases h with ⟨-, rfl, rfl⟩ | ⟨hkind, ⟨chunk, rfl⟩, rfl⟩ |
      ⟨type, value, record, hmodel, hvalue, hrecord, hclasses, rfl⟩
    · exact ⟨fun captureClass hmem => absurd hmem List.not_mem_nil, fun record hfact =>
        (by cases hfact)⟩
    · refine ⟨fun captureClass hmem => ?_, fun record hfact => (by cases hfact)⟩
      rw [List.mem_singleton.mp hmem]
      exact hwithin.rawOtlp hkind
    · refine ⟨(classifyRecord_ok hclasses).2.1, fun record' hfact => ?_⟩
      obtain rfl := Fact.record.inj (Option.some.inj hfact)
      exact recorderGoverned hmodel hvalue hrecord hclasses hwithin

/-! ## An adapter, and a chunk -/

def samplePython : Python where
  lower s := s.map Char.toLower
  strip s := s
  sha256 _ := ⟨String.ofList (List.replicate 64 '0'), by decide, by decide⟩
  urlsplit _ := none
  queryNames _ := none
  unquote s := s
  b64decode encoded := if encoded = "AA==" then some [0] else none

def adapterValue : List (String × Value) :=
  [("name", .str "livekit"), ("version", .str "1.0"), ("framework", .str "livekit"),
    ("framework_version", .null)]

def adapterRecord : Value := .model .adapter adapterValue []

theorem inside_adapter {value : Value} (h : Inside value adapterRecord) :
    value = adapterRecord ∨ value.isModel = false := by
  cases h with
  | refl => exact .inl rfl
  | child hchild hinside =>
    right
    simp only [adapterRecord, Value.children, adapterValue, List.map_cons, List.map_nil,
      List.append_nil, List.mem_cons, List.not_mem_nil, or_false] at hchild
    rcases hchild with rfl | rfl | rfl | rfl <;>
      cases hinside with
      | refl => rfl
      | child hnone _ => exact absurd hnone List.not_mem_nil

theorem inside_adapter_model {type : ModelType} {fields extra : List (String × Value)}
    (h : Inside (.model type fields extra) adapterRecord) :
    type = .adapter ∧ fields = adapterValue := by
  rcases inside_adapter h with heq | hnot
  · exact ⟨(Value.model.inj heq).1, (Value.model.inj heq).2.1⟩
  · cases hnot

theorem conforms_adapter : Conforms samplePython .adapter adapterRecord := by
  refine ⟨⟨_, _, rfl⟩, fun type fields extra hinside => ?_,
    fun type fields extra hinside name spec value hdeclared hfield => ?_⟩
  · obtain ⟨rfl, rfl⟩ := inside_adapter_model hinside
    rfl
  · obtain ⟨rfl, rfl⟩ := inside_adapter_model hinside
    simp only [declared, adapterValue, List.mem_cons, Prod.mk.injEq, List.not_mem_nil,
      or_false] at hdeclared hfield
    rcases hdeclared with ⟨rfl, rfl⟩ | ⟨rfl, rfl⟩ | ⟨rfl, rfl⟩ | ⟨rfl, rfl⟩ <;>
      rcases hfield with ⟨hname, rfl⟩ | ⟨hname, rfl⟩ | ⟨hname, rfl⟩ | ⟨hname, rfl⟩ <;>
      first
        | exact absurd hname (by decide)
        | exact trivial
        | (unfold nonEmptyStr FieldSpec.admits
           decide)

def sampleContract : Contract samplePython where
  modelValidate type _ := if type = .adapter then some adapterRecord else none
  conforms type value record h := by
    split at h
    · next htype =>
      subst htype
      obtain rfl := Option.some.inj h
      exact conforms_adapter
    · cases h

def adapterEntry : JournalRecordEntry := ⟨.adapter, some adapterValue, by decide⟩

theorem adapter_admitted : validateAndClassifyRecord samplePython .metadataOnly sampleContract
    adapterEntry = .ok (some (.record adapterRecord), []) := by
  have hwalk : walkModels [adapterRecord] = [adapterRecord] := by
    simp [walkModels, adapterRecord, adapterValue, Value.pending, Value.isModel, Value.children]
  have hnormalized : validateNormalizedFields samplePython .metadataOnly adapterRecord =
      .ok () := by
    unfold validateNormalizedFields
    rw [hwalk]
    rfl
  show (classifyRecord samplePython .metadataOnly adapterRecord >>= fun classes =>
    .ok (some (Fact.record adapterRecord), classes)) = _
  unfold classifyRecord
  rw [hnormalized]
  rfl

/-- An adapter is admitted, and governed. -/
theorem governed_adapter :
    Governed samplePython .metadataOnly (some (.record adapterRecord)) [] := by
  have honly (type : ModelType) (value : List (String × Value)) (record : Value)
      (hmodel : adapterEntry.kind.model = some type)
      (hrecord : sampleContract.modelValidate type value = some record) :
      record = adapterRecord := by
    obtain rfl : ModelType.adapter = type := Option.some.inj hmodel
    exact (Option.some.inj hrecord).symm
  refine (governed_iff samplePython sampleContract .metadataOnly adapterEntry _ _
    adapter_admitted).mpr ⟨fun hkind => (by cases hkind), ?_, ?_⟩
  · intro type value record hmodel hvalue hrecord type' fields extra hinside hscoped
    obtain rfl := honly type value record hmodel hrecord
    obtain ⟨rfl, -⟩ := inside_adapter_model hinside
    rcases hscoped with h | h | h <;> cases h
  · intro type value record hmodel hvalue hrecord fields extra hinside
    obtain rfl := honly type value record hmodel hrecord
    cases (inside_adapter_model hinside).1

/-- A chunk of opaque bytes. -/
def chunkEntry : JournalRecordEntry :=
  ⟨.rawOtlp, some [("chunk_id", .str "chunk-1"), ("signal", .str "traces"),
    ("payload_base64", .str "AA==")], by decide⟩

/-- **A chunk is admitted under a policy that disables it.** -/
theorem not_governed_chunk : ∃ fact classes,
    validateAndClassifyRecord samplePython .metadataOnly sampleContract chunkEntry =
      .ok (fact, classes) ∧ ¬ Governed samplePython .metadataOnly fact classes := by
  refine ⟨_, _, rfl, fun h => ?_⟩
  have henabled := h.enabled .rawOtlp List.mem_cons_self
  exact absurd henabled (by decide)

end Privacy

end Earshot
