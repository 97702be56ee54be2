import Earshot.Privacy.Governed
/-!
# Sanitizing is a projection

`sanitize_attributes` is given whatever a caller's mapping holds: keys that
are no text, text that is no Unicode, objects that are no JSON. All of it is
told by an omission, but for one kind of key: a text with a lone surrogate
has no digest, and the call raises. Where no key is one, what is kept is a
projection of the mapping, and grows with the policy.
-/

namespace Earshot

namespace Privacy

/-! ## What a caller may pass -/

/-- A key of a caller's mapping. -/
inductive RawKey where
  | text (key : String)
  /-- A text with a lone surrogate. -/
  | surrogate (points : List ℕ)
  /-- No text. -/
  | other
  deriving DecidableEq

/-- A value of a caller's mapping. -/
inductive RawValue where
  | null
  | bool (b : Bool)
  | int (n : Int)
  /-- A float is none where it is not finite. -/
  | float (x : Option Rat)
  | str (s : String)
  /-- A text with a lone surrogate. -/
  | surrogate (points : List ℕ)
  | seq (items : List RawValue)
  | map (entries : List (RawKey × RawValue))
  /-- An object that is no JSON, or a container met again inside itself. -/
  | other

mutual

/-- The JSON value of a raw one. There is none where `snapshot_portable_value`
raises whatever the depth. -/
def RawValue.json : RawValue → Option Value
  | .null => some .null
  | .bool b => some (.bool b)
  | .int n => some (.int n)
  | .float x => some (.float x)
  | .str s => some (.str s)
  | .surrogate _ => none
  | .seq items => (jsonItems items).map .seq
  | .map entries => (jsonEntries entries).map .map
  | .other => none

def jsonItems : List RawValue → Option (List Value)
  | [] => some []
  | item :: items =>
      match item.json with
      | none => none
      | some item' => (jsonItems items).map (item' :: ·)

def jsonEntries : List (RawKey × RawValue) → Option (List (String × Value))
  | [] => some []
  | (.text key, child) :: entries =>
      match child.json with
      | none => none
      | some child' => (jsonEntries entries).map ((key, child') :: ·)
  | _ :: _ => none

end

mutual

/-- A JSON value as a caller passes it; a model is no JSON. -/
def Value.raw : Value → RawValue
  | .null => .null
  | .bool b => .bool b
  | .int n => .int n
  | .float x => .float x
  | .str s => .str s
  | .seq items => .seq (rawItems items)
  | .map entries => .map (rawEntries entries)
  | .model _ _ _ => .other

def rawItems : List Value → List RawValue
  | [] => []
  | item :: items => item.raw :: rawItems items

def rawEntries : List (String × Value) → List (RawKey × RawValue)
  | [] => []
  | (key, child) :: entries => (.text key, child.raw) :: rawEntries entries

end

variable (py : Python) (policy : CapturePolicy)

/-- Why an attribute whose value has no snapshot is left out. -/
def refusal (key : String) : String :=
  if keyAllowed py policy key then "unsafe_attribute_key_or_value"
  else if isUnobservableHeardKey py key then "unobservable_claim"
  else "capture_class_disabled"

/-- One turn of the loop, of a key that is a text. -/
def sanitizeTextAttribute (key : String) (raw : RawValue) : Except Omission (String × Value) :=
  match raw.json with
  | none => .error ⟨py.sha256 key, classifyAttribute py key, refusal py policy key⟩
  | some value => (sanitizeAttribute py policy key value).map (key, ·)

/-- One turn of the loop; none where it raises. No pattern of a label matches
a lone surrogate, so such a key is left out, and `key.encode("utf-8")` raises
where its omission is made. -/
def sanitizeRawAttribute (key : RawKey) (raw : RawValue) :
    Option (Except Omission (String × Value)) :=
  match key with
  | .other =>
      some (.error ⟨py.sha256 "<non-string-key>", .metadata, "unsafe_attribute_key_or_value"⟩)
  | .surrogate _ => none
  | .text key => some (sanitizeTextAttribute py policy key raw)

/-- `sanitize_attributes`, of any mapping; none where it raises. -/
def sanitizeRawAttributes :
    List (RawKey × RawValue) → Option (List (String × Value) × List Omission)
  | [] => some ([], [])
  | (key, raw) :: attributes =>
      match sanitizeRawAttribute py policy key raw with
      | none => none
      | some (.ok kept) =>
          (sanitizeRawAttributes attributes).map fun rest => (kept :: rest.1, rest.2)
      | some (.error omission) =>
          (sanitizeRawAttributes attributes).map fun rest => (rest.1, omission :: rest.2)

/-! ## What is kept -/

variable {py policy}

/-- What a projection of a mapping does, under one policy. -/
structure Projects (py : Python) (policy : CapturePolicy) (attributes : List (RawKey × RawValue))
    (kept : List (String × Value)) (omissions : List Omission) : Prop where
  /-- Each key is kept or left out. -/
  each : ∀ a ∈ attributes, ∃ outcome, sanitizeRawAttribute py policy a.1 a.2 = some outcome ∧
    (∀ entry, outcome = .ok entry → a.1 = .text entry.1 ∧ entry ∈ kept) ∧
      ∀ omission, outcome = .error omission → omission ∈ omissions
  /-- None is both, and none is told twice. -/
  counted : kept.length + omissions.length = attributes.length
  ordered : (kept.map fun entry => RawKey.text entry.1).Sublist (attributes.map (·.1))
  /-- What is kept is kept again, unchanged. -/
  again : sanitizeRawAttributes py policy (kept.map fun entry => (.text entry.1, entry.2.raw)) =
    some (kept, [])
  /-- A wider policy keeps it too. -/
  wider : ∀ policy' : CapturePolicy, (∀ c, policy.allows c = true → policy'.allows c = true) →
    ∃ kept' omissions', sanitizeRawAttributes py policy' attributes = some (kept', omissions') ∧
      kept.Sublist kept'
  allowed : ∀ entry ∈ kept, policy.allows (classifyAttribute py entry.1) = true

mutual

theorem json_raw {depth : ℕ} {value snapshot : Value}
    (h : snapshotPortableValue depth value = some snapshot) : value.raw.json = some value := by
  cases value with
  | null | bool | int | float | str => rfl
  | seq items =>
    unfold snapshotPortableValue at h
    split at h
    · cases h
    · obtain ⟨items', hitems, -⟩ := Option.map_eq_some_iff.mp h
      rw [Value.raw, RawValue.json, jsonItems_raw hitems, Option.map_some]
  | map entries =>
    unfold snapshotPortableValue at h
    split at h
    · cases h
    · obtain ⟨entries', hentries, -⟩ := Option.map_eq_some_iff.mp h
      rw [Value.raw, RawValue.json, jsonEntries_raw hentries, Option.map_some]
  | model =>
    unfold snapshotPortableValue at h
    cases h

theorem jsonItems_raw {depth : ℕ} {items snapshot : List Value}
    (h : snapshotItems depth items = some snapshot) : jsonItems (rawItems items) = some items := by
  cases items with
  | nil => rfl
  | cons item items =>
    unfold snapshotItems at h
    split at h
    · cases h
    · next item' hitem =>
      obtain ⟨items', hitems, -⟩ := Option.map_eq_some_iff.mp h
      rw [rawItems, jsonItems, json_raw hitem, jsonItems_raw hitems]
      rfl

theorem jsonEntries_raw {depth : ℕ} {entries snapshot : List (String × Value)}
    (h : snapshotEntries depth entries = some snapshot) :
    jsonEntries (rawEntries entries) = some entries := by
  cases entries with
  | nil => rfl
  | cons entry entries =>
    obtain ⟨key, child⟩ := entry
    unfold snapshotEntries at h
    split at h
    · cases h
    · next child' hchild =>
      obtain ⟨entries', hentries, -⟩ := Option.map_eq_some_iff.mp h
      rw [rawEntries, jsonEntries, json_raw hchild, jsonEntries_raw hentries]
      rfl

end

/-- What an attribute that is kept was, and passed. -/
theorem kept_of_sanitizeAttribute {key : String} {value snapshot : Value}
    (h : sanitizeAttribute py policy key value = .ok snapshot) :
    snapshot = value ∧ keyAllowed py policy key = true ∧
      sanitizeValue py key value = .ok value ∧ snapshotPortableValue 0 value = some value := by
  obtain rfl := sanitizeAttribute_eq h
  unfold sanitizeAttribute at h
  dsimp only at h
  split at h
  · next hallowed =>
    split at h
    · next kept hkept =>
      obtain rfl := Except.ok.inj h
      refine ⟨rfl, hallowed, hkept, ?_⟩
      unfold sanitizeValue at hkept
      dsimp only at hkept
      split at hkept
      · cases hkept
      · next copy hcopy =>
        obtain rfl := snapshotPortableValue_eq hcopy
        exact hcopy
    · cases h
  · split at h <;> cases h

/-- **A wider policy** keeps what a narrower one keeps. -/
theorem keyAllowed_mono {policy' : CapturePolicy} {key : String}
    (hwider : ∀ c, policy.allows c = true → policy'.allows c = true)
    (h : keyAllowed py policy key = true) : keyAllowed py policy' key = true := by
  unfold keyAllowed at h ⊢
  dsimp only at h ⊢
  simp only [Bool.and_eq_true, Bool.or_eq_true] at h ⊢
  obtain ⟨⟨⟨hclass, hlabel⟩, hmetadata⟩, hheard⟩ := h
  exact ⟨⟨⟨hwider _ hclass, hlabel⟩, hmetadata.imp_right (Or.imp_right (hwider _))⟩, hheard⟩

theorem sanitizeAttribute_mono {policy' : CapturePolicy} {key : String} {value snapshot : Value}
    (hwider : ∀ c, policy.allows c = true → policy'.allows c = true)
    (h : sanitizeAttribute py policy key value = .ok snapshot) :
    sanitizeAttribute py policy' key value = .ok snapshot := by
  obtain ⟨rfl, hallowed, hvalue, -⟩ := kept_of_sanitizeAttribute h
  unfold sanitizeAttribute
  dsimp only
  rw [if_pos (keyAllowed_mono hwider hallowed), hvalue]

theorem keyAllowed_class {key : String} (h : keyAllowed py policy key = true) :
    policy.allows (classifyAttribute py key) = true := by
  unfold keyAllowed at h
  dsimp only at h
  simp only [Bool.and_eq_true] at h
  exact h.1.1.1

/-- The attribute of an entry that is kept. -/
theorem kept_of_sanitizeRawAttribute {key : RawKey} {raw : RawValue} {entry : String × Value}
    (h : sanitizeRawAttribute py policy key raw = some (.ok entry)) :
    key = .text entry.1 ∧ raw.json = some entry.2 ∧
      sanitizeAttribute py policy entry.1 entry.2 = .ok entry.2 := by
  cases key with
  | other | surrogate => cases h
  | text key =>
    have h : sanitizeTextAttribute py policy key raw = .ok entry := Option.some.inj h
    unfold sanitizeTextAttribute at h
    cases hjson : raw.json with
    | none =>
      rw [hjson] at h
      cases h
    | some value =>
      rw [hjson] at h
      dsimp only at h
      cases hkept : sanitizeAttribute py policy key value with
      | error omission =>
        rw [hkept] at h
        cases h
      | ok snapshot =>
        rw [hkept] at h
        obtain rfl := Except.ok.inj h
        obtain rfl := sanitizeAttribute_eq hkept
        exact ⟨rfl, rfl, hkept⟩

/-- An attribute that would be kept is. -/
theorem sanitizeRawAttribute_kept {raw : RawValue} {entry : String × Value}
    (hjson : raw.json = some entry.2)
    (h : sanitizeAttribute py policy entry.1 entry.2 = .ok entry.2) :
    sanitizeRawAttribute py policy (.text entry.1) raw = some (.ok entry) := by
  unfold sanitizeRawAttribute sanitizeTextAttribute
  dsimp only
  rw [hjson]
  dsimp only
  rw [h]
  rfl

/-- An entry that is kept is kept again. -/
theorem sanitizeRawAttribute_raw {entry : String × Value}
    (h : sanitizeAttribute py policy entry.1 entry.2 = .ok entry.2) :
    sanitizeRawAttribute py policy (.text entry.1) entry.2.raw = some (.ok entry) := by
  obtain ⟨-, -, -, hsnapshot⟩ := kept_of_sanitizeAttribute h
  exact sanitizeRawAttribute_kept (json_raw hsnapshot) h

/-- A key that is a text of Unicode, or no text, is decided on. -/
theorem sanitizeRawAttribute_isSome (py : Python) (policy : CapturePolicy) {key : RawKey}
    (raw : RawValue) (h : ∀ points, key ≠ .surrogate points) :
    ∃ outcome, sanitizeRawAttribute py policy key raw = some outcome := by
  cases key with
  | other => exact ⟨_, rfl⟩
  | surrogate points => exact absurd rfl (h points)
  | text key => exact ⟨_, rfl⟩

/-! ## Every mapping -/

variable {a : RawKey × RawValue} {attributes : List (RawKey × RawValue)}
variable {kept : List (String × Value)} {omissions : List Omission}

/-- What one more attribute adds. -/
theorem sanitizeRawAttributes_cons
    (h : sanitizeRawAttributes py policy (a :: attributes) = some (kept, omissions)) :
    ∃ rest, sanitizeRawAttributes py policy attributes = some rest ∧
      ((∃ entry, sanitizeRawAttribute py policy a.1 a.2 = some (.ok entry) ∧
          kept = entry :: rest.1 ∧ omissions = rest.2) ∨
        ∃ omission, sanitizeRawAttribute py policy a.1 a.2 = some (.error omission) ∧
          kept = rest.1 ∧ omissions = omission :: rest.2) := by
  obtain ⟨key, raw⟩ := a
  unfold sanitizeRawAttributes at h
  split at h
  · cases h
  · next entry hone =>
    obtain ⟨rest, hrest, heq⟩ := Option.map_eq_some_iff.mp h
    obtain ⟨rfl, rfl⟩ := Prod.mk.inj heq
    exact ⟨rest, hrest, Or.inl ⟨entry, hone, rfl, rfl⟩⟩
  · next omission hone =>
    obtain ⟨rest, hrest, heq⟩ := Option.map_eq_some_iff.mp h
    obtain ⟨rfl, rfl⟩ := Prod.mk.inj heq
    exact ⟨rest, hrest, Or.inr ⟨omission, hone, rfl, rfl⟩⟩

/-- **It raises on a lone surrogate in a key, and on nothing else.** -/
theorem sanitizeRawAttributes_isSome (py : Python) (policy : CapturePolicy) :
    (sanitizeRawAttributes py policy attributes).isSome = true ↔
    ∀ a ∈ attributes, ∀ points, a.1 ≠ .surrogate points := by
  induction attributes with
  | nil => exact ⟨fun _ _ h => absurd h List.not_mem_nil, fun _ => rfl⟩
  | cons a attributes ih =>
    rw [List.forall_mem_cons, ← ih]
    constructor
    · intro hsome
      obtain ⟨⟨kept, omissions⟩, hrun⟩ := Option.isSome_iff_exists.mp hsome
      obtain ⟨rest, hrest, hone⟩ := sanitizeRawAttributes_cons hrun
      refine ⟨fun points hkey => ?_, by rw [hrest]; rfl⟩
      rw [hkey] at hone
      rcases hone with ⟨_, hone, -⟩ | ⟨_, hone, -⟩ <;> cases hone
    · rintro ⟨hkey, hsome⟩
      obtain ⟨rest, hrest⟩ := Option.isSome_iff_exists.mp hsome
      obtain ⟨outcome, hone⟩ := sanitizeRawAttribute_isSome py policy a.2 hkey
      unfold sanitizeRawAttributes
      rw [hone, hrest]
      cases outcome <;> rfl

/-- Every entry that is kept would be kept again. -/
theorem kept_of_sanitizeRawAttributes
    (h : sanitizeRawAttributes py policy attributes = some (kept, omissions)) :
    ∀ entry ∈ kept, sanitizeAttribute py policy entry.1 entry.2 = .ok entry.2 := by
  induction attributes generalizing kept omissions with
  | nil =>
    obtain ⟨rfl, -⟩ := Prod.mk.inj (Option.some.inj h)
    exact fun _ h => absurd h List.not_mem_nil
  | cons a attributes ih =>
    obtain ⟨rest, hrest, ⟨entry, hone, rfl, -⟩ | ⟨_, -, rfl, -⟩⟩ := sanitizeRawAttributes_cons h
    · exact List.forall_mem_cons.mpr ⟨(kept_of_sanitizeRawAttribute hone).2.2, ih hrest⟩
    · exact ih hrest

theorem sanitizeRawAttributes_again
    (h : ∀ entry ∈ kept, sanitizeAttribute py policy entry.1 entry.2 = .ok entry.2) :
    sanitizeRawAttributes py policy (kept.map fun entry => (.text entry.1, entry.2.raw)) =
      some (kept, []) := by
  induction kept with
  | nil => rfl
  | cons entry kept ih =>
    obtain ⟨hentry, hkept⟩ := List.forall_mem_cons.mp h
    rw [List.map_cons, sanitizeRawAttributes, sanitizeRawAttribute_raw hentry]
    dsimp only
    rw [ih hkept]
    rfl

theorem sanitizeRawAttributes_each
    (h : sanitizeRawAttributes py policy attributes = some (kept, omissions)) :
    ∀ a ∈ attributes, ∃ outcome, sanitizeRawAttribute py policy a.1 a.2 = some outcome ∧
      (∀ entry, outcome = .ok entry → a.1 = .text entry.1 ∧ entry ∈ kept) ∧
        ∀ omission, outcome = .error omission → omission ∈ omissions := by
  induction attributes generalizing kept omissions with
  | nil => exact fun _ h => absurd h List.not_mem_nil
  | cons a attributes ih =>
    obtain ⟨rest, hrest, hcases⟩ := sanitizeRawAttributes_cons h
    have hold := ih hrest
    rcases hcases with ⟨entry, hone, rfl, rfl⟩ | ⟨omission, hone, rfl, rfl⟩
    · refine List.forall_mem_cons.mpr ⟨⟨_, hone, ?_, by rintro _ ⟨⟩⟩, fun b hb => ?_⟩
      · rintro _ ⟨⟩
        exact ⟨(kept_of_sanitizeRawAttribute hone).1, List.mem_cons_self⟩
      · obtain ⟨outcome, hsome, hkept, homitted⟩ := hold b hb
        exact ⟨outcome, hsome, fun e he => (hkept e he).imp_right (List.mem_cons_of_mem _), homitted⟩
    · refine List.forall_mem_cons.mpr ⟨⟨_, hone, by rintro _ ⟨⟩, ?_⟩, fun b hb => ?_⟩
      · rintro _ ⟨⟩
        exact List.mem_cons_self
      · obtain ⟨outcome, hsome, hkept, homitted⟩ := hold b hb
        exact ⟨outcome, hsome, hkept, fun o ho => List.mem_cons_of_mem _ (homitted o ho)⟩

theorem sanitizeRawAttributes_counted
    (h : sanitizeRawAttributes py policy attributes = some (kept, omissions)) :
    kept.length + omissions.length = attributes.length ∧
      (kept.map fun entry => RawKey.text entry.1).Sublist (attributes.map (·.1)) := by
  induction attributes generalizing kept omissions with
  | nil =>
    obtain ⟨rfl, rfl⟩ := Prod.mk.inj (Option.some.inj h)
    exact ⟨rfl, List.Sublist.refl _⟩
  | cons a attributes ih =>
    obtain ⟨rest, hrest, hcases⟩ := sanitizeRawAttributes_cons h
    obtain ⟨hcount, hsub⟩ := ih hrest
    rcases hcases with ⟨entry, hone, rfl, rfl⟩ | ⟨omission, -, rfl, rfl⟩
    · refine ⟨by simp only [List.length_cons]; omega, ?_⟩
      rw [List.map_cons, List.map_cons, (kept_of_sanitizeRawAttribute hone).1]
      exact hsub.cons_cons _
    · exact ⟨by simp only [List.length_cons]; omega, hsub.cons _⟩

theorem sanitizeRawAttributes_wider {policy' : CapturePolicy}
    (hwider : ∀ c, policy.allows c = true → policy'.allows c = true)
    (h : sanitizeRawAttributes py policy attributes = some (kept, omissions)) :
    ∃ kept' omissions', sanitizeRawAttributes py policy' attributes = some (kept', omissions') ∧
      kept.Sublist kept' := by
  induction attributes generalizing kept omissions with
  | nil =>
    obtain ⟨rfl, rfl⟩ := Prod.mk.inj (Option.some.inj h)
    exact ⟨[], [], rfl, List.Sublist.refl _⟩
  | cons a attributes ih =>
    obtain ⟨rest, hrest, hcases⟩ := sanitizeRawAttributes_cons h
    obtain ⟨kept', omissions', hrest', hsub⟩ := ih hrest
    rcases hcases with ⟨entry, hone, rfl, -⟩ | ⟨omission, hone, rfl, -⟩
    · obtain ⟨hkey, hjson, hkept⟩ := kept_of_sanitizeRawAttribute hone
      have hagain : sanitizeRawAttribute py policy' a.1 a.2 = some (.ok entry) := by
        rw [hkey]
        exact sanitizeRawAttribute_kept hjson (sanitizeAttribute_mono hwider hkept)
      refine ⟨entry :: kept', omissions', ?_, hsub.cons_cons _⟩
      rw [sanitizeRawAttributes, hagain, hrest']
      rfl
    · have hkey : ∀ points, a.1 ≠ .surrogate points := by
        intro points hkey
        rw [hkey] at hone
        cases hone
      obtain ⟨outcome, hagain⟩ := sanitizeRawAttribute_isSome py policy' a.2 hkey
      cases outcome with
      | error omission' =>
        refine ⟨kept', omission' :: omissions', ?_, hsub⟩
        rw [sanitizeRawAttributes, hagain, hrest']
        rfl
      | ok entry =>
        refine ⟨entry :: kept', omissions', ?_, hsub.cons _⟩
        rw [sanitizeRawAttributes, hagain, hrest']
        rfl

/-- **Sanitizing is a total, monotone projection** of exactly the mappings
without a lone surrogate in a key. -/
theorem sanitizeRawAttributes_projects_iff (py : Python) (policy : CapturePolicy)
    (attributes : List (RawKey × RawValue)) :
    (∃ kept omissions, sanitizeRawAttributes py policy attributes = some (kept, omissions) ∧
        Projects py policy attributes kept omissions) ↔
      ∀ a ∈ attributes, ∀ points, a.1 ≠ .surrogate points := by
  rw [← sanitizeRawAttributes_isSome py policy, Option.isSome_iff_exists]
  constructor
  · rintro ⟨kept, omissions, hrun, -⟩
    exact ⟨_, hrun⟩
  · rintro ⟨⟨kept, omissions⟩, hrun⟩
    have hkept := kept_of_sanitizeRawAttributes hrun
    refine ⟨kept, omissions, hrun, ?_⟩
    exact
      { each := sanitizeRawAttributes_each hrun
        counted := (sanitizeRawAttributes_counted hrun).1
        ordered := (sanitizeRawAttributes_counted hrun).2
        again := sanitizeRawAttributes_again hkept
        wider := fun policy' hwider => sanitizeRawAttributes_wider hwider hrun
        allowed := fun entry hentry =>
          keyAllowed_class (kept_of_sanitizeAttribute (hkept entry hentry)).2.1 }

/-- The mapping of U+D800 to nothing raises. -/
theorem not_projects_surrogate :
    ¬ ∃ kept omissions, sanitizeRawAttributes samplePython .metadataOnly
        [(.surrogate [0xD800], .null)] = some (kept, omissions) ∧
      Projects samplePython .metadataOnly [(.surrogate [0xD800], .null)] kept omissions := by
  rintro ⟨kept, omissions, hrun, -⟩
  cases hrun

end Privacy

end Earshot
