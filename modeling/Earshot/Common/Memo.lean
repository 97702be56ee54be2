import Mathlib.Data.List.Basic
import Mathlib.Tactic.Common
/-!
# Memo tables

A table of work done once. A `Memo` of a function carries the proof that
its entries are the function's values, so reading through it is applying
the function. `Canonical` gives each index the first index met with its
value, and a `Numbering` gives each key the next free number; both only
grow, and both tell values, or keys, apart exactly.
-/

namespace Memoized

variable {ι κ ν : Type*}

/-! ## Dictionaries -/

section Dictionary

variable [BEq κ] [LawfulBEq κ]

/-- A dictionary's `setdefault`: the value it has from then on. -/
def setdefault (d : List (κ × ν)) (k : κ) (v : ν) : ν × List (κ × ν) :=
  match d.lookup k with
  | some old => (old, d)
  | none => (v, d ++ [(k, v)])

variable {d : List (κ × ν)} {k k' : κ} {v w : ν}

omit [LawfulBEq κ] in
/-- What is set is kept. -/
theorem lookup_setdefault_of_some (k' : κ) (v : ν) (h : d.lookup k = some w) :
    (setdefault d k' v).2.lookup k = some w := by
  unfold setdefault
  cases d.lookup k' with
  | some old => exact h
  | none => rw [List.lookup_append, h, Option.some_or]

/-- The value returned is the one set. -/
theorem lookup_setdefault_self (d : List (κ × ν)) (k : κ) (v : ν) :
    (setdefault d k v).2.lookup k = some (setdefault d k v).1 := by
  unfold setdefault
  cases h : d.lookup k with
  | some old => exact h
  | none => rw [List.lookup_append, h, Option.none_or, List.lookup_cons_self]

/-- An entry is an old one, or new and of a key that had none. -/
theorem lookup_of_setdefault (h : (setdefault d k' v).2.lookup k = some w) :
    d.lookup k = some w ∨ (k = k' ∧ w = v ∧ d.lookup k = none) := by
  unfold setdefault at h
  cases hold : d.lookup k' with
  | some old => rw [hold] at h; exact Or.inl h
  | none =>
    rw [hold] at h
    dsimp only at h
    rw [List.lookup_append] at h
    cases hk : d.lookup k with
    | some old =>
      rw [hk, Option.some_or] at h
      exact Or.inl h
    | none =>
      rw [hk, Option.none_or, List.lookup_cons] at h
      split at h
      · rename_i heq
        exact Or.inr ⟨eq_of_beq heq, (Option.some.inj h).symm, rfl⟩
      · cases h

omit [LawfulBEq κ] in
theorem length_setdefault_le (d : List (κ × ν)) (k : κ) (v : ν) :
    d.length ≤ (setdefault d k v).2.length := by
  unfold setdefault
  cases d.lookup k with
  | some old => exact Nat.le_refl _
  | none => rw [List.length_append]; exact Nat.le_add_right _ _

end Dictionary

/-! ## Memos -/

/-- A memo of `f`: its entries are values of `f`. -/
structure Memo (f : κ → ν) where
  entries : List (κ × ν)
  sound : ∀ e ∈ entries, e.2 = f e.1

namespace Memo

variable {f : κ → ν}

def empty (f : κ → ν) : Memo f := ⟨[], by rintro _ ⟨⟩⟩

/-- The entry of `k`, or a new one. -/
def get [DecidableEq κ] (m : Memo f) (k : κ) : ν × Memo f :=
  match m.entries.lookup k with
  | some v => (v, m)
  | none => (f k, ⟨(k, f k) :: m.entries, by
      rintro e (_ | ⟨_, he⟩)
      · rfl
      · exact m.sound e he⟩)

/-- **Reading through a memo is applying the function.** -/
@[simp] theorem get_fst [DecidableEq κ] (m : Memo f) (k : κ) : (m.get k).1 = f k := by
  unfold get
  split
  · rename_i v h
    obtain ⟨before, after, hmem, -⟩ := List.lookup_eq_some_iff.mp h
    exact m.sound (k, v) (hmem ▸ List.mem_append_right _ List.mem_cons_self)
  · rfl

end Memo

/-! ## First indices -/

/-- For each value of `f` met, the first index it was met at; and for each
index met, the first one of its value. -/
structure Canonical [DecidableEq κ] [DecidableEq ι] (f : ι → κ) where
  contents : Memo f
  first : List (κ × ι)
  known : List (ι × ι)
  first_sound : ∀ {k i}, first.lookup k = some i → f i = k
  known_sound : ∀ {i j}, known.lookup i = some j → first.lookup (f i) = some j

namespace Canonical

variable [DecidableEq κ] [DecidableEq ι] {f : ι → κ}

def empty (f : ι → κ) : Canonical f := ⟨Memo.empty f, [], [], by rintro _ _ ⟨⟩, by rintro _ _ ⟨⟩⟩

/-- The index after `i`'s value is looked up, at `i`'s first reading. -/
def get (c : Canonical f) (i : ι) : ι × Canonical f :=
  match c.known.lookup i with
  | some j => (j, c)
  | none =>
    let found := setdefault c.first (c.contents.get i).1 i
    (found.1, {
      contents := (c.contents.get i).2
      first := found.2
      known := (i, found.1) :: c.known
      first_sound := by
        intro k j h
        rcases lookup_of_setdefault h with h | ⟨rfl, rfl, -⟩
        · exact c.first_sound h
        · exact (Memo.get_fst _ _).symm
      known_sound := by
        intro i' j h
        rw [List.lookup_cons] at h
        split at h
        · rename_i heq
          obtain rfl := eq_of_beq heq
          obtain rfl := Option.some.inj h
          rw [show f i' = (c.contents.get i').1 from (Memo.get_fst _ _).symm]
          exact lookup_setdefault_self _ _ _
        · exact lookup_setdefault_of_some _ _ (c.known_sound h) })

/-- The first index met with a value. -/
def find? (c : Canonical f) (k : κ) : Option ι := c.first.lookup k

theorem value_of_find? {c : Canonical f} {k : κ} {i : ι} (h : c.find? k = some i) : f i = k :=
  c.first_sound h

/-- The index returned stands for the value. -/
theorem find?_get (c : Canonical f) (i : ι) : (c.get i).2.find? (f i) = some (c.get i).1 := by
  unfold get
  split
  · rename_i j h
    exact c.known_sound h
  · have hvalue : (c.contents.get i).1 = f i := Memo.get_fst _ _
    have hself := lookup_setdefault_self c.first (c.contents.get i).1 i
    rw [← hvalue]
    exact hself

/-- What stands for a value keeps standing for it. -/
theorem find?_get_of_some {c : Canonical f} {k : κ} {j : ι} (i : ι)
    (h : c.find? k = some j) : (c.get i).2.find? k = some j := by
  unfold get
  split
  · exact h
  · exact lookup_setdefault_of_some _ _ h

end Canonical

/-! ## Numberings -/

/-- Keys and their numbers, in the order they were met. -/
structure Numbering (κ : Type*) [DecidableEq κ] where
  entries : List (κ × ℕ)
  bounded : ∀ {k n}, entries.lookup k = some n → n < entries.length
  injective : ∀ {k k' n}, entries.lookup k = some n → entries.lookup k' = some n → k = k'

namespace Numbering

variable [DecidableEq κ]

def empty (κ : Type*) [DecidableEq κ] : Numbering κ :=
  ⟨[], by rintro _ _ ⟨⟩, by rintro _ _ _ ⟨⟩⟩

/-- `numbers.setdefault(key, len(numbers))` -/
def number (m : Numbering κ) (k : κ) : ℕ × Numbering κ :=
  let found := setdefault m.entries k m.entries.length
  (found.1, {
    entries := found.2
    bounded := by
      intro k' n h
      rcases lookup_of_setdefault h with h | ⟨rfl, rfl, hnew⟩
      · exact Nat.lt_of_lt_of_le (m.bounded h) (length_setdefault_le _ _ _)
      · show _ < (setdefault _ _ _).2.length
        unfold setdefault
        rw [hnew]
        dsimp only
        rw [List.length_append]
        exact Nat.lt_succ_self _
    injective := by
      intro k₁ k₂ n h₁ h₂
      rcases lookup_of_setdefault h₁ with h₁ | ⟨rfl, rfl, -⟩
      · rcases lookup_of_setdefault h₂ with h₂ | ⟨-, rfl, -⟩
        · exact m.injective h₁ h₂
        · exact absurd (m.bounded h₁) (Nat.lt_irrefl _)
      · rcases lookup_of_setdefault h₂ with h₂ | ⟨rfl, -, -⟩
        · exact absurd (m.bounded h₂) (Nat.lt_irrefl _)
        · rfl })

/-- A key's number. -/
def find? (m : Numbering κ) (k : κ) : Option ℕ := m.entries.lookup k

theorem find?_injective {m : Numbering κ} {k k' : κ} {n : ℕ} (h : m.find? k = some n)
    (h' : m.find? k' = some n) : k = k' :=
  m.injective h h'

/-- It is the one returned. -/
theorem find?_number (m : Numbering κ) (k : κ) : (m.number k).2.find? k = some (m.number k).1 :=
  lookup_setdefault_self _ _ _

/-- And is kept. -/
theorem find?_number_of_some {m : Numbering κ} {k : κ} {n : ℕ} (k' : κ)
    (h : m.find? k = some n) : (m.number k').2.find? k = some n :=
  lookup_setdefault_of_some _ _ h

end Numbering

end Memoized
