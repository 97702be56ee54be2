import Mathlib.Data.List.Nodup
import Mathlib.Data.List.Perm.Basic
/-!
# Keyed tables

A table is a list of rows no two of which share a primary key. The key is
a parameter of the type and the absence of duplicates a field, so every
statement below leaves a table: an insert that meets its key keeps the
first row, an update may not touch the key, a delete only removes.

A table is read in two ways, through membership and through `find?`;
`find?_eq_some` passes from one to the other.
-/

namespace Relational

/-! ## Rows in groups -/

section Groups

variable {α β : Type*}

/-- Rows that meet one of two conditions no row meets both of. -/
theorem perm_filter_or {p q : α → Bool} : ∀ {l : List α}, (∀ x ∈ l, p x = true → q x = false) →
    (l.filter fun x => p x || q x).Perm (l.filter p ++ l.filter q) := by
  intro l
  induction l with
  | nil => intro _; exact .refl _
  | cons x l ih =>
      intro h
      have htail := ih fun y hy => h y (List.mem_cons_of_mem _ hy)
      cases hp : p x with
      | true =>
          have hq := h x List.mem_cons_self hp
          simp only [List.filter_cons, hp, hq, Bool.true_or, if_true, Bool.false_eq_true, if_false,
            List.cons_append]
          exact htail.cons x
      | false =>
          cases hq : q x with
          | true =>
              simp only [List.filter_cons, hp, hq, Bool.or_true, if_true, Bool.false_eq_true,
                if_false]
              exact (htail.cons x).trans List.perm_middle.symm
          | false =>
              simp only [List.filter_cons, hp, hq, Bool.or_self, Bool.false_eq_true, if_false]
              exact htail

/-- **The rows of some groups are the groups' rows**, one group after the
other. -/
theorem perm_flatMap_groups [DecidableEq β] {g : α → β} {l : List α} : ∀ {bs : List β}
    {p : α → Bool}, bs.Nodup → (∀ x ∈ l, p x = true ↔ g x ∈ bs) →
    (l.filter p).Perm (bs.flatMap fun b => l.filter fun x => g x = b) := by
  intro bs
  induction bs with
  | nil =>
      intro p _ hp
      rw [List.filter_eq_nil_iff.mpr fun x hx h => List.not_mem_nil ((hp x hx).mp h)]
      exact .refl _
  | cons b bs ih =>
      intro p h hp
      rw [List.nodup_cons] at h
      have hor : l.filter p = l.filter fun x => decide (g x = b) || (bs.contains (g x)) := by
        refine List.filter_congr fun x hx => ?_
        rw [Bool.eq_iff_iff, hp x hx]
        simp
      rw [hor, List.flatMap_cons]
      refine (perm_filter_or fun x _ hx => ?_).trans ((ih h.2 fun x _ => by simp).append_left _)
      rw [of_decide_eq_true hx]
      simpa using h.1

end Groups

/-- Rows with one primary key each, in insertion order. -/
structure Table {α κ : Type*} (key : α → κ) where
  rows : List α
  nodup : (rows.map key).Nodup

namespace Table

variable {α κ : Type*} {key : α → κ}

instance : Membership α (Table key) := ⟨fun t r => r ∈ t.rows⟩

theorem mem_def {t : Table key} {r : α} : r ∈ t ↔ r ∈ t.rows := Iff.rfl

/-- The table with no row. -/
def empty : Table key := ⟨[], List.nodup_nil⟩

@[simp] theorem not_mem_empty {r : α} : r ∉ (empty : Table key) := List.not_mem_nil

/-- **A key names one row.** -/
theorem eq_of_key_eq {t : Table key} {r r' : α} (h : r ∈ t) (h' : r' ∈ t)
    (hk : key r = key r') : r = r' :=
  List.inj_on_of_nodup_map t.nodup h h' hk

/-! ## Lookup -/

section Lookup

variable [DecidableEq κ]

/-- The row with the key, if there is one. -/
def find? (t : Table key) (k : κ) : Option α := t.rows.find? fun r => key r = k

theorem find?_eq_some {t : Table key} {k : κ} {r : α} :
    t.find? k = some r ↔ r ∈ t ∧ key r = k := by
  constructor
  · intro h
    exact ⟨List.mem_of_find?_eq_some h, by simpa using List.find?_some h⟩
  · rintro ⟨hr, rfl⟩
    have hsome : (t.find? (key r)).isSome := by
      rw [find?, List.find?_isSome]
      exact ⟨r, hr, by simp⟩
    obtain ⟨r', hr'⟩ := Option.isSome_iff_exists.mp hsome
    have hkey : key r' = key r := by simpa using List.find?_some hr'
    rw [hr', eq_of_key_eq (t := t) (List.mem_of_find?_eq_some hr') hr hkey]

theorem find?_eq_none {t : Table key} {k : κ} :
    t.find? k = none ↔ ∀ r ∈ t, key r ≠ k := by
  simp [find?, List.find?_eq_none, mem_def]

theorem find?_of_mem {t : Table key} {r : α} (h : r ∈ t) : t.find? (key r) = some r :=
  find?_eq_some.mpr ⟨h, rfl⟩

theorem mem_of_find? {t : Table key} {k : κ} {r : α} (h : t.find? k = some r) : r ∈ t :=
  (find?_eq_some.mp h).1

theorem key_of_find? {t : Table key} {k : κ} {r : α} (h : t.find? k = some r) : key r = k :=
  (find?_eq_some.mp h).2

theorem find?_isSome_iff {t : Table key} {k : κ} :
    (t.find? k).isSome ↔ ∃ r ∈ t, key r = k := by
  rw [Option.isSome_iff_exists]
  exact exists_congr fun r => find?_eq_some

@[simp] theorem find?_empty {k : κ} : (empty : Table key).find? k = none := rfl

/-- Two tables answer every lookup alike when they hold the same rows. -/
theorem find?_congr {t t' : Table key} {k : κ}
    (h : ∀ r, key r = k → (r ∈ t ↔ r ∈ t')) : t.find? k = t'.find? k := by
  ext r
  simp only [find?_eq_some]
  constructor
  · rintro ⟨hr, hk⟩
    exact ⟨(h r hk).mp hr, hk⟩
  · rintro ⟨hr, hk⟩
    exact ⟨(h r hk).mpr hr, hk⟩

end Lookup

/-! ## Insert -/

section Insert

variable [DecidableEq κ]

/-- `INSERT … ON CONFLICT DO NOTHING`. -/
def insert (t : Table key) (r : α) : Table key :=
  if h : key r ∈ t.rows.map key then t
  else ⟨t.rows ++ [r], by
    rw [List.map_append, List.nodup_append]
    refine ⟨t.nodup, by simp, ?_⟩
    intro a ha b hb hab
    simp only [List.map_cons, List.map_nil, List.mem_singleton] at hb
    exact h (hb ▸ hab ▸ ha)⟩

/-- The rows inserted one after the other. -/
def insertAll (t : Table key) (rs : List α) : Table key := rs.foldl insert t

theorem mem_insert {t : Table key} {r x : α} :
    x ∈ t.insert r ↔ x ∈ t ∨ (x = r ∧ t.find? (key r) = none) := by
  rw [find?_eq_none]
  unfold insert
  split
  · rename_i h
    obtain ⟨y, hy, hk⟩ := List.mem_map.mp h
    constructor
    · exact Or.inl
    · rintro (hx | ⟨-, hnone⟩)
      · exact hx
      · exact absurd hk (hnone y hy)
  · rename_i h
    have hnone : ∀ y ∈ t, key y ≠ key r := fun y hy hk =>
      h (List.mem_map.mpr ⟨y, hy, hk⟩)
    simp only [mem_def, List.mem_append, List.mem_singleton]
    exact ⟨fun hx => hx.imp id fun hx => ⟨hx, hnone⟩, fun hx => hx.imp id And.left⟩

/-- An insert of a new key appends its row. -/
theorem rows_insert_of_new {t : Table key} {r : α} (h : t.find? (key r) = none) :
    (t.insert r).rows = t.rows ++ [r] := by
  rw [find?_eq_none] at h
  unfold insert
  rw [dif_neg]
  intro hk
  obtain ⟨y, hy, hyk⟩ := List.mem_map.mp hk
  exact h y hy hyk

theorem find?_insert {t : Table key} {r : α} {k : κ} :
    (t.insert r).find? k = (t.find? k).or (if key r = k then some r else none) := by
  ext x
  simp only [find?_eq_some, mem_insert, Option.or_eq_some_iff, find?_eq_none]
  constructor
  · rintro ⟨hx | ⟨rfl, hnone⟩, hk⟩
    · exact Or.inl ⟨hx, hk⟩
    · exact Or.inr ⟨fun y hy => hk ▸ hnone y hy, by rw [if_pos hk]⟩
  · rintro (⟨hx, hk⟩ | ⟨hnone, hx⟩)
    · exact ⟨Or.inl hx, hk⟩
    · split at hx
      · rename_i hk
        obtain rfl : r = x := by simpa using hx
        exact ⟨Or.inr ⟨rfl, fun y hy => hk.symm ▸ hnone y hy⟩, hk⟩
      · simp at hx

/-- Of the inserted rows with a key the first stays, unless the table had
one. -/
theorem find?_insertAll {k : κ} : ∀ (rs : List α) (t : Table key),
    (t.insertAll rs).find? k = (t.find? k).or (rs.find? fun r => key r = k) := by
  intro rs
  induction rs with
  | nil => intro t; simp [insertAll]
  | cons r rs ih =>
      intro t
      have hcons : t.insertAll (r :: rs) = (t.insert r).insertAll rs := rfl
      rw [hcons, ih, find?_insert, Option.or_assoc]
      congr 1
      by_cases hk : key r = k
      · simp [hk]
      · simp [hk]

theorem length_insertAll_le : ∀ (rs : List α) (t : Table key),
    (t.insertAll rs).rows.length ≤ t.rows.length + rs.length := by
  intro rs
  induction rs with
  | nil => intro t; exact Nat.le_refl _
  | cons r rs ih =>
      intro t
      have hcons : t.insertAll (r :: rs) = (t.insert r).insertAll rs := rfl
      have hone : (t.insert r).rows.length ≤ t.rows.length + 1 := by
        unfold insert
        split
        · exact Nat.le_succ _
        · simp
      have := ih (t.insert r)
      rw [hcons, List.length_cons]
      omega

/-- **Inserts that all took effect appended their rows.** -/
theorem rows_insertAll_of_length : ∀ (rs : List α) (t : Table key),
    (t.insertAll rs).rows.length = t.rows.length + rs.length →
    (t.insertAll rs).rows = t.rows ++ rs := by
  intro rs
  induction rs with
  | nil => intro t _; simp [insertAll]
  | cons r rs ih =>
      intro t h
      have hcons : t.insertAll (r :: rs) = (t.insert r).insertAll rs := rfl
      have hle := length_insertAll_le rs (t.insert r)
      rw [hcons, List.length_cons] at h
      have hrows : (t.insert r).rows = t.rows ++ [r] := by
        by_cases hk : key r ∈ t.rows.map key
        · rw [insert, dif_pos hk] at hle h
          omega
        · rw [insert, dif_neg hk]
      have hlen : (t.insert r).rows.length = t.rows.length + 1 := by rw [hrows]; simp
      rw [hcons, ih _ (by omega), hrows, List.append_assoc, List.singleton_append]

/-- A row of the table after inserts was there or is one of them. -/
theorem mem_or_mem_of_mem_insertAll {x : α} : ∀ (rs : List α) (t : Table key),
    x ∈ t.insertAll rs → x ∈ t ∨ x ∈ rs := by
  intro rs
  induction rs with
  | nil => intro t h; exact Or.inl h
  | cons r rs ih =>
      intro t h
      rcases ih (t.insert r) h with h | h
      · rcases mem_insert.mp h with h | ⟨rfl, -⟩
        · exact Or.inl h
        · exact Or.inr List.mem_cons_self
      · exact Or.inr (List.mem_cons_of_mem _ h)

end Insert

/-! ## Update -/

/-- `UPDATE`: each row replaced by what `f` makes of it, its key kept. -/
def patch (t : Table key) (f : α → α) (hf : ∀ r, key (f r) = key r) : Table key :=
  ⟨t.rows.map f, by
    rw [List.map_map, show key ∘ f = key from funext hf]
    exact t.nodup⟩

theorem mem_patch {t : Table key} {f : α → α} {hf : ∀ r, key (f r) = key r} {x : α} :
    x ∈ t.patch f hf ↔ ∃ r ∈ t, f r = x := List.mem_map

theorem find?_patch [DecidableEq κ] {t : Table key} {f : α → α}
    {hf : ∀ r, key (f r) = key r} {k : κ} :
    (t.patch f hf).find? k = (t.find? k).map f := by
  ext x
  simp only [find?_eq_some, mem_patch, Option.map_eq_some_iff]
  constructor
  · rintro ⟨⟨r, hr, rfl⟩, hk⟩
    exact ⟨r, ⟨hr, (hf r) ▸ hk⟩, rfl⟩
  · rintro ⟨r, ⟨hr, hk⟩, rfl⟩
    exact ⟨⟨r, hr, rfl⟩, (hf r).trans hk⟩

/-! ## Delete -/

/-- `DELETE … WHERE p`. -/
def delete (t : Table key) (p : α → Bool) : Table key :=
  ⟨t.rows.filter fun r => !p r, t.nodup.sublist (List.filter_sublist.map key)⟩

theorem mem_delete {t : Table key} {p : α → Bool} {x : α} :
    x ∈ t.delete p ↔ x ∈ t ∧ p x = false := by
  simp [mem_def, delete, List.mem_filter]

theorem find?_delete [DecidableEq κ] {t : Table key} {p : α → Bool} {k : κ} :
    (t.delete p).find? k = (t.find? k).filter fun r => !p r := by
  ext x
  simp only [find?_eq_some, mem_delete, Option.filter_eq_some_iff, Bool.not_eq_eq_eq_not,
    Bool.not_true]
  exact and_right_comm

/-- A delete that spares the rows of a key does not change its lookup. -/
theorem find?_delete_of_ne [DecidableEq κ] {t : Table key} {p : α → Bool} {k : κ}
    (h : ∀ r ∈ t, key r = k → p r = false) : (t.delete p).find? k = t.find? k :=
  find?_congr fun r hk => by
    rw [mem_delete]
    exact ⟨And.left, fun hr => ⟨hr, h r hr hk⟩⟩

/-- **A key's row and the rows without it** are the table. -/
theorem perm_cons_delete [DecidableEq κ] {t : Table key} {k : κ} {r : α}
    (h : t.find? k = some r) :
    t.rows.Perm (r :: (t.delete fun x => decide (key x = k)).rows) := by
  obtain ⟨hr, rfl⟩ := find?_eq_some.mp h
  have hnotin : r ∉ (t.delete fun x => decide (key x = key r)).rows := fun hmem => by
    have hne := (mem_delete.mp hmem).2
    simp at hne
  refine (List.perm_ext_iff_of_nodup (.of_map key t.nodup)
    (List.nodup_cons.mpr ⟨hnotin, .of_map key (t.delete _).nodup⟩)).mpr fun x => ?_
  rw [List.mem_cons]
  constructor
  · intro hx
    by_cases hkey : key x = key r
    · exact Or.inl (eq_of_key_eq hx hr hkey)
    · exact Or.inr (mem_delete.mpr ⟨hx, decide_eq_false hkey⟩)
  · rintro (rfl | hx)
    · exact hr
    · exact (mem_delete.mp hx).1

/-! ## Put -/

/-- A row in place of the one that has its key, if any. -/
def put [DecidableEq κ] (t : Table key) (r : α) : Table key :=
  (t.delete fun x => decide (key x = key r)).insert r

@[simp] theorem find?_put [DecidableEq κ] {t : Table key} {r : α} {k : κ} :
    (t.put r).find? k = if key r = k then some r else t.find? k := by
  unfold put
  rw [find?_insert]
  split
  · next heq =>
    rw [find?_delete]
    cases hfind : t.find? k with
    | none => rfl
    | some x =>
      have hkey := key_of_find? hfind
      simp [Option.filter, hkey, heq]
  · next hne =>
    rw [Option.or_none, find?_delete_of_ne]
    intro x _ hx
    rw [hx]
    exact decide_eq_false fun h => hne h.symm

end Table

end Relational
