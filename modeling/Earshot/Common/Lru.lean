import Earshot.Common.Table
/-!
# Bounded tables in order of use

A table whose rows stand in the order of their last use and are never more
than its capacity: a row that is put or used goes to the end, and what is over
the capacity goes from the front. Nothing is found in it that was not put.
-/

open Relational

/-- At most `capacity` rows, least recently used first. -/
structure Lru {α κ : Type*} (key : α → κ) (capacity : ℕ) where
  table : Table key
  bounded : table.rows.length ≤ capacity

namespace Lru

variable {α κ : Type*} {key : α → κ} {capacity : ℕ}

instance : Membership α (Lru key capacity) := ⟨fun c r => r ∈ c.table⟩

theorem mem_def {c : Lru key capacity} {r : α} : r ∈ c ↔ r ∈ c.table := Iff.rfl

def empty : Lru key capacity := ⟨.empty, Nat.zero_le _⟩

theorem not_mem_empty {r : α} : r ∉ (empty : Lru key capacity) := Table.not_mem_empty

variable [DecidableEq κ]

def find? (c : Lru key capacity) (k : κ) : Option α := c.table.find? k

def erase (c : Lru key capacity) (k : κ) : Lru key capacity :=
  ⟨c.table.delete fun r => decide (key r = k),
    Nat.le_trans (List.length_filter_le _ _) c.bounded⟩

/-- The row at the end, in place of the one that has its key; what is over the
capacity goes from the front. -/
def put (c : Lru key capacity) (r : α) : Lru key capacity where
  table :=
    ⟨(c.table.put r).rows.drop ((c.table.put r).rows.length - capacity),
      (c.table.put r).nodup.sublist ((List.drop_sublist _ _).map key)⟩
  bounded := by
    rw [List.length_drop]
    omega

theorem mem_of_find? {c : Lru key capacity} {k : κ} {r : α} (h : c.find? k = some r) :
    r ∈ c ∧ key r = k :=
  Table.find?_eq_some.mp h

theorem mem_of_mem_erase {c : Lru key capacity} {k : κ} {r : α} (h : r ∈ c.erase k) : r ∈ c :=
  (Table.mem_delete.mp h).1

/-- **Nothing is in it but what was put.** -/
theorem mem_of_mem_put {c : Lru key capacity} {r x : α} (h : x ∈ c.put r) : x = r ∨ x ∈ c := by
  have hmem : x ∈ c.table.put r := List.mem_of_mem_drop h
  rcases Table.mem_insert.mp hmem with hx | ⟨rfl, -⟩
  · exact .inr (Table.mem_delete.mp hx).1
  · exact .inl rfl

end Lru
