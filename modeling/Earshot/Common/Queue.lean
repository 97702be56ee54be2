import Mathlib.Data.List.Sort
/-!
# Bounded reads of a sorted queue

A reader takes the first entry of a queue that is not held, but reads only
one entry more than there are held keys. Keys are distinct, so the held
ones fill the read only when every entry of it is held, and then it is the
whole queue (`find?_take`): the bound hides nothing. What is found is the
least of the entries that are not held (`rel_of_find?`).
-/

namespace Queue

variable {α κ : Type*} {key : α → κ} {held : List κ} {l : List α} {a : α}

/-- Distinct keys, all held, are no more than the held ones. -/
theorem length_le_of_held (hnd : (l.map key).Nodup) (hheld : ∀ a ∈ l, key a ∈ held) :
    l.length ≤ held.length := by
  have hsub : l.map key ⊆ held := by
    intro k hk
    obtain ⟨a, ha, rfl⟩ := List.mem_map.mp hk
    exact hheld a ha
  have hlen := (List.subperm_of_subset hnd hsub).length_le
  rwa [List.length_map] at hlen

theorem nodup_map_insertionSort {r : α → α → Prop} [DecidableRel r] {cond : α → Bool}
    (hnd : (l.map key).Nodup) : (((l.filter cond).insertionSort r).map key).Nodup :=
  ((List.perm_insertionSort r _).map key).nodup_iff.mpr
    (hnd.sublist (List.filter_sublist.map key))

variable [DecidableEq κ]

/-- The entry's key is not held. -/
def free (key : α → κ) (held : List κ) (a : α) : Bool := !held.contains (key a)

@[simp] theorem free_iff : free key held a = true ↔ key a ∉ held := by
  simp [free]

/-- **A read of one entry more than there are held keys finds what the whole
queue would.** -/
theorem find?_take (hnd : (l.map key).Nodup) :
    (l.take (held.length + 1)).find? (free key held) = l.find? (free key held) := by
  cases h : l.find? (free key held) with
  | none =>
      rw [List.find?_eq_none] at h ⊢
      exact fun a ha => h a (List.mem_of_mem_take ha)
  | some a =>
      obtain ⟨hfree, before, after, rfl, hbefore⟩ := List.find?_eq_some_iff_append.mp h
      have hheld : ∀ b ∈ before, key b ∈ held := by
        intro b hb
        simpa [free] using hbefore b hb
      have hnd' : (before.map key).Nodup :=
        hnd.sublist ((List.sublist_append_left before (a :: after)).map key)
      have hlen := length_le_of_held hnd' hheld
      -- the entry found stands within the bound
      obtain ⟨n, hn⟩ : ∃ n, held.length + 1 = before.length + (n + 1) :=
        ⟨held.length - before.length, by omega⟩
      rw [hn, List.take_length_add_append, List.take_succ_cons]
      exact List.find?_eq_some_iff_append.mpr ⟨hfree, before, after.take n, rfl, hbefore⟩

/-- Of a sorted queue the first entry found comes before the others that
could have been. -/
theorem rel_of_find? {r : α → α → Prop} (hsorted : l.Pairwise r) {p : α → Bool}
    (h : l.find? p = some a) : ∀ b ∈ l, p b = true → b = a ∨ r a b := by
  obtain ⟨hp, before, after, rfl, hbefore⟩ := List.find?_eq_some_iff_append.mp h
  intro b hb hpb
  rcases List.mem_append.mp hb with hb | hb
  · have hno := hbefore b hb
    rw [hpb] at hno
    cases hno
  · rcases List.mem_cons.mp hb with rfl | hb
    · exact Or.inl rfl
    · have hright := (List.pairwise_append.mp hsorted).2.1
      exact Or.inr ((List.pairwise_cons.mp hright).1 b hb)

/-- The bounded read of the entries a condition admits, in order. -/
def read (r : α → α → Prop) [DecidableRel r] (l : List α) (cond : α → Bool) (n : ℕ) : List α :=
  ((l.filter cond).insertionSort r).take n

variable {r : α → α → Prop} [DecidableRel r] {cond : α → Bool}

/-- **A bounded read finds nothing only when there is nothing.** -/
theorem find?_read_eq_none (hnd : (l.map key).Nodup) :
    (read r l cond (held.length + 1)).find? (free key held) = none ↔
      ∀ b ∈ l, cond b = true → key b ∈ held := by
  rw [read, find?_take (nodup_map_insertionSort hnd), List.find?_eq_none]
  simp [List.mem_filter, free]

variable [Std.Total r] [IsTrans α r]

/-- **What a bounded read finds** is an entry the condition admits, not
held, and least of these. -/
theorem find?_read_eq_some (hnd : (l.map key).Nodup)
    (h : (read r l cond (held.length + 1)).find? (free key held) = some a) :
    a ∈ l ∧ cond a = true ∧ key a ∉ held ∧
      ∀ b ∈ l, cond b = true → key b ∉ held → b = a ∨ r a b := by
  rw [read, find?_take (nodup_map_insertionSort hnd)] at h
  have hmem := (List.mem_insertionSort r).mp (List.mem_of_find?_eq_some h)
  rw [List.mem_filter] at hmem
  refine ⟨hmem.1, hmem.2, free_iff.mp (List.find?_some h), fun b hb hc hk => ?_⟩
  refine rel_of_find? (List.pairwise_insertionSort r _) h b ?_ (free_iff.mpr hk)
  rw [List.mem_insertionSort, List.mem_filter]
  exact ⟨hb, hc⟩

end Queue
