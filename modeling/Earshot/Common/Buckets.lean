import Mathlib.Data.Nat.Notation
import Mathlib.Tactic.Common
/-!
# Buckets

Items are put into numbered buckets, one after the other, each into the one
that is its place or into none. A bucket then holds the items whose place it
is, in their order (`getElem?_distribute`).
-/

namespace Buckets

variable {α : Type*}

/-- An item is put after the others of its bucket. -/
def put (place : α → Option ℕ) (buckets : List (List α)) (item : α) : List (List α) :=
  match place item with
  | some index => buckets.modify index (· ++ [item])
  | none => buckets

/-- All items are put, in their order. -/
def distribute (place : α → Option ℕ) (count : ℕ) (items : List α) : List (List α) :=
  items.foldl (put place) (List.replicate count [])

variable {place : α → Option ℕ} {items : List α} {buckets : List (List α)} {index count : ℕ}

/-- **One item**: its own bucket has it last, and no other changes. -/
theorem getElem?_put (item : α) : (put place buckets item)[index]? =
    buckets[index]?.map (· ++ [item].filter fun item => place item = some index) := by
  rw [put]
  cases hplace : place item with
  | none =>
    rw [List.filter_cons, List.filter_nil, hplace]
    cases buckets[index]? with
    | none => rfl
    | some bucket => exact congrArg some (List.append_nil bucket).symm
  | some own =>
    dsimp only
    rw [List.getElem?_modify, List.filter_cons, List.filter_nil, hplace]
    cases buckets[index]? with
    | none => rfl
    | some bucket =>
      by_cases hown : own = index
      · subst hown
        simp only [Option.map_eq_map, Option.map_some, if_true, decide_true]
      · simp only [Option.map_eq_map, Option.map_some, Option.some.injEq, hown, decide_false,
          Bool.false_eq_true, if_false, List.append_nil]

theorem getElem?_foldl_put : (items.foldl (put place) buckets)[index]? =
    buckets[index]?.map (· ++ items.filter fun item => place item = some index) := by
  induction items generalizing buckets with
  | nil =>
    rw [List.foldl_nil, List.filter_nil]
    cases buckets[index]? with
    | none => rfl
    | some bucket => exact congrArg some (List.append_nil bucket).symm
  | cons item items ih =>
    rw [List.foldl_cons, ih, getElem?_put, Option.map_map]
    cases buckets[index]? with
    | none => rfl
    | some bucket =>
      have hsplit : (item :: items).filter (fun item => place item = some index) =
          [item].filter (fun item => place item = some index) ++
            items.filter fun item => place item = some index := by
        rw [← List.filter_append, List.singleton_append]
      rw [hsplit]
      exact congrArg some (List.append_assoc _ _ _)

/-- **A bucket holds the items whose place it is.** -/
theorem getElem?_distribute (h : index < count) : (distribute place count items)[index]? =
    some (items.filter fun item => place item = some index) := by
  rw [distribute, getElem?_foldl_put, List.getElem?_replicate, if_pos h]
  rfl

end Buckets
