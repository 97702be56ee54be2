import Mathlib.Data.Nat.Notation
import Mathlib.Order.Basic
import Mathlib.Tactic.Common
/-!
# Segment trees

A segment tree in a list: the leaves stand from `size` on, and each node before
them holds what its two children hold, taken together by `op`. A tree is built
from its leaves, or changed at one of them; a walk from both ends of a range up
the tree takes the range together (`walk_eq`).

`op` is associative and commutative, with `e` as its unit.
-/

namespace SegmentTree

variable {α : Type*} (op : α → α → α) (e : α)

/-- What a node holds. -/
def value (tree : List α) (node : ℕ) : α := tree.getD node e

/-- A node is given what its children hold. -/
def pull (tree : List α) (node : ℕ) : List α :=
  tree.set node (op (value e tree (2 * node)) (value e tree (2 * node + 1)))

/-- The leaves are put in, one after the other. -/
def fill (tree : List α) (node : ℕ) : List α → List α
  | [] => tree
  | leaf :: leaves => fill (tree.set node leaf) (node + 1) leaves

/-- The nodes up to one, the last first. -/
def pullAll (tree : List α) : ℕ → List α
  | 0 => tree
  | node + 1 => pullAll (pull op e tree (node + 1)) node

/-- The tree of some leaves. -/
def build (size : ℕ) (leaves : List α) : List α :=
  pullAll op e (fill (List.replicate (2 * size) e) size leaves) (size - 1)

/-- The nodes from one up to the root. -/
def climb (tree : List α) (node : ℕ) : List α :=
  if node = 0 then tree else climb (pull op e tree node) (node / 2)
  termination_by node
  decreasing_by omega

/-- A leaf is changed. -/
def update (size : ℕ) (tree : List α) (position : ℕ) (leaf : α) : List α :=
  climb op e (tree.set (size + position) leaf) ((size + position) / 2)

/-- The nodes from `left` up to before `right`, taken together. -/
def walk (tree : List α) (left right : ℕ) (result : α) : α :=
  if left < right then
    let fromLeft := if left % 2 = 1 then op result (value e tree left) else result
    let fromRight := if right % 2 = 1 then op fromLeft (value e tree (right - 1)) else fromLeft
    walk tree ((left + left % 2) / 2) ((right - right % 2) / 2) fromRight
  else result
  termination_by right
  decreasing_by omega

/-- A run of nodes taken together, one by one. -/
def span (f : ℕ → α) (left : ℕ) : ℕ → α
  | 0 => e
  | count + 1 => op (f left) (span f (left + 1) count)

/-- Every node holds what its children hold. -/
def Complete (size : ℕ) (tree : List α) : Prop :=
  ∀ node, 1 ≤ node → node < size →
    value e tree node = op (value e tree (2 * node)) (value e tree (2 * node + 1))

variable {op e} {tree : List α} {size : ℕ}

/-! ## Changing a node -/

theorem value_set_self {node : ℕ} (h : node < tree.length) (leaf : α) :
    value e (tree.set node leaf) node = leaf := by
  unfold value
  rw [List.getD_eq_getElem?_getD, List.getElem?_set_self h]
  rfl

theorem value_set_ne {node other : ℕ} (h : node ≠ other) (leaf : α) :
    value e (tree.set node leaf) other = value e tree other := by
  unfold value
  rw [List.getD_eq_getElem?_getD, List.getElem?_set_ne h, ← List.getD_eq_getElem?_getD]

theorem value_of_lt {node : ℕ} (h : node < tree.length) : value e tree node = tree[node] := by
  rw [value, List.getD_eq_getElem?_getD, List.getElem?_eq_getElem h]
  rfl

theorem value_replicate (count node : ℕ) : value e (List.replicate count e) node = e := by
  rw [value, List.getD_eq_getElem?_getD, List.getElem?_replicate]
  split <;> rfl

theorem length_pull (node : ℕ) : (pull op e tree node).length = tree.length :=
  List.length_set

theorem value_pull_ne {node other : ℕ} (h : node ≠ other) :
    value e (pull op e tree node) other = value e tree other := value_set_ne h _

/-- A node's children are not itself. -/
theorem value_pull_self {node : ℕ} (hpos : 1 ≤ node) (h : node < tree.length) :
    value e (pull op e tree node) node =
      op (value e (pull op e tree node) (2 * node))
        (value e (pull op e tree node) (2 * node + 1)) := by
  have hself : value e (pull op e tree node) node =
      op (value e tree (2 * node)) (value e tree (2 * node + 1)) := value_set_self h _
  rw [hself, value_pull_ne (by omega), value_pull_ne (by omega)]

/-! ## Building -/

theorem length_fill (tree : List α) (node : ℕ) (leaves : List α) :
    (fill tree node leaves).length = tree.length := by
  induction leaves generalizing tree node with
  | nil => rfl
  | cons leaf leaves ih => rw [fill, ih, List.length_set]

/-- The leaves put in, and what was there around them. -/
theorem value_fill (leaves : List α) {tree : List α} {node : ℕ}
    (h : node + leaves.length ≤ tree.length) (other : ℕ) :
    value e (fill tree node leaves) other =
      if node ≤ other ∧ other < node + leaves.length then value e leaves (other - node)
      else value e tree other := by
  induction leaves generalizing tree node with
  | nil =>
    rw [List.length_nil, if_neg (by omega)]
    rfl
  | cons leaf leaves ih =>
    rw [List.length_cons] at h ⊢
    rw [fill, ih (by rw [List.length_set]; omega)]
    by_cases hnode : node = other
    · subst hnode
      rw [if_neg (by omega), if_pos (by omega), value_set_self (by omega), Nat.sub_self]
      rfl
    · rw [value_set_ne hnode]
      by_cases hwithin : node + 1 ≤ other ∧ other < node + 1 + leaves.length
      · rw [if_pos hwithin, if_pos (by omega),
          show other - node = (other - (node + 1)) + 1 by omega]
        rfl
      · rw [if_neg hwithin, if_neg (by omega)]

theorem length_pullAll (tree : List α) (node : ℕ) :
    (pullAll op e tree node).length = tree.length := by
  induction node generalizing tree with
  | zero => rfl
  | succ node ih => rw [pullAll, ih, length_pull]

theorem value_pullAll_of_lt {node other : ℕ} (h : node < other) :
    value e (pullAll op e tree node) other = value e tree other := by
  induction node generalizing tree with
  | zero => rfl
  | succ node ih => rw [pullAll, ih (by omega), value_pull_ne (by omega)]

/-- The nodes past one hold what their children hold, and so do all in the end. -/
theorem complete_pullAll {node : ℕ} (hlength : size ≤ tree.length)
    (h : ∀ other, node < other → other < size →
      value e tree other = op (value e tree (2 * other)) (value e tree (2 * other + 1)))
    (hnode : node < size) : Complete op e size (pullAll op e tree node) := by
  induction node generalizing tree with
  | zero => exact fun other hpos hlt => h other (by omega) hlt
  | succ node ih =>
    rw [pullAll]
    refine ih (by rw [length_pull]; exact hlength) (fun other hother hlt => ?_) (by omega)
    by_cases heq : node + 1 = other
    · subst heq
      exact value_pull_self (by omega) (by omega)
    · rw [value_pull_ne heq, value_pull_ne (by omega), value_pull_ne (by omega)]
      exact h other (by omega) hlt

theorem complete_build {leaves : List α} (hpos : 0 < size) :
    Complete op e size (build op e size leaves) := by
  refine complete_pullAll ?_ (fun other hother hlt => by omega) (by omega)
  rw [length_fill, List.length_replicate]
  omega

theorem value_build {leaves : List α} (hpos : 0 < size) (h : leaves.length ≤ size)
    {position : ℕ} (hposition : position < leaves.length) :
    value e (build op e size leaves) (size + position) = value e leaves position := by
  unfold build
  rw [value_pullAll_of_lt (by omega), value_fill leaves (by rw [List.length_replicate]; omega),
    if_pos (by omega), Nat.add_sub_cancel_left]

/-! ## Updating -/

/-- Every node holds what its children hold, but for those from one up to the
root. -/
def CompleteBut (op : α → α → α) (e : α) (size : ℕ) (tree : List α) (node : ℕ) : Prop :=
  ∀ other, 1 ≤ other → other < size → (∀ k : ℕ, other ≠ node >>> k) →
    value e tree other = op (value e tree (2 * other)) (value e tree (2 * other + 1))

/-- **One step up.** The node that is given anew is no longer left out. -/
theorem completeBut_pull {node : ℕ} (hpos : 1 ≤ node) (hlength : node < tree.length)
    (h : CompleteBut op e size tree node) :
    CompleteBut op e size (pull op e tree node) (node / 2) := by
  intro other hother hlt habove
  by_cases heq : node = other
  · subst heq
    exact value_pull_self hpos hlength
  · have hparent : other ≠ node / 2 := by simpa using habove 0
    rw [value_pull_ne heq, value_pull_ne (by omega), value_pull_ne (by omega)]
    refine h other hother hlt fun k => ?_
    cases k with
    | zero => simpa using fun hnode => heq hnode.symm
    | succ k =>
      rw [Nat.shiftRight_succ_inside]
      exact habove k

theorem length_climb (tree : List α) (node : ℕ) : (climb op e tree node).length = tree.length := by
  induction node using Nat.strongRecOn generalizing tree with
  | ind node ih =>
    rw [climb]
    split
    · rfl
    · rw [ih _ (by omega), length_pull]

theorem complete_climb {node : ℕ} (hnode : node < size) (hlength : size ≤ tree.length)
    (h : CompleteBut op e size tree node) : Complete op e size (climb op e tree node) := by
  induction node using Nat.strongRecOn generalizing tree with
  | ind node ih =>
    rw [climb]
    split
    · rename_i hzero
      subst hzero
      exact fun other hpos hlt => h other hpos hlt fun k => by rw [Nat.zero_shiftRight]; omega
    · exact ih _ (by omega) (by omega) (by rw [length_pull]; exact hlength)
        (completeBut_pull (by omega) (by omega) h)

theorem value_climb_of_lt {node other : ℕ} (h : node < other) :
    value e (climb op e tree node) other = value e tree other := by
  induction node using Nat.strongRecOn generalizing tree with
  | ind node ih =>
    rw [climb]
    split
    · rfl
    · rw [ih _ (by omega) (by omega), value_pull_ne (by omega)]

theorem length_update (tree : List α) (position : ℕ) (leaf : α) :
    (update op e size tree position leaf).length = tree.length := by
  rw [update, length_climb, List.length_set]

/-- **An update keeps a tree complete.** -/
theorem complete_update {position : ℕ} {leaf : α} (hlength : tree.length = 2 * size)
    (hposition : position < size) (h : Complete op e size tree) :
    Complete op e size (update op e size tree position leaf) := by
  refine complete_climb (by omega) (by rw [List.length_set]; omega) fun other hpos hlt habove => ?_
  have hparent : other ≠ (size + position) / 2 := by simpa using habove 0
  rw [value_set_ne (by omega), value_set_ne (by omega), value_set_ne (by omega)]
  exact h other hpos hlt

/-- The leaf is changed, and no other. -/
theorem value_update {position other : ℕ} {leaf : α} (hlength : tree.length = 2 * size)
    (hposition : position < size) :
    value e (update op e size tree position leaf) (size + other) =
      if other = position then leaf else value e tree (size + other) := by
  rw [update, value_climb_of_lt (by omega)]
  split
  · rename_i heq
    subst heq
    exact value_set_self (by omega) _
  · exact value_set_ne (by omega) _

/-! ## Walking -/

section Walk

variable [Std.Associative op] [Std.Commutative op] [Std.LawfulIdentity op e]

omit [Std.Commutative op] in
theorem span_snoc (f : ℕ → α) (left count : ℕ) :
    span op e f left (count + 1) = op (span op e f left count) (f (left + count)) := by
  induction count generalizing left with
  | zero =>
    show op (f left) e = op e (f (left + 0))
    rw [@Std.LawfulRightIdentity.right_id _ _ op e _, @Std.LawfulLeftIdentity.left_id _ _ op e _,
      Nat.add_zero]
  | succ count ih =>
    rw [span, ih, span, @Std.Associative.assoc _ op _, Nat.add_right_comm, Nat.add_assoc left]

omit [Std.Commutative op] [Std.LawfulIdentity op e] in
/-- **Twice as many nodes below.** -/
theorem span_double (h : Complete op e size tree) {left count : ℕ} (hpos : 1 ≤ left)
    (hlt : left + count ≤ size) :
    span op e (value e tree) (2 * left) (2 * count) = span op e (value e tree) left count := by
  induction count generalizing left with
  | zero => rfl
  | succ count ih =>
    rw [span, h left hpos (by omega), ← ih (by omega) (by omega), Nat.mul_succ, span, span,
      @Std.Associative.assoc _ op _]
    rfl

variable (op e) in
omit [Std.Commutative op] [Std.LawfulIdentity op e] in
/-- An odd left end is taken on its own. -/
theorem take_left (f : ℕ → α) {left right : ℕ} (result : α) (h : left < right) :
    op result (span op e f left (right - left)) =
      op (if left % 2 = 1 then op result (f left) else result)
        (span op e f (left + left % 2) (right - (left + left % 2))) := by
  by_cases hodd : left % 2 = 1
  · rw [if_pos hodd, hodd, @Std.Associative.assoc _ op _]
    obtain ⟨count, hcount⟩ : ∃ count, right - left = count + 1 := ⟨right - left - 1, by omega⟩
    rw [hcount, show right - (left + 1) = count by omega]
    rfl
  · rw [if_neg hodd, show left % 2 = 0 by omega, Nat.add_zero]

variable (op e) in
/-- An odd right end leaves the last before it to be taken on its own. -/
theorem take_right (f : ℕ → α) {left right : ℕ} (result : α) (h : left ≤ right - right % 2)
    (hle : right % 2 ≤ right) :
    op result (span op e f left (right - left)) =
      op (if right % 2 = 1 then op result (f (right - 1)) else result)
        (span op e f left (right - right % 2 - left)) := by
  by_cases hodd : right % 2 = 1
  · rw [if_pos hodd, hodd]
    obtain ⟨count, hcount⟩ : ∃ count, right - left = count + 1 := ⟨right - left - 1, by omega⟩
    rw [hcount, span_snoc, show right - 1 - left = count by omega,
      show left + count = right - 1 by omega, @Std.Associative.assoc _ op _,
      @Std.Commutative.comm _ op _ (f (right - 1))]
  · rw [if_neg hodd, show right % 2 = 0 by omega, Nat.sub_zero]

/-- **A walk takes its range together**, whatever it began with. -/
theorem walk_eq (h : Complete op e size tree) {left right : ℕ} (result : α) (hpos : 1 ≤ left)
    (hle : left ≤ right) (hright : right ≤ 2 * size) :
    walk op e tree left right result =
      op result (span op e (value e tree) left (right - left)) := by
  induction right using Nat.strongRecOn generalizing left result with
  | ind right ih =>
    rw [walk]
    split
    · rename_i hlt
      -- the range from an even node to an even node is that of the parents
      have hparents : span op e (value e tree) (2 * ((left + left % 2) / 2))
          (2 * ((right - right % 2) / 2 - (left + left % 2) / 2)) =
            span op e (value e tree) ((left + left % 2) / 2)
              ((right - right % 2) / 2 - (left + left % 2) / 2) :=
        span_double h (by omega) (by omega)
      rw [show 2 * ((left + left % 2) / 2) = left + left % 2 by omega,
        show 2 * ((right - right % 2) / 2 - (left + left % 2) / 2) =
          right - right % 2 - (left + left % 2) by omega] at hparents
      rw [ih _ (by omega) _ (by omega) (by omega) (by omega), ← hparents]
      exact ((take_left op e _ result hlt).trans
        (take_right op e _ _ (by omega) (by omega))).symm
    · rw [show right - left = 0 by omega, span, @Std.LawfulRightIdentity.right_id _ _ op e _]

end Walk

/-- What holds of a run taken together is what holds of each of it. -/
theorem span_iff {P : α → Prop} (hop : ∀ a b, P (op a b) ↔ P a ∧ P b) (he : P e) (f : ℕ → α)
    (left count : ℕ) : P (span op e f left count) ↔ ∀ i < count, P (f (left + i)) := by
  induction count generalizing left with
  | zero => exact ⟨fun _ i hi => absurd hi (Nat.not_lt_zero i), fun _ => he⟩
  | succ count ih =>
    rw [span, hop, ih]
    constructor
    · rintro ⟨hfirst, hrest⟩ i hi
      cases i with
      | zero => exact hfirst
      | succ i => rw [← Nat.add_assoc, Nat.add_right_comm]; exact hrest i (by omega)
    · intro hall
      refine ⟨hall 0 (by omega), fun i hi => ?_⟩
      rw [Nat.add_assoc, Nat.add_comm 1]
      exact hall (i + 1) (by omega)

/-! ## Leaves -/

/-- A complete tree over some leaves, the first of its own. -/
structure Holds (op : α → α → α) (e : α) (size : ℕ) (tree leaves : List α) : Prop where
  length : tree.length = 2 * size
  fits : leaves.length ≤ size
  complete : Complete op e size tree
  leaf : ∀ position < leaves.length, value e tree (size + position) = value e leaves position

theorem holds_build {leaves : List α} (hpos : 0 < size) (h : leaves.length ≤ size) :
    Holds op e size (build op e size leaves) leaves where
  length := by rw [build, length_pullAll, length_fill, List.length_replicate]
  fits := h
  complete := complete_build hpos
  leaf _ hposition := value_build hpos h hposition

/-- An update changes the leaf it names. -/
theorem Holds.update {leaves : List α} (h : Holds op e size tree leaves) {position : ℕ}
    (hposition : position < leaves.length) (leaf : α) :
    Holds op e size (update op e size tree position leaf) (leaves.set position leaf) where
  length := by rw [length_update, h.length]
  fits := by rw [List.length_set]; exact h.fits
  complete := complete_update h.length (by have := h.fits; omega) h.complete
  leaf other hother := by
    rw [List.length_set] at hother
    rw [value_update h.length (by have := h.fits; omega)]
    split
    · rename_i heq
      subst heq
      exact (value_set_self hother leaf).symm
    · rename_i hne
      rw [value_set_ne (Ne.symm hne), h.leaf other hother]

/-- **A walk over a range of leaves**: what holds of its result is what holds
of each leaf of the range. -/
theorem Holds.walk_iff [Std.Associative op] [Std.Commutative op] [Std.LawfulIdentity op e]
    {leaves : List α} (h : Holds op e size tree leaves) {P : α → Prop}
    (hop : ∀ a b, P (op a b) ↔ P a ∧ P b) (he : P e) {left count : ℕ}
    (hright : left + count ≤ leaves.length) (hpos : 1 ≤ size) :
    P (walk op e tree (size + left) (size + (left + count)) e) ↔
      ∀ leaf ∈ (leaves.drop left).take count, P leaf := by
  have hfits := h.fits
  rw [walk_eq h.complete e (by omega) (by omega) (by omega), hop, span_iff hop he,
    show size + (left + count) - (size + left) = count by omega]
  have hvalue : ∀ i < count, value e tree (size + left + i) = value e leaves (left + i) :=
    fun i hi => by rw [Nat.add_assoc, h.leaf _ (by omega)]
  constructor
  · rintro ⟨-, hall⟩ leaf hleaf
    obtain ⟨i, hi, hget⟩ := List.mem_iff_getElem.mp hleaf
    rw [List.length_take, List.length_drop] at hi
    rw [List.getElem_take, List.getElem_drop] at hget
    have hP := hall i (by omega)
    rw [hvalue i (by omega), value_of_lt (by omega), hget] at hP
    exact hP
  · refine fun hall => ⟨he, fun i hi => ?_⟩
    rw [hvalue i hi, value_of_lt (by omega)]
    refine hall _ (List.mem_iff_getElem.mpr ⟨i, ?_, ?_⟩)
    · rw [List.length_take, List.length_drop]
      omega
    · rw [List.getElem_take, List.getElem_drop]

end SegmentTree
