import Mathlib.Data.List.MinMax
import Mathlib.Data.List.Sort
import Mathlib.Data.List.TakeWhile
import Mathlib.Data.Prod.Lex
/-!
# Sorted lists and where a key falls in them

`sortedBy` sorts by a key and keeps equal keys in their order. In a list so
sorted the elements before a key's place are those below it, so one probe
answers a question about all of them: `mem_lastAt` and `lastAt_eq_none` for
the last element not above a key, `nearest_le` for the one nearest to a point.
-/

namespace Bisect

variable {α κ : Type*} [LinearOrder κ]

/-- `bisect_left`: the place of `x` before its equals, in a sorted list. -/
def bisectLeft (xs : List κ) (x : κ) : ℕ := (xs.takeWhile (· < x)).length

/-- `bisect_right`: the place of `x` after its equals, in a sorted list. -/
def bisectRight (xs : List κ) (x : κ) : ℕ := (xs.takeWhile (· ≤ x)).length

/-- `sorted(l, key=key)`, which is stable. -/
def sortedBy (key : α → κ) (l : List α) : List α := l.insertionSort fun a b => key a ≤ key b

variable {key : α → κ} {l : List α} {x : κ} {a b : α}

theorem perm_sortedBy : (sortedBy key l).Perm l := List.perm_insertionSort _ l

@[simp] theorem mem_sortedBy : a ∈ sortedBy key l ↔ a ∈ l := perm_sortedBy.mem_iff

instance keyTotal : Std.Total fun a b : α => key a ≤ key b := ⟨fun a b => le_total (key a) (key b)⟩

instance keyTrans : IsTrans α fun a b => key a ≤ key b := ⟨fun _ _ _ => le_trans⟩

theorem pairwise_sortedBy (key : α → κ) (l : List α) :
    (sortedBy key l).Pairwise fun a b => key a ≤ key b :=
  List.pairwise_insertionSort _ l

theorem pairwise_map_sortedBy : ((sortedBy key l).map key).Pairwise (· ≤ ·) :=
  List.pairwise_map.mpr (pairwise_sortedBy key l)

theorem sortedBy_eq_self (h : l.Pairwise fun a b => key a ≤ key b) : sortedBy key l = l :=
  h.insertionSort_eq

/-! ## The first of the least -/

/-- The first element of least key: what comes before it in the list is
greater, and what comes after it is no less. -/
def IsFirstAt (key : α → κ) (l : List α) (a : α) : Prop :=
  ∃ pre post, l = pre ++ a :: post ∧ (∀ b ∈ pre, key a < key b) ∧ ∀ b ∈ post, key a ≤ key b

theorem isFirstAt_cons : IsFirstAt key (b :: l) a ↔
    (a = b ∧ ∀ c ∈ l, key b ≤ key c) ∨ (IsFirstAt key l a ∧ key a < key b) := by
  constructor
  · rintro ⟨pre, post, heq, hpre, hpost⟩
    cases pre with
    | nil =>
      obtain ⟨rfl, rfl⟩ := List.cons.inj heq
      exact Or.inl ⟨rfl, hpost⟩
    | cons c pre =>
      obtain ⟨rfl, rfl⟩ := List.cons.inj heq
      exact Or.inr ⟨⟨pre, post, rfl, fun d hd => hpre d (List.mem_cons_of_mem _ hd), hpost⟩,
        hpre b List.mem_cons_self⟩
  · rintro (⟨rfl, hpost⟩ | ⟨⟨pre, post, rfl, hpre, hpost⟩, hb⟩)
    · exact ⟨[], l, rfl, fun _ hc => absurd hc List.not_mem_nil, hpost⟩
    · refine ⟨b :: pre, post, rfl, fun c hc => ?_, hpost⟩
      rcases List.mem_cons.mp hc with rfl | hc
      · exact hb
      · exact hpre c hc

theorem IsFirstAt.mem (h : IsFirstAt key l a) : a ∈ l := by
  obtain ⟨pre, post, rfl, -⟩ := h
  exact List.mem_append_right _ List.mem_cons_self

theorem IsFirstAt.le (h : IsFirstAt key l a) (hb : b ∈ l) : key a ≤ key b := by
  obtain ⟨pre, post, rfl, hpre, hpost⟩ := h
  rcases List.mem_append.mp hb with hb | hb
  · exact le_of_lt (hpre b hb)
  · rcases List.mem_cons.mp hb with rfl | hb
    · exact le_rfl
    · exact hpost b hb

/-- **Sorting brings the first of the least to the front.** -/
theorem head?_sortedBy : (sortedBy key l).head? = some a ↔ IsFirstAt key l a := by
  induction l generalizing a with
  | nil =>
    constructor
    · intro h
      cases h
    · exact fun h => absurd h.mem List.not_mem_nil
  | cons b l ih =>
    have hcons : sortedBy key (b :: l) =
        (sortedBy key l).orderedInsert (fun a b => key a ≤ key b) b := rfl
    rw [isFirstAt_cons, ← ih, hcons]
    cases hs : sortedBy key l with
    | nil =>
      have hperm : (sortedBy key l).Perm l := perm_sortedBy
      rw [hs] at hperm
      obtain rfl := hperm.symm.eq_nil
      rw [List.orderedInsert_nil]
      constructor
      · exact fun h => Or.inl ⟨(Option.some.inj h).symm, fun _ hc => absurd hc List.not_mem_nil⟩
      · rintro (⟨rfl, -⟩ | ⟨h, -⟩)
        · rfl
        · cases h
    | cons c s =>
      have hfirst := ih.mp (congrArg List.head? hs)
      rw [List.orderedInsert_cons]
      split
      · rename_i hbc
        constructor
        · exact fun h => Or.inl ⟨(Option.some.inj h).symm, fun d hd => hbc.trans (hfirst.le hd)⟩
        · rintro (⟨rfl, -⟩ | ⟨h, hab⟩)
          · rfl
          · obtain rfl := Option.some.inj h
            exact absurd hbc (not_le.mpr hab)
      · rename_i hbc
        constructor
        · intro h
          obtain rfl := Option.some.inj h
          exact Or.inr ⟨rfl, not_le.mp hbc⟩
        · rintro (⟨rfl, hle⟩ | ⟨h, -⟩)
          · exact absurd (hle c hfirst.mem) hbc
          · exact h

/-! ## What comes before a key's place -/

theorem drop_takeWhile (p : α → Bool) (l : List α) :
    l.drop (l.takeWhile p).length = l.dropWhile p := by
  induction l with
  | nil => rfl
  | cons a l ih =>
    rw [List.takeWhile_cons, List.dropWhile_cons]
    split
    · exact ih
    · rfl

theorem take_takeWhile (p : α → Bool) (l : List α) :
    l.take (l.takeWhile p).length = l.takeWhile p := by
  induction l with
  | nil => rfl
  | cons a l ih =>
    rw [List.takeWhile_cons]
    split
    · exact congrArg (a :: ·) ih
    · rfl

/-- In a sorted list, what a downward closed condition holds of comes first. -/
theorem takeWhile_eq_filter {p : κ → Bool} (hp : ∀ a b, a ≤ b → p b = true → p a = true)
    (h : l.Pairwise fun a b => key a ≤ key b) :
    l.takeWhile (fun a => p (key a)) = l.filter fun a => p (key a) := by
  induction l with
  | nil => rfl
  | cons a l ih =>
    obtain ⟨hle, h⟩ := List.pairwise_cons.mp h
    rw [List.takeWhile_cons, List.filter_cons]
    split
    · rw [ih h]
    · rename_i ha
      rw [List.filter_eq_nil_iff.mpr fun b hb hpb => ha (hp _ _ (hle b hb) hpb)]

/-- What comes after it is what the condition does not hold of. -/
theorem mem_dropWhile {p : κ → Bool} (hp : ∀ a b, a ≤ b → p b = true → p a = true)
    (h : l.Pairwise fun a b => key a ≤ key b) :
    a ∈ l.dropWhile (fun a => p (key a)) ↔ a ∈ l ∧ p (key a) = false := by
  induction l with
  | nil => exact ⟨fun h => absurd h List.not_mem_nil, fun h => absurd h.1 List.not_mem_nil⟩
  | cons b l ih =>
    obtain ⟨hle, h⟩ := List.pairwise_cons.mp h
    rw [List.dropWhile_cons, List.mem_cons]
    split
    · rename_i hb
      rw [ih h]
      constructor
      · exact fun ⟨ha, hpa⟩ => ⟨Or.inr ha, hpa⟩
      · rintro ⟨rfl | ha, hpa⟩
        · rw [hb] at hpa
          cases hpa
        · exact ⟨ha, hpa⟩
    · rename_i hb
      refine ⟨fun ha => ⟨List.mem_cons.mp ha, ?_⟩, fun ⟨ha, _⟩ => List.mem_cons.mpr ha⟩
      rcases List.mem_cons.mp ha with rfl | ha
      · exact Bool.eq_false_iff.mpr hb
      · exact Bool.eq_false_iff.mpr fun hpa => hb (hp _ _ (hle a ha) hpa)

/-- **Between the places of two keys stand the elements from the one up to
before the other.** -/
theorem mem_between (h : l.Pairwise fun a b => key a ≤ key b) {y : κ} :
    a ∈ (l.dropWhile fun a => key a < x).takeWhile (fun a => key a < y) ↔
      a ∈ l ∧ x ≤ key a ∧ key a < y := by
  have hclosed : ∀ z a b : κ, a ≤ b → decide (b < z) = true → decide (a < z) = true :=
    fun z a b hab hb => decide_eq_true (hab.trans_lt (of_decide_eq_true hb))
  rw [takeWhile_eq_filter (hclosed y) (h.sublist (List.dropWhile_sublist _)), List.mem_filter,
    mem_dropWhile (hclosed x) h, decide_eq_true_eq, decide_eq_false_iff_not, not_lt, and_assoc]

/-- What comes from the place after a key's equals is above it. -/
theorem mem_drop_bisectRight {xs : List κ} (h : xs.Pairwise (· ≤ ·)) {y : κ} :
    y ∈ xs.drop (bisectRight xs x) ↔ y ∈ xs ∧ x < y := by
  have hclosed : ∀ a b : κ, a ≤ b → decide (b ≤ x) = true → decide (a ≤ x) = true :=
    fun a b hab hb => decide_eq_true (hab.trans (of_decide_eq_true hb))
  have hmem : y ∈ xs.dropWhile (fun a => decide (a ≤ x)) ↔ y ∈ xs ∧ decide (y ≤ x) = false :=
    mem_dropWhile hclosed h
  rw [bisectRight, drop_takeWhile, hmem, decide_eq_false_iff_not, not_le]

theorem bisectRight_map : bisectRight (l.map key) x = (l.takeWhile (key · ≤ x)).length := by
  rw [bisectRight, List.takeWhile_map, List.length_map]
  rfl

theorem bisectLeft_map : bisectLeft (l.map key) x = (l.takeWhile (key · < x)).length := by
  rw [bisectLeft, List.takeWhile_map, List.length_map]
  rfl

/-- The element before a place, if there is one. -/
def before? (l : List α) (place : ℕ) : Option α := if place = 0 then none else l[place - 1]?

theorem before?_takeWhile (p : α → Bool) :
    before? l (l.takeWhile p).length = (l.takeWhile p).getLast? := by
  rw [before?]
  split
  · rename_i hzero
    rw [List.length_eq_zero_iff.mp hzero]
    rfl
  · rename_i hpos
    have hsplit : l[(l.takeWhile p).length - 1]? =
        (l.takeWhile p ++ l.dropWhile p)[(l.takeWhile p).length - 1]? := by
      rw [List.takeWhile_append_dropWhile]
    rw [hsplit, List.getElem?_append_left (by omega), List.getLast?_eq_getElem?]

/-- **Two places differ** when a key of the list is between them. -/
theorem bisectRight_lt_bisectLeft_iff {xs : List κ} {x y : κ} (h : xs.Pairwise (· ≤ ·)) :
    bisectRight xs x < bisectLeft xs y ↔ ∃ a ∈ xs, x < a ∧ a < y := by
  induction xs with
  | nil => simp [bisectRight, bisectLeft]
  | cons a xs ih =>
    obtain ⟨hle, h⟩ := List.pairwise_cons.mp h
    unfold bisectRight bisectLeft at ih ⊢
    rw [List.takeWhile_cons, List.takeWhile_cons]
    by_cases hax : a ≤ x
    · by_cases hay : a < y
      · rw [if_pos (decide_eq_true hax), if_pos (decide_eq_true hay), List.length_cons,
          List.length_cons, Nat.add_lt_add_iff_right, ih h]
        constructor
        · rintro ⟨b, hb, hbetween⟩
          exact ⟨b, List.mem_cons_of_mem _ hb, hbetween⟩
        · rintro ⟨b, hb, hxb, hby⟩
          rcases List.mem_cons.mp hb with rfl | hb
          · exact absurd hxb (not_lt.mpr hax)
          · exact ⟨b, hb, hxb, hby⟩
      · rw [if_neg fun h => hay (of_decide_eq_true h), List.length_nil]
        refine ⟨fun h => absurd h (Nat.not_lt_zero _), ?_⟩
        rintro ⟨b, hb, -, hby⟩
        rcases List.mem_cons.mp hb with rfl | hb
        · exact absurd hby hay
        · exact absurd ((hle b hb).trans_lt hby) hay
    · rw [if_neg fun h => hax (of_decide_eq_true h), List.length_nil]
      by_cases hay : a < y
      · rw [if_pos (decide_eq_true hay)]
        exact ⟨fun _ => ⟨a, List.mem_cons_self, not_le.mp hax, hay⟩, fun _ => Nat.succ_pos _⟩
      · rw [if_neg fun h => hay (of_decide_eq_true h)]
        refine ⟨fun h => absurd h (Nat.lt_irrefl _), ?_⟩
        rintro ⟨b, hb, -, hby⟩
        rcases List.mem_cons.mp hb with rfl | hb
        · exact absurd hby hay
        · exact absurd ((hle b hb).trans_lt hby) hay

/-- A key of the list is found at its place. -/
theorem getElem?_bisectLeft (h : l.Pairwise fun a b => key a ≤ key b) (hx : x ∈ l.map key) :
    ∃ a ∈ l, l[bisectLeft (l.map key) x]? = some a ∧ key a = x := by
  obtain ⟨b, hb, rfl⟩ := List.mem_map.mp hx
  have hsplit : l = l.takeWhile (fun a => key a < key b) ++ l.dropWhile fun a => key a < key b :=
    List.takeWhile_append_dropWhile.symm
  have hclosed : ∀ c d : κ, c ≤ d → decide (d < key b) = true → decide (c < key b) = true :=
    fun c d hcd hd => decide_eq_true (hcd.trans_lt (of_decide_eq_true hd))
  have hdrop : b ∈ l.dropWhile fun a => key a < key b :=
    (mem_dropWhile hclosed h).mpr ⟨hb, decide_eq_false (lt_irrefl _)⟩
  rw [bisectLeft_map]
  cases hd : l.dropWhile fun a => key a < key b with
  | nil =>
    rw [hd] at hdrop
    exact absurd hdrop List.not_mem_nil
  | cons d rest =>
    have hmem : d ∈ l.dropWhile fun a => key a < key b := hd ▸ List.mem_cons_self
    have hbd : key b ≤ key d :=
      not_lt.mp (of_decide_eq_false ((mem_dropWhile hclosed h).mp hmem).2)
    have hpair := h.sublist (List.dropWhile_sublist fun a => key a < key b)
    rw [hd] at hdrop hpair
    refine ⟨d, (List.dropWhile_sublist _).mem (hd ▸ List.mem_cons_self), ?_, ?_⟩
    · have hat : ∀ below : List α, (below ++ d :: rest)[below.length]? = some d := fun below => by
        rw [List.getElem?_append_right le_rfl, Nat.sub_self]
        rfl
      rw [hd] at hsplit
      exact (congrArg (·[(l.takeWhile fun a => key a < key b).length]?) hsplit).trans (hat _)
    · rcases List.mem_cons.mp hdrop with rfl | hb
      · rfl
      · exact le_antisymm ((List.pairwise_cons.mp hpair).1 b hb) hbd

/-- An element of a sorted list is found at its own place. -/
theorem getElem?_bisectLeft_self {xs : List κ} (h : xs.Pairwise (· ≤ ·)) (hx : x ∈ xs) :
    xs[bisectLeft xs x]? = some x := by
  have hmem : x ∈ xs.map fun c => c := by rwa [List.map_id']
  obtain ⟨c, -, hget, rfl⟩ := @getElem?_bisectLeft κ κ _ (fun c => c) xs x h hmem
  rw [List.map_id'] at hget
  exact hget

/-! ## The last element not above a key -/

/-- `l[bisect_right(keys, x) - 1]`, of the list sorted by the key. -/
def lastAt (key : α → κ) (l : List α) (x : κ) : Option α :=
  before? (sortedBy key l) (bisectRight ((sortedBy key l).map key) x)

theorem lastAt_eq : lastAt key l x = ((sortedBy key l).filter (key · ≤ x)).getLast? := by
  rw [lastAt, bisectRight_map, before?_takeWhile,
    takeWhile_eq_filter (p := fun k => decide (k ≤ x)) (fun a b hab hb =>
      decide_eq_true (hab.trans (of_decide_eq_true hb))) (pairwise_sortedBy key l)]

theorem lastAt_eq_none : lastAt key l x = none ↔ ∀ a ∈ l, x < key a := by
  rw [lastAt_eq, List.getLast?_eq_none_iff, List.filter_eq_nil_iff]
  simp only [mem_sortedBy, decide_eq_true_eq, not_le]

/-- **It is the greatest of those not above the key.** -/
theorem mem_lastAt (h : lastAt key l x = some a) :
    a ∈ l ∧ key a ≤ x ∧ ∀ b ∈ l, key b ≤ x → key b ≤ key a := by
  rw [lastAt_eq] at h
  obtain ⟨init, hinit⟩ := List.getLast?_eq_some_iff.mp h
  have hmem : a ∈ (sortedBy key l).filter (key · ≤ x) := by
    rw [hinit]
    exact List.mem_append_right _ List.mem_cons_self
  obtain ⟨ha, hle⟩ := List.mem_filter.mp hmem
  refine ⟨mem_sortedBy.mp ha, of_decide_eq_true hle, fun b hb hbx => ?_⟩
  have hpair := (pairwise_sortedBy key l).filter (key · ≤ x)
  rw [hinit] at hpair
  have hbmem : b ∈ (sortedBy key l).filter (key · ≤ x) :=
    List.mem_filter.mpr ⟨mem_sortedBy.mpr hb, decide_eq_true hbx⟩
  rw [hinit] at hbmem
  rcases List.mem_append.mp hbmem with hb | hb
  · exact (List.pairwise_append.mp hpair).2.2 b hb a List.mem_cons_self
  · rw [List.mem_singleton.mp hb]

/-- The last element of greatest key among those not above `x`: what comes
before it in the list is no greater, and what comes after it is less. -/
def IsLastAt (key : α → κ) (l : List α) (x : κ) (a : α) : Prop :=
  ∃ pre post, l = pre ++ a :: post ∧ key a ≤ x ∧
    (∀ b ∈ pre, key b ≤ x → key b ≤ key a) ∧ ∀ b ∈ post, key b ≤ x → key b < key a

theorem isLastAt_cons : IsLastAt key (b :: l) x a ↔
    (a = b ∧ key b ≤ x ∧ ∀ c ∈ l, key c ≤ x → key c < key b) ∨
      (IsLastAt key l x a ∧ (key b ≤ x → key b ≤ key a)) := by
  constructor
  · rintro ⟨pre, post, heq, hax, hpre, hpost⟩
    cases pre with
    | nil =>
      obtain ⟨rfl, rfl⟩ := List.cons.inj heq
      exact Or.inl ⟨rfl, hax, hpost⟩
    | cons c pre =>
      obtain ⟨rfl, rfl⟩ := List.cons.inj heq
      exact Or.inr ⟨⟨pre, post, rfl, hax, fun d hd => hpre d (List.mem_cons_of_mem _ hd), hpost⟩,
        hpre b List.mem_cons_self⟩
  · rintro (⟨rfl, hbx, hpost⟩ | ⟨⟨pre, post, rfl, hax, hpre, hpost⟩, hb⟩)
    · exact ⟨[], l, rfl, hbx, fun _ hc => absurd hc List.not_mem_nil, hpost⟩
    · refine ⟨b :: pre, post, rfl, hax, fun c hc hcx => ?_, hpost⟩
      rcases List.mem_cons.mp hc with rfl | hc
      · exact hb hcx
      · exact hpre c hc hcx

/-- The last not above `x` of a sorted list with one more element: that one,
if it is greater than the others, and else theirs. -/
theorem getLast?_filter_orderedInsert (b : α) {s : List α}
    (h : s.Pairwise fun a b => key a ≤ key b) :
    ((s.orderedInsert (fun a b => key a ≤ key b) b).filter (key · ≤ x)).getLast? =
      if key b ≤ x ∧ ∀ c ∈ s, key c ≤ x → key c < key b then some b
      else (s.filter (key · ≤ x)).getLast? := by
  have hsplit : s.filter (key · ≤ x) = (s.takeWhile fun c => ¬ key b ≤ key c).filter (key · ≤ x) ++
      (s.dropWhile fun c => ¬ key b ≤ key c).filter (key · ≤ x) := by
    rw [← List.filter_append, List.takeWhile_append_dropWhile]
  have habove : ∀ c ∈ s.dropWhile fun c => ¬ key b ≤ key c, key b ≤ key c := by
    have hclosed : ∀ c d : κ, c ≤ d → decide (¬ key b ≤ d) = true →
        decide (¬ key b ≤ c) = true := fun c d hcd hd =>
      decide_eq_true fun hle => of_decide_eq_true hd (hle.trans hcd)
    intro c hc
    exact not_not.mp (of_decide_eq_false ((mem_dropWhile hclosed h).mp hc).2)
  rw [List.orderedInsert_eq_take_drop, List.filter_append, List.getLast?_append, List.filter_cons]
  by_cases hbx : key b ≤ x
  · rw [if_pos (decide_eq_true hbx), hsplit, List.getLast?_append, List.getLast?_cons]
    cases hlast : ((s.dropWhile fun c => ¬ key b ≤ key c).filter (key · ≤ x)).getLast? with
    | none =>
      have hnone := List.filter_eq_nil_iff.mp (List.getLast?_eq_none_iff.mp hlast)
      have hall : ∀ c ∈ s, key c ≤ x → key c < key b := by
        intro c hc hcx
        rw [← List.takeWhile_append_dropWhile (p := fun c => decide (¬ key b ≤ key c)) (l := s)]
          at hc
        rcases List.mem_append.mp hc with hc | hc
        · have hbelow := List.mem_takeWhile_imp hc
          exact not_le.mp (of_decide_eq_true hbelow)
        · exact absurd (decide_eq_true hcx) (hnone c hc)
      rw [if_pos ⟨hbx, hall⟩]
      rfl
    | some c =>
      obtain ⟨hc, hcx⟩ := List.mem_filter.mp (List.mem_of_getLast? hlast)
      rw [if_neg fun hall => (not_lt.mpr (habove c hc)) (hall.2 c
        ((List.dropWhile_sublist _).mem hc) (of_decide_eq_true hcx))]
      rfl
  · rw [if_neg (fun h => hbx (of_decide_eq_true h)), if_neg fun h => hbx h.1, hsplit,
      List.getLast?_append]

/-- **The probe is the last of the greatest**, in the order of the list. -/
theorem lastAt_eq_some_iff : lastAt key l x = some a ↔ IsLastAt key l x a := by
  rw [lastAt_eq]
  induction l generalizing a with
  | nil =>
    constructor
    · intro h
      cases h
    · rintro ⟨pre, post, heq, -⟩
      exact absurd heq (by simp)
  | cons b l ih =>
    have hcons : sortedBy key (b :: l) =
        (sortedBy key l).orderedInsert (fun a b => key a ≤ key b) b := rfl
    rw [isLastAt_cons, ← ih, hcons, getLast?_filter_orderedInsert b (pairwise_sortedBy key l)]
    simp only [mem_sortedBy]
    split
    · rename_i hb
      constructor
      · intro h
        exact Or.inl ⟨(Option.some.inj h).symm, hb⟩
      · rintro (⟨rfl, -⟩ | ⟨ha, hba⟩)
        · rfl
        · rw [ih] at ha
          obtain ⟨pre, post, rfl, hax, -⟩ := ha
          have := hb.2 a (List.mem_append_right _ List.mem_cons_self) hax
          exact absurd (hba hb.1) (not_le.mpr this)
    · rename_i hb
      constructor
      · intro ha
        refine Or.inr ⟨ha, fun hbx => ?_⟩
        by_contra hlt
        refine hb ⟨hbx, fun c hc hcx => ?_⟩
        have hgreatest := mem_lastAt (lastAt_eq.trans ha)
        exact (hgreatest.2.2 c hc hcx).trans_lt (not_le.mp hlt)
      · rintro (⟨-, hb'⟩ | ⟨ha, -⟩)
        · exact absurd hb' hb
        · exact ha

theorem IsLastAt.unique (h : IsLastAt key l x a) (h' : IsLastAt key l x b) : a = b :=
  Option.some.inj ((lastAt_eq_some_iff.mpr h).symm.trans (lastAt_eq_some_iff.mpr h'))

/-! ## The nearest point -/

variable {γ : Type*} [LinearOrder γ]

/-- The two elements around a place. -/
def around (xs : List α) (place : ℕ) : List α :=
  (xs.take (min xs.length (place + 1))).drop (place - 1)

/-- The two elements around the place of a condition that holds at first are
the last it holds of and the first it does not. -/
theorem around_takeWhile (p : α → Bool) (xs : List α) :
    around xs (xs.takeWhile p).length =
      (xs.takeWhile p).getLast?.toList ++ (xs.dropWhile p).head?.toList := by
  have hsplit : xs = xs.takeWhile p ++ xs.dropWhile p := List.takeWhile_append_dropWhile.symm
  rw [around, min_comm, ← List.take_eq_take_min]
  generalize xs.takeWhile p = below at hsplit
  generalize xs.dropWhile p = above at hsplit
  subst hsplit
  have htake : (below ++ above).take (below.length + 1) = below ++ above.head?.toList := by
    rw [List.take_append, List.take_of_length_le (by omega), Nat.add_sub_cancel_left]
    cases above <;> rfl
  rw [htake]
  rcases List.eq_nil_or_concat' below with rfl | ⟨init, a, rfl⟩
  · rfl
  · rw [List.length_append, List.length_singleton, Nat.add_sub_cancel, List.append_assoc,
      List.drop_left, List.getLast?_concat]
    rfl

/-- `min(candidates, key=(distance, point))`, of the elements around a place. -/
def nearest (distance : κ → γ) (xs : List κ) (place : ℕ) : Option κ :=
  (around xs place).argmin fun a => toLex (distance a, a)

/-- The same of all elements, in any order. -/
def nearestOf (distance : κ → γ) (points : List κ) : Option κ :=
  points.argmin fun a => toLex (distance a, a)

theorem nearest_eq_none {distance : κ → γ} {xs : List κ} {p : κ → Bool} :
    nearest distance xs (xs.takeWhile p).length = none ↔ xs = [] := by
  rw [nearest, List.argmin_eq_none, around_takeWhile, List.append_eq_nil_iff]
  constructor
  · rintro ⟨hbelow, habove⟩
    rw [← List.takeWhile_append_dropWhile (p := p) (l := xs)]
    cases hb : xs.takeWhile p with
    | nil =>
      cases ha : xs.dropWhile p with
      | nil => rfl
      | cons a above =>
        rw [ha] at habove
        cases habove
    | cons b below =>
      rw [hb, List.getLast?_cons] at hbelow
      cases hbelow
  · rintro rfl
    exact ⟨rfl, rfl⟩

/-- **The nearest of all is one of the two around the place**, where the
distance falls up to it and grows from it on. -/
theorem nearest_le {distance : κ → γ} {xs : List κ} {p : κ → Bool} {m : κ}
    (hsorted : xs.Pairwise (· ≤ ·))
    (hbelow : ∀ a ∈ xs, ∀ b ∈ xs, a < b → p b = true → distance b < distance a)
    (habove : ∀ a ∈ xs, ∀ b ∈ xs, a ≤ b → p a = false → distance a ≤ distance b)
    (h : nearest distance xs (xs.takeWhile p).length = some m) :
    m ∈ xs ∧ ∀ a ∈ xs, toLex (distance m, m) ≤ toLex (distance a, a) := by
  have hmin : ∀ a ∈ around xs (xs.takeWhile p).length,
      toLex (distance m, m) ≤ toLex (distance a, a) := fun a ha =>
    List.le_of_mem_argmin (f := fun a => toLex (distance a, a)) ha h
  have hmem := List.argmin_mem h
  rw [around_takeWhile] at hmem hmin
  constructor
  · rcases List.mem_append.mp hmem with hm | hm
    · exact (List.takeWhile_sublist p).mem (List.mem_of_getLast? (Option.mem_toList.mp hm))
    · exact (List.dropWhile_sublist p).mem (List.mem_of_head? (Option.mem_toList.mp hm))
  · intro a ha
    have hmemBelow : ∀ b ∈ xs.takeWhile p, b ∈ xs := fun b => (List.takeWhile_sublist p).mem
    have hmemAbove : ∀ b ∈ xs.dropWhile p, b ∈ xs := fun b => (List.dropWhile_sublist p).mem
    have hxs := ha
    rw [← List.takeWhile_append_dropWhile (p := p) (l := xs)] at ha hsorted
    obtain ⟨hlow, hhigh, -⟩ := List.pairwise_append.mp hsorted
    rcases List.mem_append.mp ha with ha | ha
    · obtain ⟨init, b, hinit⟩ := (List.eq_nil_or_concat' (xs.takeWhile p)).resolve_left
        (List.ne_nil_of_mem ha)
      have hb : b ∈ (xs.takeWhile p).getLast?.toList := by
        rw [hinit, List.getLast?_concat]
        exact List.mem_cons_self
      refine (hmin b (List.mem_append_left _ hb)).trans ?_
      have hpb : p b = true := List.mem_takeWhile_imp (by
        rw [hinit]
        exact List.mem_append_right _ List.mem_cons_self)
      have hbxs : b ∈ xs := hmemBelow b (by
        rw [hinit]
        exact List.mem_append_right _ List.mem_cons_self)
      rw [hinit] at ha hlow
      rcases List.mem_append.mp ha with ha | ha
      · rcases ((List.pairwise_append.mp hlow).2.2 a ha b List.mem_cons_self).eq_or_lt with rfl | hlt
        · exact le_rfl
        · exact Prod.Lex.toLex_le_toLex.mpr (Or.inl (hbelow a hxs b hbxs hlt hpb))
      · rw [List.mem_singleton.mp ha]
    · cases hd : xs.dropWhile p with
      | nil =>
        rw [hd] at ha
        exact absurd ha List.not_mem_nil
      | cons d rest =>
        have hhead := List.head?_dropWhile_not p xs
        rw [hd] at ha hhigh hhead hmin hmemAbove
        refine (hmin d (List.mem_append_right _ List.mem_cons_self)).trans ?_
        have hpd : p d = false := by simpa using hhead
        have hda : d ≤ a := by
          rcases List.mem_cons.mp ha with rfl | ha
          · exact le_rfl
          · exact (List.pairwise_cons.mp hhigh).1 a ha
        rcases (habove d (hmemAbove d List.mem_cons_self) a hxs hda hpd).eq_or_lt with heq | hlt
        · exact Prod.Lex.toLex_le_toLex.mpr (Or.inr ⟨heq, hda⟩)
        · exact Prod.Lex.toLex_le_toLex.mpr (Or.inl hlt)

/-- **The probe finds what a search of all of them finds**, in any order. -/
theorem nearest_eq_nearestOf {distance : κ → γ} {xs points : List κ} {p : κ → Bool}
    (hperm : xs.Perm points) (hsorted : xs.Pairwise (· ≤ ·))
    (hbelow : ∀ a ∈ xs, ∀ b ∈ xs, a < b → p b = true → distance b < distance a)
    (habove : ∀ a ∈ xs, ∀ b ∈ xs, a ≤ b → p a = false → distance a ≤ distance b) :
    nearest distance xs (xs.takeWhile p).length = nearestOf distance points := by
  unfold nearestOf
  cases hargmin : points.argmin fun a => toLex (distance a, a) with
  | none =>
    rw [nearest_eq_none]
    rw [List.argmin_eq_none.mp hargmin] at hperm
    exact hperm.eq_nil
  | some best =>
    have hbest := hperm.mem_iff.mpr (List.argmin_mem hargmin)
    cases hnearest : nearest distance xs (xs.takeWhile p).length with
    | none =>
      rw [nearest_eq_none.mp hnearest] at hbest
      exact absurd hbest List.not_mem_nil
    | some m =>
      obtain ⟨hm, hle⟩ := nearest_le hsorted hbelow habove hnearest
      have hge := List.le_of_mem_argmin (f := fun a => toLex (distance a, a))
        (hperm.mem_iff.mp hm) hargmin
      exact congrArg some (congrArg (fun x => (ofLex x).2) (le_antisymm (hle best hbest) hge))

end Bisect
