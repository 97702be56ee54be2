import Mathlib.Data.List.Sort
/-!
# Keyset pages

A listing read page by page, highest sort key first: a page holds the rows
beneath its cursor, its cursor is the key of the last item of the page before,
and one row more is read than the page holds, to see whether there is a next
one. Rows may come, go and change between the pages.

Whatever they do, the items come in strictly decreasing order over the whole
run (`Following.pairwise_items`), and a key that is there when each page is read
is listed or lies beneath the last of them (`Following.listed_or_beneath`), so
it is listed once the run ends.
-/

namespace Keyset

variable {α κ : Type*} [LinearOrder κ] (key : α → κ)

/-! ## One page -/

/-- The rows beneath the cursor, highest key first. -/
def beneath (cursor : Option κ) (rows : List α) : List α :=
  (rows.filter fun r => cursor.all fun k => key r < k).insertionSort fun r s => key s ≤ key r

structure Page (α κ : Type*) where
  items : List α
  next : Option κ

/-- The page of at most `limit` rows; the row read beyond them is probed only. -/
def page (cursor : Option κ) (limit : ℕ) (rows : List α) : Page α κ :=
  let read := (beneath key cursor rows).take (limit + 1)
  { items := read.take limit
    next := if limit < read.length then (read.take limit).getLast?.map key else none }

variable {key} {cursor : Option κ} {limit : ℕ} {rows : List α} {r : α} {k : κ}

theorem mem_beneath : r ∈ beneath key cursor rows ↔ r ∈ rows ∧ ∀ k ∈ cursor, key r < k := by
  rw [beneath, List.mem_insertionSort, List.mem_filter]
  cases cursor with
  | none => simp
  | some k => simp

/-- Rows of different keys are in strictly decreasing order. -/
theorem pairwise_beneath (h : (rows.map key).Nodup) :
    (beneath key cursor rows).Pairwise fun r s => key s < key r := by
  have htotal : Std.Total fun r s : α => key s ≤ key r := ⟨fun r s => le_total (key s) (key r)⟩
  have htrans : IsTrans α fun r s => key s ≤ key r := ⟨fun _ _ _ hrs hst => hst.trans hrs⟩
  have hsorted := List.pairwise_insertionSort (fun r s : α => key s ≤ key r)
    (rows.filter fun r => cursor.all fun k => key r < k)
  have hne : (beneath key cursor rows).Pairwise fun r s => key r ≠ key s := by
    have hfilter := (h.sublist (List.filter_sublist.map key) :
      ((rows.filter fun r => cursor.all fun k => key r < k).map key).Nodup)
    exact (List.pairwise_map.mp hfilter).perm (List.perm_insertionSort _ _).symm
      fun hrs heq => hrs heq.symm
  exact hsorted.imp₂ (fun r s hle hne => lt_of_le_of_ne hle (Ne.symm hne)) hne

theorem items_page : (page key cursor limit rows).items = (beneath key cursor rows).take limit := by
  rw [page, List.take_take, min_eq_left (Nat.le_succ limit)]

theorem mem_items (h : r ∈ (page key cursor limit rows).items) :
    r ∈ rows ∧ ∀ k ∈ cursor, key r < k := by
  rw [items_page] at h
  exact mem_beneath.mp (List.mem_of_mem_take h)

theorem pairwise_items (h : (rows.map key).Nodup) :
    (page key cursor limit rows).items.Pairwise fun r s => key s < key r := by
  rw [items_page]
  exact (pairwise_beneath h).sublist (List.take_sublist _ _)

/-- **A page with a cursor** ends in the row of that key; what it leaves lies
beneath. -/
theorem next_eq_some (h : (rows.map key).Nodup)
    (hnext : (page key cursor limit rows).next = some k) :
    (∃ r, (page key cursor limit rows).items.getLast? = some r ∧ key r = k) ∧
      (∀ r ∈ (page key cursor limit rows).items, k ≤ key r) ∧
      (∃ r ∈ beneath key cursor rows, key r < k) ∧
      ∀ r ∈ beneath key cursor rows, r ∉ (page key cursor limit rows).items → key r < k := by
  rw [items_page]
  rw [page] at hnext
  simp only [List.take_take, min_eq_left (Nat.le_succ limit), List.length_take] at hnext
  split at hnext
  · next hlong =>
    obtain ⟨last, hlast, rfl⟩ := Option.map_eq_some_iff.mp hnext
    have hpairwise : (beneath key cursor rows).Pairwise fun r s => key s < key r :=
      pairwise_beneath h
    rw [← List.take_append_drop limit (beneath key cursor rows), List.pairwise_append] at hpairwise
    obtain ⟨htake, -, hcross⟩ := hpairwise
    have hmem := List.mem_of_getLast? hlast
    refine ⟨⟨last, hlast, rfl⟩, fun r hr => ?_, ?_, fun r hr hnot => ?_⟩
    · -- the last item is the least
      obtain ⟨front, hfront⟩ := List.getLast?_eq_some_iff.mp hlast
      rw [hfront] at hr htake
      rw [List.pairwise_append] at htake
      rcases List.mem_append.mp hr with hr | hr
      · exact (htake.2.2 r hr last List.mem_cons_self).le
      · rw [List.mem_singleton.mp hr]
    · obtain ⟨r, hr⟩ := List.exists_mem_of_length_pos
        (l := (beneath key cursor rows).drop limit) (by rw [List.length_drop]; omega)
      exact ⟨r, List.mem_of_mem_drop hr, hcross last hmem r hr⟩
    · rw [← List.take_append_drop limit (beneath key cursor rows)] at hr
      rcases List.mem_append.mp hr with hr | hr
      · exact absurd hr hnot
      · exact hcross last hmem r hr
  · cases hnext

/-- **A page without one** holds all there is. -/
theorem next_eq_none (hlimit : 0 < limit) (hnext : (page key cursor limit rows).next = none) :
    (page key cursor limit rows).items = beneath key cursor rows := by
  rw [items_page]
  rw [page] at hnext
  simp only [List.take_take, min_eq_left (Nat.le_succ limit), List.length_take] at hnext
  split at hnext
  · next hlong =>
    rw [Option.map_eq_none_iff, List.getLast?_eq_none_iff, List.take_eq_nil_iff] at hnext
    rcases hnext with hzero | hnil
    · omega
    · rw [hnil, List.length_nil] at hlong
      omega
  · exact List.take_of_length_le (by omega)

/-- The least key a page reached: its last item's, or its cursor. -/
def bottom (key : α → κ) (cursor : Option κ) (items : List α) : Option κ :=
  (items.getLast?.map key).or cursor

/-- **There is no next page exactly when nothing lies beneath this one.** -/
theorem next_eq_none_iff (h : (rows.map key).Nodup) (hlimit : 0 < limit) :
    (page key cursor limit rows).next = none ↔
      ∀ r ∈ rows, ¬ ∀ k ∈ bottom key cursor (page key cursor limit rows).items,
        key r < k := by
  constructor
  · intro hnext r hr hlow
    have hall := next_eq_none hlimit hnext
    have hpairwise : (beneath key cursor rows).Pairwise fun r s => key s < key r :=
      pairwise_beneath h
    rw [hall] at hlow
    cases hlast : (beneath key cursor rows).getLast? with
    | none =>
      rw [bottom, hlast, Option.map_none, Option.none_or] at hlow
      rw [List.getLast?_eq_none_iff.mp hlast] at hall
      have hmem := mem_beneath.mpr ⟨hr, hlow⟩
      rw [List.getLast?_eq_none_iff.mp hlast] at hmem
      exact List.not_mem_nil hmem
    | some last =>
      rw [bottom, hlast, Option.map_some, Option.some_or] at hlow
      have hlt : key r < key last := hlow _ rfl
      have hmem : r ∈ beneath key cursor rows := mem_beneath.mpr ⟨hr, fun k hk =>
        hlt.trans ((mem_beneath.mp (List.mem_of_getLast? hlast)).2 k hk)⟩
      obtain ⟨front, hfront⟩ := List.getLast?_eq_some_iff.mp hlast
      rw [hfront] at hmem hpairwise
      rw [List.pairwise_append] at hpairwise
      rcases List.mem_append.mp hmem with hmem | hmem
      · exact lt_asymm hlt (hpairwise.2.2 r hmem last List.mem_cons_self)
      · rw [List.mem_singleton.mp hmem] at hlt
        exact lt_irrefl _ hlt
  · intro hall
    by_contra hne
    obtain ⟨k, hk⟩ := Option.ne_none_iff_exists'.mp hne
    obtain ⟨⟨last, hlast, rfl⟩, -, ⟨r, hr, hlt⟩, -⟩ := next_eq_some h hk
    refine hall r (mem_beneath.mp hr).1 fun k hk => ?_
    rw [bottom, hlast, Option.map_some, Option.some_or] at hk
    rwa [← Option.mem_some.mp hk]

/-! ## Following the cursors -/

variable (key)

/-- What a page was read from. -/
structure Turn (α κ : Type*) where
  cursor : Option κ
  limit : ℕ
  rows : List α

def Turn.page (t : Turn α κ) : Page α κ := Keyset.page key t.cursor t.limit t.rows

/-- The turns of one run, latest first: the first has no cursor, each other the
one before's. -/
inductive Following : List (Turn α κ) → Prop
  | nil : Following []
  | first (t : Turn α κ) (h : t.cursor = none) : Following [t]
  | next (t u : Turn α κ) (turns : List (Turn α κ)) (k : κ) (hk : (u.page key).next = some k)
      (h : t.cursor = some k) (hrest : Following (u :: turns)) : Following (t :: u :: turns)

/-- The items of a run, in the order they came. -/
def items : List (Turn α κ) → List α
  | [] => []
  | t :: turns => items turns ++ (t.page key).items

variable {key} {t : Turn α κ} {turns : List (Turn α κ)}

/-- Each item of the run is at or above the cursor it reached. -/
theorem Following.next_le (h : Following key (t :: turns))
    (hkeys : ∀ u ∈ t :: turns, (u.rows.map key).Nodup) (hk : (t.page key).next = some k) :
    ∀ r ∈ items key (t :: turns), k ≤ key r := by
  induction turns generalizing t k with
  | nil =>
    intro r hr
    exact (next_eq_some (hkeys t List.mem_cons_self) hk).2.1 r hr
  | cons u turns ih =>
    cases h with
    | next _ _ _ k' hk' hcursor hrest =>
      intro r hr
      rcases List.mem_append.mp hr with hr | hr
      · have hle := ih hrest (fun v hv => hkeys v (List.mem_cons_of_mem _ hv)) hk' r hr
        obtain ⟨last, hlast, hlastk⟩ := (next_eq_some (hkeys t List.mem_cons_self) hk).1
        have hlt := (mem_items (List.mem_of_getLast? hlast)).2 k' hcursor
        rw [hlastk] at hlt
        exact (hlt.trans_le hle).le
      · exact (next_eq_some (hkeys t List.mem_cons_self) hk).2.1 r hr

/-- **The items of a run are in strictly decreasing order.** -/
theorem Following.pairwise_items (h : Following key turns)
    (hkeys : ∀ u ∈ turns, (u.rows.map key).Nodup) :
    (items key turns).Pairwise fun r s => key s < key r := by
  induction h with
  | nil => exact List.Pairwise.nil
  | first t _ => exact Keyset.pairwise_items (hkeys t List.mem_cons_self)
  | next t u turns k hk hcursor hrest ih =>
    have hrestkeys := fun v hv => hkeys v (List.mem_cons_of_mem t hv)
    rw [items, List.pairwise_append]
    refine ⟨ih hrestkeys, Keyset.pairwise_items (hkeys t List.mem_cons_self), fun r hr s hs => ?_⟩
    exact ((mem_items hs).2 k hcursor).trans_le (hrest.next_le hrestkeys hk r hr)

/-- A row beneath the cursor is on the page, or beneath it. -/
theorem Turn.listed_or_beneath (hkeys : (t.rows.map key).Nodup) (hlimit : 0 < t.limit)
    (hr : r ∈ t.rows) (hlow : ∀ k ∈ t.cursor, key r < k) :
    r ∈ (t.page key).items ∨ ∃ k, (t.page key).next = some k ∧ key r < k := by
  have hbeneath := mem_beneath.mpr ⟨hr, hlow⟩
  by_cases hitem : r ∈ (t.page key).items
  · exact Or.inl hitem
  · refine Or.inr ?_
    cases hnext : (t.page key).next with
    | none =>
      have hall : (t.page key).items = beneath key t.cursor t.rows := next_eq_none hlimit hnext
      rw [hall] at hitem
      exact absurd hbeneath hitem
    | some k => exact ⟨k, rfl, (next_eq_some hkeys hnext).2.2.2 r hbeneath hitem⟩

/-- **What is there at every turn is listed, or lies beneath.** -/
theorem Following.listed_or_beneath (h : Following key (t :: turns))
    (hkeys : ∀ u ∈ t :: turns, (u.rows.map key).Nodup)
    (hlimits : ∀ u ∈ t :: turns, 0 < u.limit)
    (hthere : ∀ u ∈ t :: turns, ∃ r ∈ u.rows, key r = k) :
    (∃ r ∈ items key (t :: turns), key r = k) ∨ ∃ k', (t.page key).next = some k' ∧ k < k' := by
  induction turns generalizing t with
  | nil =>
    cases h with
    | first _ hcursor =>
      obtain ⟨r, hr, rfl⟩ := hthere t List.mem_cons_self
      refine (Turn.listed_or_beneath (hkeys t List.mem_cons_self) (hlimits t List.mem_cons_self) hr
        ?_).imp (fun hitem => ⟨r, hitem, rfl⟩) id
      rw [hcursor]
      exact fun k hk => absurd hk (Option.not_mem_none k)
  | cons u turns ih =>
    cases h with
    | next _ _ _ k' hk' hcursor hrest =>
      have hsub : ∀ v ∈ u :: turns, v ∈ t :: u :: turns := fun v hv => List.mem_cons_of_mem _ hv
      rcases ih hrest (fun v hv => hkeys v (hsub v hv)) (fun v hv => hlimits v (hsub v hv))
        (fun v hv => hthere v (hsub v hv)) with ⟨r, hr, hrk⟩ | ⟨k'', hk'', hlt⟩
      · exact Or.inl ⟨r, List.mem_append_left _ hr, hrk⟩
      · obtain rfl := Option.some.inj (hk'.symm.trans hk'')
        obtain ⟨r, hr, rfl⟩ := hthere t List.mem_cons_self
        refine (Turn.listed_or_beneath (hkeys t List.mem_cons_self)
          (hlimits t List.mem_cons_self) hr ?_).imp
            (fun hitem => ⟨r, List.mem_append_right _ hitem, rfl⟩) id
        rw [hcursor]
        exact fun k hk => by rwa [← Option.mem_some.mp hk]

end Keyset
