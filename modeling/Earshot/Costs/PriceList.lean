import Earshot.Common.Keyset
import Earshot.Costs.Prices
/-!
# Listing prices

`list_prices` read page by page, oldest first, while prices are added and
seeded and projects deleted. Each page but the first is read from the row the
one before ended in. However the pages and the changes interleave, no row comes
twice, and a listing that has come to its end has every row there was when it
began (`listPrices_complete`).
-/

namespace Earshot.Costs

open Relational

namespace PriceStore

def MAX_PAGE_SIZE : ℕ := 100

/-- Oldest first: highest first, in the order of the IDs turned over. -/
def oldest (price : Price) : ℤᵒᵈ := OrderDual.toDual price.id

/-- The rows `list_prices` reads for a project. -/
def listed (s : PriceStore) (p : String) : List Price := s.prices.filter (visible p)

/-- `PriceStore.list_prices`, from the row ID of its cursor on; none where it raises. -/
def listPrices (s : PriceStore) (p : String) (limit : ℕ) (after : Option ℤᵒᵈ) :
    Option (Keyset.Page Price ℤᵒᵈ) :=
  if 1 ≤ limit ∧ limit ≤ MAX_PAGE_SIZE ∧ s.isActive p then
    some (Keyset.page oldest after limit (s.listed p))
  else none

/-- A store, and what one reader's pages were read from, latest first. -/
structure Reader where
  store : PriceStore
  turns : List (Keyset.Turn Price ℤᵒᵈ)

inductive ReaderOp where
  | store (op : Op)
  /-- The reader asks for a page, the first or the next. -/
  | listPrices (limit : ℕ)

/-- The cursor to read on from; none once a page had none. -/
def Reader.after (l : Reader) : Option (Option ℤᵒᵈ) :=
  match l.turns with
  | [] => some none
  | t :: _ => (t.page oldest).next.map some

def Reader.step (lower : String → String) (p : String) (l : Reader) : ReaderOp → Option Reader
  | .store op => (PriceStore.step lower l.store op).map fun store => { l with store := store }
  | .listPrices limit => l.after.bind fun after => (l.store.listPrices p limit after).map fun _ =>
      { l with turns := ⟨after, limit, l.store.listed p⟩ :: l.turns }

variable {lower : String → String} {s s' : PriceStore} {p : String}

/-! ## The order of the rows -/

/-- Each row's ID is above those before it. -/
structure Ordered (s : PriceStore) : Prop where
  increasing : s.prices.Pairwise fun r r' => r.id < r'.id
  below : ∀ r ∈ s.prices, r.id < s.nextId

theorem Ordered.empty : Ordered empty := ⟨.nil, nofun⟩

theorem Ordered.insert (h : Ordered s) (projectId : Option String) (price : ValidPrice) (now : ℤ) :
    Ordered (s.insert projectId price now) where
  increasing := by
    refine List.pairwise_append.mpr
      ⟨h.increasing, List.pairwise_singleton _ _, fun r hr r' hr' => ?_⟩
    rw [List.mem_singleton.mp hr']
    exact h.below r hr
  below r hr := by
    rcases List.mem_append.mp hr with hr | hr
    · exact (h.below r hr).trans (Int.lt_succ _)
    · rw [List.mem_singleton.mp hr]
      exact Int.lt_succ _

theorem Ordered.seed (h : Ordered s) {now : ℤ} : ∀ {wanted : List ValidPrice}
    {present : List SeedKey} {added : ℕ},
    Ordered (wanted.foldl (seedOne now) (s, present, added)).1 := by
  intro wanted
  induction wanted generalizing s with
  | nil => exact h
  | cons price wanted ih =>
    intro present added
    rw [List.foldl_cons, seedOne]
    split
    · exact ih h
    · exact ih (h.insert none price now)

theorem Ordered.of_same (h : Ordered s) (hprices : s'.prices = s.prices)
    (hnext : s'.nextId = s.nextId) : Ordered s' :=
  ⟨hprices ▸ h.increasing, hprices ▸ hnext ▸ h.below⟩

theorem Ordered.step (h : Ordered s) {op : Op} (hstep : PriceStore.step lower s op = some s') :
    Ordered s' := by
  cases op with
  | add projectId price now =>
    simp only [PriceStore.step, add] at hstep
    split at hstep
    · cases hstep
    · split at hstep
      · obtain rfl := Option.some.inj hstep
        have hbumped : Ordered { s with builtinPriceVersion := s.builtinPriceVersion + 1 } :=
          h.of_same rfl rfl
        exact hbumped.insert none _ now
      · next q =>
        split at hstep
        · obtain rfl := Option.some.inj hstep
          have hbumped : Ordered (s.update q bump bump_projectId) := h.of_same rfl rfl
          exact hbumped.insert (some q) _ now
        · cases hstep
  | seed prices now =>
    simp only [PriceStore.step, seedBuiltins] at hstep
    cases hwanted : prices.mapM (validated lower) with
    | error e =>
      rw [hwanted] at hstep
      cases hstep
    | ok wanted =>
      rw [hwanted] at hstep
      obtain rfl := Option.some.inj hstep
      have hseeded : Ordered (wanted.foldl (seedOne now) (s, s.present, 0)).1 := h.seed
      dsimp only
      split
      · exact hseeded
      · exact hseeded.of_same rfl rfl
  | provision q =>
    obtain rfl := Option.some.inj hstep
    exact h.of_same rfl rfl
  | beginDeletion q =>
    obtain ⟨r, -, rfl⟩ := Option.map_eq_some_iff.mp hstep
    exact h.of_same rfl rfl
  | deleteRows q =>
    obtain ⟨r, -, hstep⟩ := Option.bind_eq_some_iff.mp hstep
    split at hstep
    · cases hstep
    · obtain rfl := Option.some.inj hstep
      exact ⟨h.increasing.sublist List.filter_sublist,
        fun r hr => h.below r (List.mem_of_mem_filter hr)⟩

theorem Ordered.run (ops : List Op) : Ordered (PriceStore.run lower .empty ops) :=
  Transition.run_invariant (fun _ _ _ h hstep => h.step hstep) ops _ .empty

/-- The rows a project sees have one key each. -/
theorem Ordered.nodup (h : Ordered s) : ((s.listed p).map oldest).Nodup := by
  refine List.pairwise_map.mpr ((h.increasing.sublist List.filter_sublist).imp fun hlt heq => ?_)
  exact hlt.ne (OrderDual.toDual.injective heq)

/-- A row of an earlier store is in a later one, under its ID. -/
theorem Later.listed (h : Later s s') (halive : ¬ s'.dying p) {r : Price} (hr : r ∈ s.listed p) :
    ∃ r' ∈ s'.listed p, oldest r' = oldest r := by
  have hrow : r.toPriceRow ∈ s'.priceRows p :=
    (h.tracks p halive).grows.subset (List.mem_map_of_mem hr)
  obtain ⟨r', hr', heq⟩ := List.mem_map.mp hrow
  exact ⟨r', hr', congrArg (fun row : PriceRow => OrderDual.toDual row.id) heq⟩

/-! ## What a reader gets -/

/-- The pages so far, of a reader that began when the store was `s`. -/
structure Reader.Pages (p : String) (s : PriceStore) (l : Reader) : Prop where
  later : Later s l.store
  ordered : Ordered l.store
  following : Keyset.Following oldest l.turns
  limits : ∀ t ∈ l.turns, 0 < t.limit
  keys : ∀ t ∈ l.turns, (t.rows.map oldest).Nodup
  kept : ∀ t ∈ l.turns, ∀ r ∈ s.listed p, ∃ r' ∈ t.rows, oldest r' = oldest r

theorem Reader.Pages.step {l l' : Reader} (h : l.Pages p s) {op : ReaderOp}
    (hstep : l.step lower p op = some l') : l'.Pages p s := by
  cases op with
  | store op =>
    obtain ⟨store, hstore, rfl⟩ := Option.map_eq_some_iff.mp hstep
    exact { h with later := h.later.trans (step_later hstore), ordered := h.ordered.step hstore }
  | listPrices limit =>
    obtain ⟨after, hafter, hstep⟩ := Option.bind_eq_some_iff.mp hstep
    obtain ⟨page, hpage, rfl⟩ := Option.map_eq_some_iff.mp hstep
    rw [listPrices] at hpage
    split at hpage
    · next hallowed =>
      obtain ⟨hlimit, -, hactive⟩ := hallowed
      have halive : ¬ l.store.dying p := by
        rintro ⟨r, hr, hdead⟩
        rw [isActive, hr, Option.any_some, hdead] at hactive
        cases hactive
      refine ⟨h.later, h.ordered, ?_, List.forall_mem_cons.mpr ⟨hlimit, h.limits⟩,
        List.forall_mem_cons.mpr ⟨h.ordered.nodup, h.keys⟩,
        List.forall_mem_cons.mpr ⟨fun r hr => h.later.listed halive hr, h.kept⟩⟩
      have hfollowing := h.following
      unfold Reader.after at hafter
      cases hturns : l.turns with
      | nil =>
        rw [hturns] at hafter
        exact .first _ (Option.some.inj hafter).symm
      | cons t turns =>
        rw [hturns] at hafter hfollowing
        obtain ⟨k, hk, rfl⟩ := Option.map_eq_some_iff.mp hafter
        exact .next _ _ _ k hk rfl hfollowing
    · cases hpage

/-- **A listing is in order and complete.** However prices are added, seeded
and deleted between the pages: no row comes twice, the rows come oldest first,
and once a page has no next cursor, every row the project saw when the listing
began has come. -/
theorem listPrices_complete (ops : List Op) (later : List ReaderOp) :
    (Keyset.items oldest (Transition.run (Reader.step lower p)
      ⟨run lower .empty ops, []⟩ later).turns).Pairwise (fun r r' => r.id < r'.id) ∧
    ((Transition.run (Reader.step lower p) ⟨run lower .empty ops, []⟩ later).after = none →
      ∀ r ∈ (run lower .empty ops).listed p, ∃ r' ∈ Keyset.items oldest (Transition.run
        (Reader.step lower p) ⟨run lower .empty ops, []⟩ later).turns, r'.id = r.id) := by
  have h : Reader.Pages p (run lower .empty ops)
      (Transition.run (Reader.step lower p) ⟨run lower .empty ops, []⟩ later) :=
    Transition.run_invariant (fun _ _ _ h hstep => h.step hstep) later _
      ⟨.refl, .run ops, .nil, nofun, nofun, nofun⟩
  generalize Transition.run (Reader.step lower p) ⟨run lower .empty ops, []⟩ later = l at h ⊢
  refine ⟨(h.following.pairwise_items h.keys).imp fun hlt => hlt, fun hended r hr => ?_⟩
  unfold Reader.after at hended
  obtain ⟨store, turns⟩ := l
  cases turns with
  | nil => cases hended
  | cons t turns =>
    have hnext : (t.page oldest).next = none := Option.map_eq_none_iff.mp hended
    rcases h.following.listed_or_beneath h.keys h.limits fun t ht => h.kept t ht r hr with
      ⟨r', hr', heq⟩ | ⟨k, hk, -⟩
    · exact ⟨r', hr', OrderDual.toDual.injective heq⟩
    · cases hnext.symm.trans hk

end PriceStore

end Earshot.Costs
