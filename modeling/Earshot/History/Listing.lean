import Mathlib.Data.List.Pairwise
import Earshot.History.Paging
/-!
# Following the cursors

A client asks for the first page, and for each next one with the cursor it was
given, until it is given none. In between, operations commit and projections are
written, in any number and order.
-/

namespace Earshot

open Relational

/-! ## The run -/

/-- One page, and what it was read from. -/
structure PageTurn where
  world : World
  projections : Projections
  cursor : Option String
  limit : ℕ
  page : CallPage

structure Listing where
  world : World
  projections : Projections
  /-- The cursor the client sends next. -/
  cursor : Option String
  /-- It was given none. -/
  ended : Bool
  /-- The pages it was given, latest first. -/
  turns : List PageTurn

inductive ListingEvent where
  | operation (op : Op)
  | project (projections : Projections)
  | page (limit : ℕ)

namespace Listing

variable (S : CallStore) (q : CallQuery)

/-- A listing that has not begun. -/
def start (w : World) (t : Projections) : Listing := ⟨w, t, none, false, []⟩

/-- **One event**; a page that is refused leaves the client where it was. -/
def step (s : Listing) : ListingEvent → Option Listing
  | .operation op => (Earshot.step S s.world op).map fun w => { s with world := w }
  | .project t => some { s with projections := t }
  | .page limit =>
      if s.ended then none
      else
        match listCalls s.world.catalog s.projections q limit s.cursor with
        | .error _ => none
        | .ok page => some
            { s with
              cursor := page.nextCursor
              ended := page.nextCursor.isNone
              turns := ⟨s.world, s.projections, s.cursor, limit, page⟩ :: s.turns }

/-- The listing after the events, from what the operations before left. -/
def after (before : List Op) (t : Projections) (events : List ListingEvent) : Listing :=
  Transition.run (step S q) (start (worldAfter S before) t) events

/-- The items of the pages, each with its page, in the order they came. -/
def itemsOf : List PageTurn → List (PageTurn × CallSummary)
  | [] => []
  | u :: turns => itemsOf turns ++ u.page.items.map fun item => (u, item)

def items (s : Listing) : List (PageTurn × CallSummary) := itemsOf s.turns

end Listing

namespace PageTurn

variable (q : CallQuery)

/-- The calls that match when the page is read. -/
def rows (u : PageTurn) : List Call :=
  u.world.catalog.calls.rows.filter (q.listed u.projections)

/-- The page as a keyset turn. -/
def keyset (u : PageTurn) : Keyset.Turn Call SortKey :=
  ⟨u.cursor.bind cursorKey, u.limit, u.rows q⟩

/-- The call of the incarnation is there and matches when the page is read. -/
def Lists (u : PageTurn) (i : Incarnation) : Prop :=
  ∃ r ∈ u.rows q, u.world.incarnation r.key = i

/-- The least sort key the page reached: its last item's, or its cursor's. -/
def bottom (u : PageTurn) : Option SortKey :=
  (u.page.items.getLast?.map CallSummary.sortKey).or (u.cursor.bind cursorKey)

/-- What the page's call of an item was, whatever became of it. -/
def incarnation (u : PageTurn) (item : CallSummary) : Incarnation :=
  u.world.incarnation (q.projectId, item.callId)

end PageTurn

/-! ## One page -/

variable {S : CallStore} {q : CallQuery}

@[simp] theorem sortKey_summary (c : Catalog) (t : Projections) (r : Call) :
    (summary c t r).sortKey = r.sortKey := rfl

/-- Calls of one project have different sort keys. -/
theorem nodup_sortKey {u : PageTurn} : ((u.rows q).map Call.sortKey).Nodup := by
  have hkeys : ((u.rows q).map Call.key).Nodup :=
    u.world.catalog.calls.nodup.sublist (List.filter_sublist.map Call.key)
  refine List.Nodup.map_on (fun r hr r' hr' heq => ?_) hkeys.of_map
  have hproject : ∀ x ∈ u.rows q, x.projectId = q.projectId := by
    intro x hx
    have hlisted := (List.mem_filter.mp hx).2
    simp only [CallQuery.listed, CallQuery.scope, Bool.and_eq_true] at hlisted
    exact of_decide_eq_true hlisted.1.1.1
  have hid : r.callId = r'.callId := congrArg (fun k : SortKey => (ofLex k).2) heq
  exact Table.eq_of_key_eq (List.mem_filter.mp hr).1 (List.mem_filter.mp hr').1
    (Prod.ext ((hproject r hr).trans (hproject r' hr').symm) hid)

theorem readCursor_eq_ok {cursor : Option String} {after : Option SortKey}
    (h : readCursor cursor = .ok after) : after = cursor.bind cursorKey := by
  cases cursor with
  | none => exact (Except.ok.inj h).symm
  | some text =>
    rw [readCursor] at h
    cases hkey : cursorKey text with
    | none =>
      rw [hkey] at h
      cases h
    | some key =>
      rw [hkey] at h
      rw [Option.bind_some, hkey]
      exact (Except.ok.inj h).symm

/-- The last item's cursor is its row's. -/
theorem nextCursor_eq (c : Catalog) (t : Projections) (limit : ℕ) (read : List Call) :
    (if limit < read.length then ((read.take limit).map (summary c t)).getLast? else none).map
      (fun s => PageCursor.encodePageCursor s.firstEvidenceUnixNano s.callId) =
    (if limit < read.length then (read.take limit).getLast?.map Call.sortKey else none).map
      fun k => PageCursor.encodePageCursor (ofLex k).1 (ofLex k).2 := by
  split
  · rw [List.getLast?_map, Option.map_map, Option.map_map]
    rfl
  · rfl

/-- **A page is a keyset page** of the calls that match. -/
theorem listCalls_eq {u : PageTurn}
    (h : listCalls u.world.catalog u.projections q u.limit u.cursor = .ok u.page) :
    0 < u.limit ∧
    u.page.items = ((u.keyset q).page Call.sortKey).items.map
      (summary u.world.catalog u.projections) ∧
    u.page.nextCursor = ((u.keyset q).page Call.sortKey).next.map fun k =>
      PageCursor.encodePageCursor (ofLex k).1 (ofLex k).2 := by
  rw [listCalls] at h
  split at h
  · cases h
  · next hlimit =>
    cases hread : readCursor u.cursor with
    | error e =>
      rw [hread] at h
      cases h
    | ok after =>
      rw [hread] at h
      obtain rfl := readCursor_eq_ok hread
      simp only [bind, Except.bind] at h
      split at h
      · cases h
      · split at h
        · cases h
        · obtain hpage := Except.ok.inj h
          refine ⟨by omega, ?_, ?_⟩
          · rw [← hpage]
            rfl
          · rw [← hpage]
            exact nextCursor_eq _ _ _ _

/-! ## The whole run -/

theorem mem_itemsOf {turns : List PageTurn} {x : PageTurn × CallSummary} :
    x ∈ Listing.itemsOf turns ↔ x.1 ∈ turns ∧ x.2 ∈ x.1.page.items := by
  induction turns with
  | nil => simp [Listing.itemsOf]
  | cons u turns ih =>
    rw [Listing.itemsOf, List.mem_append, ih, List.mem_map, List.mem_cons]
    constructor
    · rintro (⟨hu, hx⟩ | ⟨item, hitem, rfl⟩)
      · exact ⟨Or.inr hu, hx⟩
      · exact ⟨Or.inl rfl, hitem⟩
    · rintro ⟨rfl | hu, hx⟩
      · exact Or.inr ⟨x.2, hx, rfl⟩
      · exact Or.inl ⟨hu, hx⟩

/-- The items' sort keys are the keyset run's. -/
theorem map_sortKey_itemsOf {turns : List PageTurn}
    (h : ∀ u ∈ turns, u.page.items = ((u.keyset q).page Call.sortKey).items.map
      (summary u.world.catalog u.projections)) :
    (Listing.itemsOf turns).map (·.2.sortKey) =
      (Keyset.items Call.sortKey (turns.map (PageTurn.keyset q))).map Call.sortKey := by
  induction turns with
  | nil => rfl
  | cons u turns ih =>
    rw [Listing.itemsOf, List.map_append, ih fun v hv => h v (List.mem_cons_of_mem _ hv),
      h u List.mem_cons_self, List.map_cons, Keyset.items, List.map_append, List.map_map,
      List.map_map]
    rfl

/-- What holds of a listing at every moment. -/
structure Listing.Paged (S : CallStore) (q : CallQuery) (s : Listing) : Prop where
  /-- The world comes from each page's by operations, as a later page's does. -/
  world : ∃ ops, s.world = worldAfter S ops
  reached : ∀ u ∈ s.turns, ∃ ops, u.world = worldAfter S ops
  later : ∀ u ∈ s.turns, ∃ ops, s.world = Transition.run (Earshot.step S) u.world ops
  ordered : s.turns.Pairwise fun u v => ∃ ops, u.world =
    Transition.run (Earshot.step S) v.world ops
  pages : ∀ u ∈ s.turns,
    listCalls u.world.catalog u.projections q u.limit u.cursor = .ok u.page
  /-- The first page had no cursor, each other the one before's. -/
  cursor : s.cursor = s.turns.head?.bind fun u => u.page.nextCursor
  ended : s.ended = s.turns.head?.any fun u => u.page.nextCursor.isNone
  chained : s.turns.IsChain fun u v => u.cursor = v.page.nextCursor ∧
    v.page.nextCursor.isSome = true
  first : ∀ u ∈ s.turns.getLast?, u.cursor = none

/-- **Every event keeps it.** -/
theorem Listing.Paged.step {s s' : Listing} {e : ListingEvent} (h : s.Paged S q)
    (hstep : s.step S q e = some s') : s'.Paged S q := by
  cases e with
  | operation op =>
    obtain ⟨w, hw, rfl⟩ := Option.map_eq_some_iff.mp hstep
    obtain ⟨ops, hops⟩ := h.world
    refine ⟨⟨ops ++ [op], ?_⟩, h.reached, fun u hu => ?_, h.ordered, h.pages, h.cursor, h.ended,
      h.chained, h.first⟩
    · rw [hops] at hw
      exact (worldAfter_concat hw).symm
    · obtain ⟨ops', hops'⟩ := h.later u hu
      rw [hops'] at hw
      exact ⟨ops' ++ [op], (Transition.run_concat hw).symm⟩
  | project t =>
    obtain rfl := Option.some.inj hstep
    exact ⟨h.world, h.reached, h.later, h.ordered, h.pages, h.cursor, h.ended, h.chained, h.first⟩
  | page limit =>
    rw [Listing.step] at hstep
    split at hstep
    · cases hstep
    · next hended =>
      split at hstep
      · cases hstep
      · next page hpage =>
        obtain rfl := Option.some.inj hstep
        refine ⟨h.world, ?_, ?_, ?_, ?_, rfl, rfl, ?_, ?_⟩
        · rintro u (_ | ⟨_, hu⟩)
          · exact h.world
          · exact h.reached u hu
        · rintro u (_ | ⟨_, hu⟩)
          · exact ⟨[], rfl⟩
          · exact h.later u hu
        · exact List.pairwise_cons.mpr ⟨h.later, h.ordered⟩
        · rintro u (_ | ⟨_, hu⟩)
          · exact hpage
          · exact h.pages u hu
        · have hcursor := h.cursor
          have hmore := h.ended
          have hchained := h.chained
          generalize s.turns = turns at hcursor hmore hchained
          cases turns with
          | nil => exact List.IsChain.singleton _
          | cons u turns =>
            refine List.isChain_cons_cons.mpr ⟨⟨hcursor, ?_⟩, hchained⟩
            rw [Bool.not_eq_true] at hended
            rw [hended] at hmore
            rw [← Option.not_isNone, Bool.not_eq_true']
            exact hmore.symm
        · have hcursor := h.cursor
          have hfirst := h.first
          generalize s.turns = turns at hcursor hfirst
          cases turns with
          | nil =>
            rintro u hu
            obtain rfl := Option.some.inj hu
            exact hcursor
          | cons u turns =>
            rw [List.getLast?_cons_cons]
            exact hfirst

theorem paged_after (before : List Op) (t : Projections) (events : List ListingEvent) :
    (Listing.after S q before t events).Paged S q :=
  Transition.run_invariant (P := fun s : Listing => s.Paged S q)
    (fun _ _ _ hs hstep => hs.step hstep) events _
    ⟨⟨before, rfl⟩, fun _ hu => absurd hu List.not_mem_nil, fun _ hu => absurd hu List.not_mem_nil,
      List.Pairwise.nil, fun _ hu => absurd hu List.not_mem_nil, rfl, rfl, List.IsChain.nil,
      fun _ hu => absurd hu (Option.not_mem_none _)⟩

/-! ## What the client was given -/

/-- A clock that reads a time after the epoch, of the catalog's range. -/
def Dated (now : UnixNano) : Prop := 0 ≤ now ∧ now ≤ SQLITE_INT64_MAX

/-- Readings are only added. -/
theorem readings_subset {w : World} (ops : List Op) :
    w.readings ⊆ (Transition.run (step S) w ops).readings :=
  Transition.run_invariant (P := fun w' : World => w.readings ⊆ w'.readings)
    (fun w' op w'' hw' h => by
      rw [readings_of_step h]
      exact List.Subset.trans hw' (List.subset_append_right _ _)) ops w (List.Subset.refl _)

/-- **Every cursor of a stored call is read back.** -/
theorem cursorKey_encode {ops : List Op} {r : Call}
    (hclock : ∀ now ∈ (worldAfter S ops).readings, Dated now)
    (hr : r ∈ (worldAfter S ops).catalog.calls) (hid : PageCursor.Portable r.callId) :
    PageCursor.decodePageCursor (PageCursor.encodePageCursor r.firstEvidenceUnixNano r.callId) =
      some (r.firstEvidenceUnixNano.toNat, r.callId) ∧
    ((r.firstEvidenceUnixNano.toNat : ℕ) : ℤ) = r.firstEvidenceUnixNano := by
  obtain ⟨hlow, hhigh⟩ := hclock _ ((timed_worldAfter S ops).calls r hr)
  have hnat : ((r.firstEvidenceUnixNano.toNat : ℕ) : ℤ) = r.firstEvidenceUnixNano :=
    Int.toNat_of_nonneg hlow
  have htime : r.firstEvidenceUnixNano.toNat ≤ SQLITE_INT64_MAX := Int.toNat_le.mpr hhigh
  have hread := PageCursor.decodePageCursor_encodePageCursor htime hid
  rw [hnat] at hread
  exact ⟨hread, hnat⟩

/-- One page's world comes from the other's by operations. -/
def PageTurn.Comparable (S : CallStore) (u v : PageTurn) : Prop :=
  (∃ ops, u.world = Transition.run (step S) v.world ops) ∨
    ∃ ops, v.world = Transition.run (step S) u.world ops

instance : Std.Symm (PageTurn.Comparable S) := ⟨fun _ _ h => Or.symm h⟩

namespace Listing.Paged

variable {s : Listing}

/-- The pages are a keyset run. -/
theorem following (h : s.Paged S q) (hclock : ∀ now ∈ s.world.readings, Dated now)
    (hids : ∀ u ∈ s.turns, ∀ r ∈ u.world.catalog.calls, PageCursor.Portable r.callId) :
    Keyset.Following Call.sortKey (s.turns.map (PageTurn.keyset q)) := by
  have hback : ∀ u ∈ s.turns, ∀ k, ((u.keyset q).page Call.sortKey).next = some k →
      u.page.nextCursor.bind cursorKey = some k := by
    intro u hu k hk
    obtain ⟨-, -, hnext⟩ := listCalls_eq (h.pages u hu)
    obtain ⟨ops, hops⟩ := h.reached u hu
    obtain ⟨ops', hops'⟩ := h.later u hu
    obtain ⟨⟨r, hr, rfl⟩, -⟩ := Keyset.next_eq_some nodup_sortKey hk
    have hstored : r ∈ u.world.catalog.calls :=
      (List.mem_filter.mp (Keyset.mem_items (List.mem_of_getLast? hr)).1).1
    have hdated : ∀ now ∈ (worldAfter S ops).readings, Dated now := by
      intro now hnow
      rw [← hops] at hnow
      exact hclock now (hops' ▸ readings_subset ops' hnow)
    obtain ⟨hread, hnat⟩ := cursorKey_encode hdated (hops ▸ hstored) (hids u hu r hstored)
    rw [hnext, hk, Option.map_some, Option.bind_some, cursorKey]
    change Option.map _ (PageCursor.decodePageCursor
      (PageCursor.encodePageCursor r.firstEvidenceUnixNano r.callId)) = _
    rw [hread, Option.map_some, hnat]
    rfl
  have hchained := h.chained
  have hfirst := h.first
  have hpages := h.pages
  generalize s.turns = turns at hback hchained hfirst hpages
  induction turns with
  | nil => exact .nil
  | cons u turns ih =>
    cases turns with
    | nil =>
      refine .first _ ?_
      change u.cursor.bind cursorKey = none
      rw [hfirst u rfl]
      rfl
    | cons v turns =>
      obtain ⟨⟨hcursor, hsome⟩, hrest⟩ := List.isChain_cons_cons.mp hchained
      have hv : v ∈ u :: v :: turns := List.mem_cons_of_mem _ List.mem_cons_self
      obtain ⟨-, -, hnext⟩ := listCalls_eq (hpages v hv)
      rw [hnext, Option.isSome_map] at hsome
      obtain ⟨k, hk⟩ := Option.isSome_iff_exists.mp hsome
      refine .next _ _ _ k hk ?_ (ih (fun x hx => hback x (List.mem_cons_of_mem _ hx)) hrest ?_
        fun x hx => hpages x (List.mem_cons_of_mem _ hx))
      · change u.cursor.bind cursorKey = some k
        rw [hcursor]
        exact hback v hv k hk
      · rwa [List.getLast?_cons_cons] at hfirst

/-- Each item is a call of its page's. -/
theorem exists_row (h : s.Paged S q) {x : PageTurn × CallSummary} (hx : x ∈ s.items) :
    x.1 ∈ s.turns ∧ ∃ r ∈ x.1.rows q, x.2 = summary x.1.world.catalog x.1.projections r ∧
      x.1.incarnation q x.2 = x.1.world.incarnation r.key := by
  obtain ⟨hturn, hitem⟩ := mem_itemsOf.mp hx
  rw [(listCalls_eq (h.pages x.1 hturn)).2.1] at hitem
  obtain ⟨r, hr, heq⟩ := List.mem_map.mp hitem
  have hrow : r ∈ x.1.rows q := (Keyset.mem_items hr).1
  refine ⟨hturn, r, hrow, heq.symm, ?_⟩
  have hlisted := (List.mem_filter.mp hrow).2
  simp only [CallQuery.listed, CallQuery.scope, Bool.and_eq_true] at hlisted
  rw [PageTurn.incarnation, ← heq, ← of_decide_eq_true hlisted.1.1.1]
  rfl

/-- **One call has one sort key** on all the pages. -/
theorem sortKey_eq (h : s.Paged S q) {u v : PageTurn} {r r' : Call} (hu : u ∈ s.turns)
    (hv : v ∈ s.turns) (hr : r ∈ u.world.catalog.calls) (hr' : r' ∈ v.world.catalog.calls)
    (hi : u.world.incarnation r.key = v.world.incarnation r'.key) : r.sortKey = r'.sortKey := by
  have hid : r.callId = r'.callId := congrArg (fun i : Incarnation => i.1.2) hi
  have hlinked : ∀ u ∈ s.turns, u.world.catalog.Linked := by
    intro u hu
    obtain ⟨ops, hops⟩ := h.reached u hu
    rw [hops]
    exact linked_worldAfter S ops
  have hpairs : s.turns.Pairwise (PageTurn.Comparable S) := h.ordered.imp fun huv => Or.inl huv
  have hcomparable : PageTurn.Comparable S u v :=
    List.Pairwise.forall_of_forall (R := PageTurn.Comparable S)
      (fun _ _ => Or.inl ⟨[], rfl⟩) hpairs hu hv
  have hfirst : r.firstEvidenceUnixNano = r'.firstEvidenceUnixNano := by
    rcases hcomparable with ⟨ops, hops⟩ | ⟨ops, hops⟩
    · rw [hops] at hr hi
      exact firstEvidence_eq (hlinked v hv) ops hr' hr hi.symm
    · rw [hops] at hr' hi
      exact (firstEvidence_eq (hlinked u hu) ops hr hr' hi).symm
  rw [Call.sortKey, Call.sortKey, hid, hfirst]

theorem limit_pos (h : s.Paged S q) {u : PageTurn} (hu : u ∈ s.turns) : 0 < u.limit :=
  (listCalls_eq (h.pages u hu)).1

/-- The items' order is the keyset run's. -/
theorem decreasing (h : s.Paged S q)
    (hfollowing : Keyset.Following Call.sortKey (s.turns.map (PageTurn.keyset q))) :
    s.items.Pairwise fun x y => y.2.sortKey < x.2.sortKey := by
  have hpairs := hfollowing.pairwise_items fun t ht => by
    obtain ⟨u, -, rfl⟩ := List.mem_map.mp ht
    exact nodup_sortKey
  have hmap := map_sortKey_itemsOf fun u hu => (listCalls_eq (h.pages u hu)).2.1
  have hkeys : ((Keyset.items Call.sortKey (s.turns.map (PageTurn.keyset q))).map
      Call.sortKey).Pairwise (· > ·) := List.pairwise_map.mpr hpairs
  rw [← hmap] at hkeys
  exact List.pairwise_map.mp hkeys

theorem nodup_incarnation (h : s.Paged S q)
    (hdecreasing : s.items.Pairwise fun x y => y.2.sortKey < x.2.sortKey) :
    (s.items.map fun x => x.1.incarnation q x.2).Nodup := by
  refine List.pairwise_map.mpr (hdecreasing.imp_of_mem fun {x y} hx hy hlt hi => ?_)
  obtain ⟨hu, r, hr, hxr, hxi⟩ := h.exists_row hx
  obtain ⟨hv, r', hr', hyr, hyi⟩ := h.exists_row hy
  rw [hxi, hyi] at hi
  have hkey := h.sortKey_eq hu hv (List.mem_filter.mp hr).1 (List.mem_filter.mp hr').1 hi
  rw [hxr, hyr, sortKey_summary, sortKey_summary, hkey] at hlt
  exact lt_irrefl _ hlt

/-- Under an injective hash an ID is one incarnation's. -/
theorem nodup_callId (h : s.Paged S q) (hS : S.Injective)
    (honce : (s.items.map fun x => x.1.incarnation q x.2).Nodup) :
    (s.items.map (·.2.callId)).Nodup := by
  have hcount : ∀ x ∈ s.items, x.1.incarnation q x.2 = ((q.projectId, x.2.callId), 0) := by
    intro x hx
    obtain ⟨hu, r, hr, hxr, hxi⟩ := h.exists_row hx
    obtain ⟨ops, hops⟩ := h.reached x.1 hu
    have hfresh := (identified_worldAfter hS ops).callId_fresh
    rw [← hops] at hfresh
    refine Prod.ext rfl (List.countP_eq_zero.mpr fun d hd hkey => ?_)
    have hid : d.callId = x.2.callId := congrArg Prod.snd (of_decide_eq_true hkey)
    refine hfresh d hd r (List.mem_filter.mp hr).1 ?_
    rw [hid, hxr]
    rfl
  refine List.pairwise_map.mpr ((List.pairwise_map.mp honce).imp_of_mem
    fun {x y} hx hy hne hid => hne ?_)
  rw [hcount x hx, hcount y hy, hid]

/-- **What is there and matches throughout is given.** -/
theorem mem_incarnations (h : s.Paged S q)
    (hfollowing : Keyset.Following Call.sortKey (s.turns.map (PageTurn.keyset q)))
    (hended : s.ended = true) {i : Incarnation} (hall : ∀ u ∈ s.turns, u.Lists q i) :
    i ∈ s.items.map fun x => x.1.incarnation q x.2 := by
  have hend := h.ended
  rw [hended] at hend
  obtain ⟨last, turns, hturns⟩ : ∃ last turns, s.turns = last :: turns := by
    cases hs : s.turns with
    | nil =>
      rw [hs] at hend
      cases hend
    | cons last turns => exact ⟨last, turns, rfl⟩
  have hlast : last ∈ s.turns := hturns ▸ List.mem_cons_self
  obtain ⟨r, hr, hi⟩ := hall last hlast
  have hthere : ∀ t ∈ s.turns.map (PageTurn.keyset q), ∃ r' ∈ t.rows, r'.sortKey = r.sortKey := by
    intro t ht
    obtain ⟨u, hu, rfl⟩ := List.mem_map.mp ht
    obtain ⟨r', hr', hi'⟩ := hall u hu
    exact ⟨r', hr', h.sortKey_eq hu hlast (List.mem_filter.mp hr').1 (List.mem_filter.mp hr).1
      (hi'.trans hi.symm)⟩
  have hnone : ((last.keyset q).page Call.sortKey).next = none := by
    rw [hturns] at hend
    change true = last.page.nextCursor.isNone at hend
    rw [(listCalls_eq (h.pages last hlast)).2.2, Option.isNone_map] at hend
    exact Option.isNone_iff_eq_none.mp hend.symm
  rw [hturns, List.map_cons] at hfollowing hthere
  have hmem : ∀ t ∈ last.keyset q :: turns.map (PageTurn.keyset q), ∃ u ∈ s.turns,
      u.keyset q = t := by
    intro t ht
    rw [← List.map_cons, ← hturns] at ht
    exact List.mem_map.mp ht
  rcases hfollowing.listed_or_beneath
    (fun t ht => by
      obtain ⟨u, -, rfl⟩ := hmem t ht
      exact nodup_sortKey)
    (fun t ht => by
      obtain ⟨u, hu, rfl⟩ := hmem t ht
      exact h.limit_pos hu)
    hthere with ⟨r', hr', hkey⟩ | ⟨k, hk, -⟩
  · have hmap := map_sortKey_itemsOf fun u hu => (listCalls_eq (h.pages u hu)).2.1
    have hmem : r.sortKey ∈ (Listing.itemsOf s.turns).map (·.2.sortKey) := by
      rw [hmap, hturns]
      exact List.mem_map.mpr ⟨r', hr', hkey⟩
    obtain ⟨x, hx, hxkey⟩ := List.mem_map.mp hmem
    obtain ⟨hu, r₁, hr₁, hxr, hxi⟩ := h.exists_row hx
    obtain ⟨r₂, hr₂, hi₂⟩ := hall x.1 hu
    refine List.mem_map.mpr ⟨x, hx, ?_⟩
    -- the item is the row that was there
    have hsame : r₁ = r₂ := by
      refine List.inj_on_of_nodup_map nodup_sortKey hr₁ hr₂ ?_
      rw [hxr, sortKey_summary] at hxkey
      exact hxkey.trans (h.sortKey_eq hu hlast (List.mem_filter.mp hr₂).1 (List.mem_filter.mp hr).1
        (hi₂.trans hi.symm)).symm
    rw [hxi, hsame, hi₂]
  · rw [hnone] at hk
    cases hk

/-- A page's bottom is its keyset page's. -/
theorem next_eq_none_iff (h : s.Paged S q) {u : PageTurn} (hu : u ∈ s.turns) :
    u.page.nextCursor = none ↔ ¬ ∃ r ∈ u.rows q, ∀ k ∈ u.bottom, r.sortKey < k := by
  obtain ⟨hlimit, hitems, hnext⟩ := listCalls_eq (h.pages u hu)
  have hbottom : u.bottom = Keyset.bottom Call.sortKey (u.keyset q).cursor
      ((u.keyset q).page Call.sortKey).items := by
    rw [PageTurn.bottom, Keyset.bottom, hitems, List.getLast?_map, Option.map_map]
    rfl
  rw [hnext, Option.map_eq_none_iff, hbottom]
  refine (Keyset.next_eq_none_iff nodup_sortKey hlimit).trans ?_
  constructor
  · rintro hall ⟨r, hr, hlow⟩
    exact hall r hr hlow
  · exact fun hno r hr hlow => hno ⟨r, hr, hlow⟩

end Listing.Paged

/-- A call stored now, or when a page was read. -/
def Listing.Stored (s : Listing) (r : Call) : Prop :=
  r ∈ s.world.catalog.calls ∨ ∃ u ∈ s.turns, r ∈ u.world.catalog.calls

/-- **What a client that follows the cursors is given.** -/
structure Listing.Complete (S : CallStore) (q : CallQuery) (s : Listing) : Prop where
  /-- The items come in strictly decreasing order over the whole run. -/
  decreasing : (s.items.map (·.2.sortKey)).Pairwise (· > ·)
  /-- No call is given twice. -/
  once : (s.items.map fun x => x.1.incarnation q x.2).Nodup
  /-- Nor is any call ID, as the hash does not collide. -/
  ids : S.Injective → (s.items.map (·.2.callId)).Nodup
  /-- A call that is there and matches throughout is given exactly once. -/
  complete : s.ended = true → ∀ i, (∀ u ∈ s.turns, u.Lists q i) →
    (s.items.map fun x => x.1.incarnation q x.2).count i = 1
  /-- A page has no next one exactly when nothing beneath it matches. -/
  ends : ∀ u ∈ s.turns, u.page.nextCursor = none ↔
    ¬ ∃ r ∈ u.rows q, ∀ k ∈ u.bottom, r.sortKey < k
  /-- A stored call's cursor is read back. -/
  cursors : ∀ r, s.Stored r → ∃ time : ℕ, (time : ℤ) = r.firstEvidenceUnixNano ∧
    PageCursor.decodePageCursor
      (PageCursor.encodePageCursor r.firstEvidenceUnixNano r.callId) = some (time, r.callId)

/-- **Paging through calls is complete and free of duplicates**, whatever
commits between the pages, as long as the clock reads times of the catalog's
range and IDs are portable; and a text that is no cursor is refused. -/
theorem complete_listing (S : CallStore) (q : CallQuery) (before : List Op) (t : Projections)
    (events : List ListingEvent)
    (hclock : ∀ now ∈ (Listing.after S q before t events).world.readings, Dated now)
    (hids : ∀ r, (Listing.after S q before t events).Stored r → PageCursor.Portable r.callId) :
    (Listing.after S q before t events).Complete S q ∧
    ∀ text, PageCursor.decodePageCursor text = none ∨ ∃ time id,
      PageCursor.decodePageCursor text = some (time, id) ∧ time ≤ SQLITE_INT64_MAX ∧
        id.toList ≠ [] ∧ id.toList.length ≤ 256 ∧ '\x00' ∉ id.toList := by
  have hpaged := paged_after (S := S) (q := q) before t events
  generalize Listing.after S q before t events = s at hclock hids hpaged
  have hfollowing := hpaged.following hclock fun u hu r hr => hids r (Or.inr ⟨u, hu, hr⟩)
  have hdecreasing := hpaged.decreasing hfollowing
  have honce := hpaged.nodup_incarnation hdecreasing
  refine ⟨⟨List.pairwise_map.mpr hdecreasing, honce, fun hS => hpaged.nodup_callId hS honce,
    fun hended i hall => List.count_eq_one_of_mem honce
      (hpaged.mem_incarnations hfollowing hended hall),
    fun u hu => hpaged.next_eq_none_iff hu, fun r hr => ?_⟩, fun text => ?_⟩
  · have hworld : ∃ ops, r ∈ (worldAfter S ops).catalog.calls ∧
        ∀ now ∈ (worldAfter S ops).readings, Dated now := by
      rcases hr with hr | ⟨u, hu, hr⟩
      · obtain ⟨ops, hops⟩ := hpaged.world
        exact ⟨ops, hops ▸ hr, hops ▸ hclock⟩
      · obtain ⟨ops, hops⟩ := hpaged.reached u hu
        obtain ⟨ops', hops'⟩ := hpaged.later u hu
        refine ⟨ops, hops ▸ hr, fun now hnow => hclock now ?_⟩
        rw [← hops] at hnow
        exact hops' ▸ readings_subset ops' hnow
    obtain ⟨ops, hstored, hdated⟩ := hworld
    obtain ⟨hread, htime⟩ := cursorKey_encode hdated hstored (hids r hr)
    exact ⟨_, htime, hread⟩
  · cases hread : PageCursor.decodePageCursor text with
    | none => exact Or.inl rfl
    | some key =>
      exact Or.inr ⟨key.1, key.2, rfl, PageCursor.decodePageCursor_eq_some hread⟩

/-! ## A run of pages -/

/-- A store whose call IDs keep the letters and digits of what is hashed. -/
def shortStore : CallStore :=
  { plainStore with
    short := fun text => String.ofList ((text.toList.filter Char.isAlphanum).take 32) }

/-- Every call of the project. -/
def anyCall : CallQuery := ⟨demoProject, none, .all⟩

def noProjections : Projections := ⟨.empty, [], [], fun _ => 0, 0⟩

/-- A call arrives between two pages of two others. -/
def arrivingEvents : List ListingEvent :=
  [.page 1, .operation (.recordSpans demoProject [demoSpan 3 1 "app" "a" (some "m")] 0 30), .page 1]

def twoCalls : List Op :=
  demoRun [demoSpan 1 1 "app" "a" (some "k")] ++
    [.recordSpans demoProject [demoSpan 2 1 "app" "a" (some "l")] 0 20]

theorem complete_listing_arriving :
    (Listing.after shortStore anyCall twoCalls noProjections arrivingEvents).Complete
      shortStore anyCall := by
  have hrun : (Listing.after shortStore anyCall twoCalls noProjections
        arrivingEvents).world.readings = [30, 20, 10] ∧
      (∀ r ∈ (Listing.after shortStore anyCall twoCalls noProjections
        arrivingEvents).world.catalog.calls.rows, PageCursor.Portable r.callId) ∧
      ∀ u ∈ (Listing.after shortStore anyCall twoCalls noProjections arrivingEvents).turns,
        ∀ r ∈ u.world.catalog.calls.rows, PageCursor.Portable r.callId := by decide +kernel
  obtain ⟨hreadings, hnow, hturns⟩ := hrun
  refine (complete_listing shortStore anyCall twoCalls noProjections arrivingEvents ?_ ?_).1
  · rw [hreadings]
    unfold Dated
    decide
  · rintro r (hr | ⟨u, hu, hr⟩)
    · exact hnow r hr
    · exact hturns u hu r hr

end Earshot
