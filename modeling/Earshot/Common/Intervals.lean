import Mathlib.Data.List.Basic
import Mathlib.Data.List.Induction
import Mathlib.Data.List.Pairwise
import Mathlib.Order.Hom.Basic
import Mathlib.Order.MinMax
/-!
# Unions of closed intervals

A finite list of closed intervals covers points of a dense order its endpoints
embed into. A `Sweep` goes through intervals by their low ends and joins each
to the last group or opens a new one; whatever else a group records, after a
sweep the groups are the maximal intervals of the union (`Swept.isMaximal`,
`Swept.mem_of_isMaximal`) and the gaps between neighbours are its maximal gaps
(`Swept.isGap_iff`).
-/

namespace Intervals

variable {α β : Type*} [LinearOrder α] [LinearOrder β] (ι : α ↪o β)

/-- A point of the union. -/
def Covered (l : List (α × α)) (x : β) : Prop := ∃ r ∈ l, ι r.1 ≤ x ∧ x ≤ ι r.2

/-- An interval of the union that is in no greater one. -/
structure IsMaximal (l : List (α × α)) (lo hi : α) : Prop where
  le : lo ≤ hi
  covered : ∀ x, ι lo ≤ x → x ≤ ι hi → Covered ι l x
  maximal : ∀ a b, a ≤ ι lo → ι hi ≤ b → (∀ x, a ≤ x → x ≤ b → Covered ι l x) →
    a = ι lo ∧ b = ι hi

/-- An open interval the union is outside of, with ends that are of it. -/
structure IsGap (l : List (α × α)) (lo hi : α) : Prop where
  lt : lo < hi
  left : Covered ι l (ι lo)
  right : Covered ι l (ι hi)
  free : ∀ x, ι lo < x → x < ι hi → ¬ Covered ι l x

/-! ## Sweeps -/

/-- How a sweep groups elements that have intervals: a group opens with one,
and absorbs others without changing its low end. -/
structure Sweep (ρ γ α : Type*) [LinearOrder α] where
  low : ρ → α
  high : ρ → α
  groupLow : γ → α
  groupHigh : γ → α
  start : ρ → γ
  absorb : γ → ρ → γ
  low_start : ∀ r, groupLow (start r) = low r
  high_start : ∀ r, groupHigh (start r) = high r
  low_absorb : ∀ g r, groupLow (absorb g r) = groupLow g
  high_absorb : ∀ g r, groupHigh (absorb g r) = max (groupHigh g) (high r)

variable {ρ γ : Type*}

namespace Sweep

variable (w : Sweep ρ γ α)

def interval (r : ρ) : α × α := (w.low r, w.high r)

/-- One element: of a new group if it is after the last, which is first here. -/
def step : List γ → ρ → List γ
  | [], r => [w.start r]
  | g :: groups, r =>
      if w.groupHigh g < w.low r then w.start r :: g :: groups else w.absorb g r :: groups

/-- The groups of elements in order, in order. -/
def run (l : List ρ) : List γ := (l.foldl w.step []).reverse

end Sweep

/-- **What holds of the groups**, the last opened first, after the elements
so far. -/
structure Swept (w : Sweep ρ γ α) (l : List ρ) (groups : List γ) : Prop where
  /-- A group is after those opened before. -/
  separated : groups.Pairwise fun g g' => w.groupHigh g' < w.groupLow g
  le : ∀ g ∈ groups, w.groupLow g ≤ w.groupHigh g
  /-- A group is covered by what it absorbed. -/
  solid : ∀ g ∈ groups, ∀ x, ι (w.groupLow g) ≤ x → x ≤ ι (w.groupHigh g) →
    Covered ι (l.map w.interval) x
  within : ∀ r ∈ l, ∃ g ∈ groups, w.groupLow g ≤ w.low r ∧ w.high r ≤ w.groupHigh g
  low_mem : ∀ g ∈ groups, ∃ r ∈ l, w.low r = w.groupLow g
  high_mem : ∀ g ∈ groups, ∃ r ∈ l, w.high r = w.groupHigh g

variable {ι}

theorem covered_append {l l' : List (α × α)} {x : β} :
    Covered ι (l ++ l') x ↔ Covered ι l x ∨ Covered ι l' x := by
  unfold Covered
  constructor
  · rintro ⟨r, hr, hx⟩
    rcases List.mem_append.mp hr with hr | hr
    · exact Or.inl ⟨r, hr, hx⟩
    · exact Or.inr ⟨r, hr, hx⟩
  · rintro (⟨r, hr, hx⟩ | ⟨r, hr, hx⟩)
    · exact ⟨r, List.mem_append_left _ hr, hx⟩
    · exact ⟨r, List.mem_append_right _ hr, hx⟩

/-- What covers the same points has the same maximal intervals. -/
theorem IsMaximal.congr {l l' : List (α × α)} {lo hi : α}
    (h : ∀ x, Covered ι l x ↔ Covered ι l' x) : IsMaximal ι l lo hi ↔ IsMaximal ι l' lo hi := by
  have hsame : Covered ι l = Covered ι l' := funext fun x => propext (h x)
  constructor
  · rintro ⟨hle, hcovered, hmax⟩
    rw [hsame] at hcovered hmax
    exact ⟨hle, hcovered, hmax⟩
  · rintro ⟨hle, hcovered, hmax⟩
    rw [← hsame] at hcovered hmax
    exact ⟨hle, hcovered, hmax⟩

/-- And the same gaps. -/
theorem IsGap.congr {l l' : List (α × α)} {lo hi : α}
    (h : ∀ x, Covered ι l x ↔ Covered ι l' x) : IsGap ι l lo hi ↔ IsGap ι l' lo hi := by
  have hsame : Covered ι l = Covered ι l' := funext fun x => propext (h x)
  constructor
  · rintro ⟨hlt, hleft, hright, hfree⟩
    rw [hsame] at hleft hright hfree
    exact ⟨hlt, hleft, hright, hfree⟩
  · rintro ⟨hlt, hleft, hright, hfree⟩
    rw [← hsame] at hleft hright hfree
    exact ⟨hlt, hleft, hright, hfree⟩

theorem covered_perm {l l' : List (α × α)} (h : l.Perm l') (x : β) :
    Covered ι l x ↔ Covered ι l' x :=
  exists_congr fun _ => and_congr_left' h.mem_iff

namespace Swept

variable {w : Sweep ρ γ α} {l : List ρ} {groups : List γ} {g g' : γ} {r : ρ}

theorem nil : Swept ι w [] [] where
  separated := List.Pairwise.nil
  le _ hg := absurd hg List.not_mem_nil
  solid _ hg := absurd hg List.not_mem_nil
  within _ hr := absurd hr List.not_mem_nil
  low_mem _ hg := absurd hg List.not_mem_nil
  high_mem _ hg := absurd hg List.not_mem_nil

/-- An element after every group opens one. -/
theorem cons (h : Swept ι w l groups) (hr : w.low r ≤ w.high r)
    (hafter : ∀ g ∈ groups, w.groupHigh g < w.low r) :
    Swept ι w (l ++ [r]) (w.start r :: groups) where
  separated := List.pairwise_cons.mpr ⟨fun g hg => by
    rw [w.low_start]
    exact hafter g hg, h.separated⟩
  le := by
    intro g hg
    rcases List.mem_cons.mp hg with rfl | hg
    · rw [w.low_start, w.high_start]
      exact hr
    · exact h.le g hg
  solid := by
    intro g hg x hlow hhigh
    rw [List.map_append, covered_append]
    rcases List.mem_cons.mp hg with rfl | hg
    · rw [w.low_start] at hlow
      rw [w.high_start] at hhigh
      exact Or.inr ⟨w.interval r, List.mem_cons_self, hlow, hhigh⟩
    · exact Or.inl (h.solid g hg x hlow hhigh)
  within := by
    intro r' hr'
    rcases List.mem_append.mp hr' with hr' | hr'
    · obtain ⟨g, hg, hin⟩ := h.within r' hr'
      exact ⟨g, List.mem_cons_of_mem _ hg, hin⟩
    · obtain rfl := List.mem_singleton.mp hr'
      exact ⟨w.start r', List.mem_cons_self, (w.low_start r').le, (w.high_start r').ge⟩
  low_mem := by
    intro g hg
    rcases List.mem_cons.mp hg with rfl | hg
    · exact ⟨r, by simp, (w.low_start r).symm⟩
    · obtain ⟨r', hr', heq⟩ := h.low_mem g hg
      exact ⟨r', List.mem_append_left _ hr', heq⟩
  high_mem := by
    intro g hg
    rcases List.mem_cons.mp hg with rfl | hg
    · exact ⟨r, by simp, (w.high_start r).symm⟩
    · obtain ⟨r', hr', heq⟩ := h.high_mem g hg
      exact ⟨r', List.mem_append_left _ hr', heq⟩

/-- An element that meets the last group is absorbed. -/
theorem absorb (h : Swept ι w l (g :: groups)) (hr : w.low r ≤ w.high r)
    (hlow : w.groupLow g ≤ w.low r) (hmeets : w.low r ≤ w.groupHigh g) :
    Swept ι w (l ++ [r]) (w.absorb g r :: groups) where
  separated := by
    obtain ⟨hg, hrest⟩ := List.pairwise_cons.mp h.separated
    refine List.pairwise_cons.mpr ⟨fun g' hg' => ?_, hrest⟩
    rw [w.low_absorb]
    exact hg g' hg'
  le := by
    intro g' hg'
    rcases List.mem_cons.mp hg' with rfl | hg'
    · rw [w.low_absorb, w.high_absorb]
      exact (h.le g List.mem_cons_self).trans (le_max_left _ _)
    · exact h.le g' (List.mem_cons_of_mem _ hg')
  solid := by
    intro g' hg' x hx hxh
    rw [List.map_append, covered_append]
    rcases List.mem_cons.mp hg' with rfl | hg'
    · rw [w.low_absorb] at hx
      rw [w.high_absorb] at hxh
      rcases le_or_gt x (ι (w.groupHigh g)) with hle | hgt
      · exact Or.inl (h.solid g List.mem_cons_self x hx hle)
      · refine Or.inr ⟨w.interval r, List.mem_cons_self, (ι.monotone hmeets).trans hgt.le, ?_⟩
        rcases le_total (w.groupHigh g) (w.high r) with hmax | hmax
        · rwa [max_eq_right hmax] at hxh
        · rw [max_eq_left hmax] at hxh
          exact absurd hxh (not_le.mpr hgt)
    · exact Or.inl (h.solid g' (List.mem_cons_of_mem _ hg') x hx hxh)
  within := by
    intro r' hr'
    rcases List.mem_append.mp hr' with hr' | hr'
    · obtain ⟨g', hg', hin⟩ := h.within r' hr'
      rcases List.mem_cons.mp hg' with rfl | hg'
      · refine ⟨_, List.mem_cons_self, ?_, ?_⟩
        · rw [w.low_absorb]
          exact hin.1
        · rw [w.high_absorb]
          exact hin.2.trans (le_max_left _ _)
      · exact ⟨g', List.mem_cons_of_mem _ hg', hin⟩
    · obtain rfl := List.mem_singleton.mp hr'
      refine ⟨_, List.mem_cons_self, ?_, ?_⟩
      · rw [w.low_absorb]
        exact hlow
      · rw [w.high_absorb]
        exact le_max_right _ _
  low_mem := by
    intro g' hg'
    rcases List.mem_cons.mp hg' with rfl | hg'
    · obtain ⟨r', hr', heq⟩ := h.low_mem g List.mem_cons_self
      exact ⟨r', List.mem_append_left _ hr', heq.trans (w.low_absorb g r).symm⟩
    · obtain ⟨r', hr', heq⟩ := h.low_mem g' (List.mem_cons_of_mem _ hg')
      exact ⟨r', List.mem_append_left _ hr', heq⟩
  high_mem := by
    intro g' hg'
    rcases List.mem_cons.mp hg' with rfl | hg'
    · rw [w.high_absorb]
      rcases le_total (w.groupHigh g) (w.high r) with hmax | hmax
      · exact ⟨r, by simp, (max_eq_right hmax).symm⟩
      · obtain ⟨r', hr', heq⟩ := h.high_mem g List.mem_cons_self
        exact ⟨r', List.mem_append_left _ hr', heq.trans (max_eq_left hmax).symm⟩
    · obtain ⟨r', hr', heq⟩ := h.high_mem g' (List.mem_cons_of_mem _ hg')
      exact ⟨r', List.mem_append_left _ hr', heq⟩

/-- **One element of a sweep in order** keeps what holds of the groups. -/
theorem step (h : Swept ι w l groups) (hr : w.low r ≤ w.high r)
    (hlow : ∀ r' ∈ l, w.low r' ≤ w.low r) : Swept ι w (l ++ [r]) (w.step groups r) := by
  cases groups with
  | nil => exact h.cons hr fun _ hg => absurd hg List.not_mem_nil
  | cons g groups =>
    rw [Sweep.step]
    split
    · rename_i hafter
      refine h.cons hr fun g' hg' => ?_
      rcases List.mem_cons.mp hg' with rfl | hg'
      · exact hafter
      · have hbefore := (List.pairwise_cons.mp h.separated).1 g' hg'
        exact (hbefore.trans_le (h.le g List.mem_cons_self)).trans hafter
    · rename_i hmeets
      obtain ⟨r', hr', heq⟩ := h.low_mem g List.mem_cons_self
      exact h.absorb hr (heq ▸ hlow r' hr') (not_lt.mp hmeets)

/-- **After a sweep of elements in order.** -/
theorem run (hsorted : l.Pairwise fun r r' => w.low r ≤ w.low r')
    (hle : ∀ r ∈ l, w.low r ≤ w.high r) : Swept ι w l (l.foldl w.step []) := by
  induction l using List.reverseRecOn with
  | nil => exact nil
  | append_singleton l r ih =>
    obtain ⟨hinit, -, hlast⟩ := List.pairwise_append.mp hsorted
    rw [List.foldl_append]
    exact (ih hinit fun r hr => hle r (List.mem_append_left _ hr)).step
      (hle r (by simp)) fun r' hr' => hlast r' hr' r List.mem_cons_self

/-! ## The groups are the maximal intervals -/

/-- The union of the groups is that of the elements. -/
theorem covered_iff (h : Swept ι w l groups) {x : β} : Covered ι (l.map w.interval) x ↔
    ∃ g ∈ groups, ι (w.groupLow g) ≤ x ∧ x ≤ ι (w.groupHigh g) := by
  constructor
  · rintro ⟨_, hmem, hlow, hhigh⟩
    obtain ⟨r, hr, rfl⟩ := List.mem_map.mp hmem
    obtain ⟨g, hg, hgl, hgh⟩ := h.within r hr
    exact ⟨g, hg, (ι.monotone hgl).trans hlow, hhigh.trans (ι.monotone hgh)⟩
  · rintro ⟨g, hg, hlow, hhigh⟩
    exact h.solid g hg x hlow hhigh

/-- Of two groups, one is after the other. -/
theorem eq_or_separated (h : Swept ι w l groups) (hg : g ∈ groups) (hg' : g' ∈ groups) :
    g = g' ∨ w.groupHigh g < w.groupLow g' ∨ w.groupHigh g' < w.groupLow g := by
  have hsymm : Std.Symm fun g g' : γ =>
      w.groupHigh g < w.groupLow g' ∨ w.groupHigh g' < w.groupLow g := ⟨fun _ _ => Or.symm⟩
  have hpair : groups.Pairwise fun g g' =>
      w.groupHigh g < w.groupLow g' ∨ w.groupHigh g' < w.groupLow g :=
    h.separated.imp fun hlt => Or.inr hlt
  by_cases heq : g = g'
  · exact Or.inl heq
  · exact Or.inr (hpair.forall hg hg' heq)

section Dense

variable [DenselyOrdered β]

/-- A point below another and above finitely many below it. -/
theorem exists_between_all {a b : β} (hab : a < b) (l : List β) (hl : ∀ y ∈ l, y < b) :
    ∃ x, a < x ∧ x < b ∧ ∀ y ∈ l, y < x := by
  induction l with
  | nil =>
    obtain ⟨x, hax, hxb⟩ := exists_between hab
    exact ⟨x, hax, hxb, fun _ hy => absurd hy List.not_mem_nil⟩
  | cons y l ih =>
    obtain ⟨x, hax, hxb, hx⟩ := ih fun z hz => hl z (List.mem_cons_of_mem _ hz)
    obtain ⟨x', hx', hxb'⟩ := exists_between (max_lt hxb (hl y List.mem_cons_self))
    refine ⟨x', hax.trans ((le_max_left _ _).trans_lt hx'), hxb', fun z hz => ?_⟩
    rcases List.mem_cons.mp hz with rfl | hz
    · exact (le_max_right _ _).trans_lt hx'
    · exact (hx z hz).trans ((le_max_left _ _).trans_lt hx')

/-- The union leaves a point free before each group, as near as one likes. -/
theorem exists_free_below (h : Swept ι w l groups) (hg : g ∈ groups) {a : β}
    (ha : a < ι (w.groupLow g)) :
    ∃ x, a < x ∧ x < ι (w.groupLow g) ∧ ¬ Covered ι (l.map w.interval) x := by
  obtain ⟨x, hax, hx, hbefore⟩ := exists_between_all ha
    ((groups.filter fun g' => w.groupHigh g' < w.groupLow g).map fun g' => ι (w.groupHigh g'))
    (fun y hy => by
      obtain ⟨g', hg', rfl⟩ := List.mem_map.mp hy
      exact ι.strictMono (of_decide_eq_true (List.mem_filter.mp hg').2))
  refine ⟨x, hax, hx, fun hcovered => ?_⟩
  obtain ⟨g', hg', hlow, hhigh⟩ := h.covered_iff.mp hcovered
  rcases h.eq_or_separated hg hg' with rfl | hlt | hlt
  · exact absurd hlow (not_le.mpr hx)
  · have habove := ι.monotone ((h.le g hg).trans hlt.le)
    exact absurd (habove.trans hlow) (not_le.mpr hx)
  · have hlast := hbefore _ (List.mem_map.mpr ⟨g', List.mem_filter.mpr
      ⟨hg', decide_eq_true hlt⟩, rfl⟩)
    exact absurd hhigh (not_le.mpr hlast)

/-- And a point free after each. -/
theorem exists_free_above (h : Swept ι w l groups) (hg : g ∈ groups) {b : β}
    (hb : ι (w.groupHigh g) < b) :
    ∃ x, ι (w.groupHigh g) < x ∧ x < b ∧ ¬ Covered ι (l.map w.interval) x := by
  obtain ⟨x, hxb, hx, hafter⟩ := exists_between_all (β := βᵒᵈ) (a := OrderDual.toDual b)
    (b := OrderDual.toDual (ι (w.groupHigh g))) hb
    ((groups.filter fun g' => w.groupHigh g < w.groupLow g').map fun g' =>
      OrderDual.toDual (ι (w.groupLow g')))
    (fun y hy => by
      obtain ⟨g', hg', rfl⟩ := List.mem_map.mp hy
      exact ι.strictMono (of_decide_eq_true (List.mem_filter.mp hg').2))
  refine ⟨OrderDual.ofDual x, hx, hxb, fun hcovered => ?_⟩
  obtain ⟨g', hg', hlow, hhigh⟩ := h.covered_iff.mp hcovered
  rcases h.eq_or_separated hg hg' with rfl | hlt | hlt
  · exact absurd hhigh (not_le.mpr hx)
  · have hnext := hafter _ (List.mem_map.mpr ⟨g', List.mem_filter.mpr
      ⟨hg', decide_eq_true hlt⟩, rfl⟩)
    exact absurd hlow (not_le.mpr hnext)
  · have hbelow := ι.monotone (hlt.le.trans (h.le g hg))
    exact absurd (hhigh.trans hbelow) (not_le.mpr hx)

/-- **Every group is a maximal interval of the union.** -/
theorem isMaximal (h : Swept ι w l groups) (hg : g ∈ groups) :
    IsMaximal ι (l.map w.interval) (w.groupLow g) (w.groupHigh g) where
  le := h.le g hg
  covered := h.solid g hg
  maximal := by
    intro a b ha hb hall
    constructor
    · by_contra hne
      obtain ⟨x, hax, hx, hfree⟩ := h.exists_free_below hg (lt_of_le_of_ne ha hne)
      exact hfree (hall x hax.le (hx.le.trans ((ι.monotone (h.le g hg)).trans hb)))
    · by_contra hne
      obtain ⟨x, hx, hxb, hfree⟩ := h.exists_free_above hg (lt_of_le_of_ne hb (Ne.symm hne))
      exact hfree (hall x ((ha.trans (ι.monotone (h.le g hg))).trans hx.le) hxb.le)

/-- **And every maximal interval is a group's.** -/
theorem mem_of_isMaximal (h : Swept ι w l groups) {lo hi : α}
    (hmax : IsMaximal ι (l.map w.interval) lo hi) :
    ∃ g ∈ groups, w.groupLow g = lo ∧ w.groupHigh g = hi := by
  obtain ⟨g, hg, hlow, hhigh⟩ :=
    h.covered_iff.mp (hmax.covered (ι lo) le_rfl (ι.monotone hmax.le))
  have hgroup := h.isMaximal hg
  -- the two share the point `lo`, so what they cover is one interval
  have hall : ∀ x, min (ι lo) (ι (w.groupLow g)) ≤ x → x ≤ max (ι hi) (ι (w.groupHigh g)) →
      Covered ι (l.map w.interval) x := by
    intro x hx hx'
    rcases le_or_gt (ι lo) x with hle | hlt
    · rcases le_max_iff.mp hx' with hx' | hx'
      · exact hmax.covered x hle hx'
      · exact hgroup.covered x (hlow.trans hle) hx'
    · rcases min_le_iff.mp hx with hx | hx
      · exact absurd hx (not_le.mpr hlt)
      · exact hgroup.covered x hx (hlt.le.trans hhigh)
  obtain ⟨hlo, hhi⟩ := hmax.maximal _ _ (min_le_left _ _) (le_max_left _ _) hall
  obtain ⟨hlo', hhi'⟩ := hgroup.maximal _ _ (min_le_right _ _) (le_max_right _ _) hall
  exact ⟨g, hg, ι.injective (hlo'.symm.trans hlo), ι.injective (hhi'.symm.trans hhi)⟩

/-! ## The gaps are between neighbours -/

/-- **A gap is between two groups that follow each other.** -/
theorem isGap_iff (h : Swept ι w l groups) {lo hi : α} : IsGap ι (l.map w.interval) lo hi ↔
    ∃ pre g g' post, groups.reverse = pre ++ g :: g' :: post ∧ w.groupHigh g = lo ∧
      w.groupLow g' = hi := by
  have hordered : groups.reverse.Pairwise fun g g' => w.groupHigh g < w.groupLow g' :=
    List.pairwise_reverse.mpr h.separated
  constructor
  · intro hgap
    obtain ⟨g, hg, hgl, hgh⟩ := h.covered_iff.mp hgap.left
    obtain ⟨g', hg', hgl', hgh'⟩ := h.covered_iff.mp hgap.right
    have hinside : ∀ x, ι lo < x → x < ι hi → ∀ k ∈ groups, ι (w.groupLow k) ≤ x →
        ¬ x ≤ ι (w.groupHigh k) := fun x hx hx' k hk hkl hkh =>
      hgap.free x hx hx' (h.solid k hk x hkl hkh)
    have hlo : w.groupHigh g = lo := by
      by_contra hne
      have hlt : ι lo < ι (w.groupHigh g) := lt_of_le_of_ne hgh fun heq =>
        hne (ι.injective heq).symm
      obtain ⟨x, hx, hx'⟩ := exists_between (lt_min hlt (ι.strictMono hgap.lt))
      exact hinside x hx (hx'.trans_le (min_le_right _ _)) g hg (hgl.trans hx.le)
        (hx'.le.trans (min_le_left _ _))
    have hhi : w.groupLow g' = hi := by
      by_contra hne
      have hlt : ι (w.groupLow g') < ι hi := lt_of_le_of_ne hgl' fun heq => hne (ι.injective heq)
      obtain ⟨x, hx, hx'⟩ := exists_between (max_lt hlt (ι.strictMono hgap.lt))
      exact hinside x ((le_max_right _ _).trans_lt hx) hx' g' hg'
        ((le_max_left _ _).trans hx.le) (hx'.le.trans hgh')
    obtain ⟨pre, rest, hsplit⟩ := List.append_of_mem (List.mem_reverse.mpr hg)
    have hafter : g' ∈ rest := by
      have hmem := List.mem_reverse.mpr hg'
      rw [hsplit] at hmem hordered
      rcases List.mem_append.mp hmem with hmem | hmem
      · have hlt := (List.pairwise_append.mp hordered).2.2 g' hmem g List.mem_cons_self
        have := (h.le g' hg').trans_lt (hlt.trans_le (h.le g hg))
        rw [hlo, hhi] at this
        exact absurd this (not_lt.mpr hgap.lt.le)
      · refine (List.mem_cons.mp hmem).resolve_left ?_
        rintro rfl
        have := h.le g' hg'
        rw [hlo, hhi] at this
        exact absurd this (not_le.mpr hgap.lt)
    cases rest with
    | nil => exact absurd hafter List.not_mem_nil
    | cons k rest =>
      rcases List.mem_cons.mp hafter with rfl | hafter
      · exact ⟨pre, g, g', rest, hsplit, hlo, hhi⟩
      · -- a group between the two is in the gap
        have hk : k ∈ groups := List.mem_reverse.mp (hsplit ▸ by simp)
        rw [hsplit] at hordered
        have htail := (List.pairwise_append.mp hordered).2.1
        have hgk := (List.pairwise_cons.mp htail).1 k List.mem_cons_self
        have hkg := (List.pairwise_cons.mp (List.pairwise_cons.mp htail).2).1 g' hafter
        rw [hlo] at hgk
        rw [hhi] at hkg
        exact absurd (ι.monotone (h.le k hk)) (hinside (ι (w.groupLow k)) (ι.strictMono hgk)
          (ι.strictMono ((h.le k hk).trans_lt hkg)) k hk le_rfl)
  · rintro ⟨pre, g, g', post, hsplit, rfl, rfl⟩
    have hg : g ∈ groups := List.mem_reverse.mp (hsplit ▸ by simp)
    have hg' : g' ∈ groups := List.mem_reverse.mp (hsplit ▸ by simp)
    have hmem : ∀ k ∈ groups, k ∈ pre ++ g :: g' :: post := fun k hk =>
      hsplit ▸ List.mem_reverse.mpr hk
    rw [hsplit] at hordered
    obtain ⟨-, htail, hpre⟩ := List.pairwise_append.mp hordered
    obtain ⟨hnext, htail⟩ := List.pairwise_cons.mp htail
    refine ⟨hnext g' List.mem_cons_self, h.solid g hg _ (ι.monotone (h.le g hg)) le_rfl,
      h.solid g' hg' _ le_rfl (ι.monotone (h.le g' hg')), fun x hx hx' hcovered => ?_⟩
    obtain ⟨k, hk, hkl, hkh⟩ := h.covered_iff.mp hcovered
    rcases List.mem_append.mp (hmem k hk) with hk' | hk'
    · have hlt := hpre k hk' g List.mem_cons_self
      have hle := ι.monotone (hlt.le.trans (h.le g hg))
      exact absurd (hkh.trans hle) (not_le.mpr hx)
    · rcases List.mem_cons.mp hk' with rfl | hk'
      · exact absurd hkh (not_le.mpr hx)
      · have hle : w.groupLow g' ≤ w.groupLow k := by
          rcases List.mem_cons.mp hk' with rfl | hk'
          · exact le_rfl
          · have hlt := (List.pairwise_cons.mp htail).1 k hk'
            exact (h.le g' hg').trans hlt.le
        exact absurd ((ι.monotone hle).trans hkl) (not_le.mpr hx')

end Dense

end Swept

end Intervals
