import Mathlib.Data.List.Basic
import Mathlib.Data.List.Pairwise
import Mathlib.Logic.Relation
import Mathlib.Order.Lattice
/-!
# A sender that declares what it lost

Items are numbered from one in the order they are sent. One at a time is
prepared and offered until it is accepted or given up; the others wait behind
it, and any of them may be given up while they do. What was given up is kept as
one interval, which the next prepared item declares up to its own number; once
an item is accepted the interval is cleared through it. An item may also be
given up without a trace, and is then known to be.

The interval may span numbers that still wait, so nothing says that it is what
was lost. It never reaches down to an accepted number though (`Known.pending`),
and so an offered item declares no accepted one, and every number beneath it is
accounted for (`Known.offered`).
-/

namespace Sender

/-- The numbers from `first` through `last`. -/
structure Gap where
  first : ℕ
  last : ℕ
  deriving DecidableEq

namespace Gap

instance : Membership ℕ Gap := ⟨fun g m => g.first ≤ m ∧ m ≤ g.last⟩

theorem mem_def {g : Gap} {m : ℕ} : m ∈ g ↔ g.first ≤ m ∧ m ≤ g.last := Iff.rfl

instance (m : ℕ) (g : Gap) : Decidable (m ∈ g) := inferInstanceAs (Decidable (_ ∧ _))

/-- The least interval around two. -/
def merge (g : Gap) : Option Gap → Gap
  | none => g
  | some h => ⟨min h.first g.first, max h.last g.last⟩

/-- What an item of number `n` declares of it. -/
def declare (g : Gap) (n : ℕ) : Option Gap :=
  if g.first ≤ min g.last (n - 1) then some ⟨g.first, min g.last (n - 1)⟩ else none

/-- What is left of it once `n` is accepted. -/
def clear (g : Gap) (n : ℕ) : Option Gap :=
  if n < g.first then some g else if g.last ≤ n then none else some ⟨n + 1, g.last⟩

theorem mem_merge_left {g : Gap} {h : Option Gap} {m : ℕ} (hm : m ∈ g) : m ∈ g.merge h := by
  cases h with
  | none => exact hm
  | some h => exact ⟨le_trans (min_le_right _ _) hm.1, le_trans hm.2 (le_max_right _ _)⟩

theorem mem_merge_right {g h : Gap} {m : ℕ} (hm : m ∈ h) : m ∈ g.merge (some h) :=
  ⟨le_trans (min_le_left _ _) hm.1, le_trans hm.2 (le_max_left _ _)⟩

theorem mem_declare {g : Gap} {n m : ℕ} (hn : 0 < n) :
    (∃ d ∈ g.declare n, m ∈ d) ↔ m ∈ g ∧ m < n := by
  unfold declare
  split
  · simp only [Option.mem_some, exists_eq_left', mem_def]
    omega
  · simp only [Option.not_mem_none, false_and, exists_false, mem_def, false_iff]
    omega

end Gap

/-- The sender. -/
structure State where
  /-- How many items there are so far. -/
  sent : ℕ
  /-- The items that wait, none prepared yet. -/
  waiting : List ℕ
  /-- The item offered now, and what it declares. -/
  offered : Option (ℕ × Option Gap)
  /-- What was given up and not declared by an accepted item. -/
  pending : Option Gap
  /-- The item accepted last, until what it declares is cleared. -/
  settling : Option ℕ
  /-- The accepted items and what they declared, latest first. -/
  accepted : List (ℕ × Option Gap)
  /-- The items given up without a trace. -/
  untracked : List ℕ

/-- Nothing was sent. -/
def State.init : State := ⟨0, [], none, none, none, [], []⟩

/-- One move. -/
inductive Step : State → State → Prop
  | send (s : State) :
      Step s { s with sent := s.sent + 1, waiting := s.waiting ++ [s.sent + 1] }
  | drop (s : State) (front back : List ℕ) (m : ℕ) (h : s.waiting = front ++ m :: back) :
      Step s
        { s with waiting := front ++ back, pending := some (Gap.merge ⟨m, m⟩ s.pending) }
  | forget (s : State) (front back : List ℕ) (m : ℕ) (h : s.waiting = front ++ m :: back) :
      Step s { s with waiting := front ++ back, untracked := m :: s.untracked }
  | prepare (s : State) (n : ℕ) (rest : List ℕ) (h : s.waiting = n :: rest)
      (hoffered : s.offered = none) (hsettling : s.settling = none) :
      Step s
        { s with waiting := rest, offered := some (n, s.pending.bind fun g => g.declare n) }
  | fail (s : State) (n : ℕ) (declared : Option Gap) (h : s.offered = some (n, declared)) :
      Step s
        { s with
          offered := none
          pending := some (Gap.merge ⟨(declared.map (·.first)).elim n (min · n), n⟩ s.pending) }
  | lose (s : State) (n : ℕ) (declared : Option Gap) (h : s.offered = some (n, declared)) :
      Step s { s with offered := none, untracked := n :: s.untracked }
  | accept (s : State) (n : ℕ) (declared : Option Gap) (h : s.offered = some (n, declared)) :
      Step s
        { s with
          offered := none
          settling := some n
          accepted := (n, declared) :: s.accepted }
  | clear (s : State) (n : ℕ) (h : s.settling = some n) :
      Step s { s with settling := none, pending := s.pending.bind fun g => g.clear n }

/-- A number that needs no declaring: it was accepted, declared by an accepted
item, or given up without a trace. -/
def State.Accounted (s : State) (m : ℕ) : Prop :=
  (∃ declared, (m, declared) ∈ s.accepted) ∨ (∃ a ∈ s.accepted, ∃ g ∈ a.2, m ∈ g) ∨
    m ∈ s.untracked

/-- **What the sender knows.** -/
structure Known (s : State) : Prop where
  waiting_sorted : s.waiting.Pairwise (· < ·)
  waiting_le : ∀ m ∈ s.waiting, 1 ≤ m ∧ m ≤ s.sent
  accepted_sorted : s.accepted.Pairwise fun a b => b.1 < a.1
  accepted_lt : ∀ a ∈ s.accepted, a.1 ≤ s.sent ∧ (∀ m ∈ s.waiting, a.1 < m) ∧
    ∀ g ∈ a.2, ∀ m ∈ g, m < a.1
  /-- The offered item is before those that wait and after the accepted ones;
  what it declares lies between. -/
  offered : ∀ n declared, s.offered = some (n, declared) → 1 ≤ n ∧ n ≤ s.sent ∧
    s.settling = none ∧ (∀ m ∈ s.waiting, n < m) ∧ (∀ a ∈ s.accepted, a.1 < n) ∧
    (∀ g ∈ declared, g.first ≤ g.last ∧ 1 ≤ g.first ∧ g.last < n ∧
      ∀ a ∈ s.accepted, a.1 < g.first) ∧
    ∀ m, 1 ≤ m → m < n → s.Accounted m ∨ ∃ g ∈ declared, m ∈ g
  /-- Below the item that settles all is accounted for. -/
  settling : ∀ n, s.settling = some n → (∃ declared, (n, declared) ∈ s.accepted) ∧
    (∀ a ∈ s.accepted, a.1 ≤ n) ∧ ∀ m, 1 ≤ m → m ≤ n → s.Accounted m
  pending : ∀ g ∈ s.pending, 1 ≤ g.first ∧ g.first ≤ g.last ∧ g.last ≤ s.sent ∧
    ∀ a ∈ s.accepted, a.1 < g.first ∨ s.settling = some a.1
  /-- Every number waits, is offered, is pending or needs no declaring. -/
  known : ∀ m, 1 ≤ m → m ≤ s.sent → m ∈ s.waiting ∨ (∃ declared, s.offered = some (m, declared)) ∨
    (∃ g ∈ s.pending, m ∈ g) ∨ s.Accounted m

theorem State.Accounted.mono {s s' : State} {m : ℕ} (haccepted : s.accepted ⊆ s'.accepted)
    (huntracked : s.untracked ⊆ s'.untracked) (h : s.Accounted m) : s'.Accounted m := by
  rcases h with ⟨declared, h⟩ | ⟨a, ha, h⟩ | h
  · exact Or.inl ⟨declared, haccepted h⟩
  · exact Or.inr (Or.inl ⟨a, haccepted ha, h⟩)
  · exact Or.inr (Or.inr (huntracked h))

theorem known_init : Known State.init where
  waiting_sorted := List.Pairwise.nil
  waiting_le := fun m hm => absurd hm List.not_mem_nil
  accepted_sorted := List.Pairwise.nil
  accepted_lt := fun a ha => absurd ha List.not_mem_nil
  offered := fun n declared h => by cases h
  settling := fun n h => by cases h
  pending := fun g h => absurd h (Option.not_mem_none g)
  known := fun m h h' => absurd (Nat.le_trans h h') (Nat.not_succ_le_zero 0)

variable {s s' : State}

/-- What waited before and after an item that is given up. -/
theorem mem_of_split {front back : List ℕ} {m x : ℕ} (h : s.waiting = front ++ m :: back)
    (hx : x ∈ front ++ back) : x ∈ s.waiting := by
  rw [h]
  rcases List.mem_append.mp hx with hx | hx
  · exact List.mem_append_left _ hx
  · exact List.mem_append_right _ (List.mem_cons_of_mem _ hx)

theorem sorted_of_split {front back : List ℕ} {m : ℕ} (h : s.waiting = front ++ m :: back)
    (hsorted : s.waiting.Pairwise (· < ·)) : (front ++ back).Pairwise (· < ·) := by
  rw [h] at hsorted
  exact hsorted.sublist ((List.sublist_cons_self m back).append_left front)

theorem Known.send (h : Known s) :
    Known { s with sent := s.sent + 1, waiting := s.waiting ++ [s.sent + 1] } where
  waiting_sorted := by
    refine List.pairwise_append.mpr ⟨h.waiting_sorted, List.pairwise_singleton _ _, ?_⟩
    intro m hm x hx
    rw [List.mem_singleton.mp hx]
    exact Nat.lt_succ_of_le (h.waiting_le m hm).2
  waiting_le m hm := by
    rcases List.mem_append.mp hm with hm | hm
    · have := h.waiting_le m hm
      exact ⟨this.1, Nat.le_succ_of_le this.2⟩
    · rw [List.mem_singleton.mp hm]
      exact ⟨Nat.succ_le_succ (Nat.zero_le _), Nat.le_refl _⟩
  accepted_sorted := h.accepted_sorted
  accepted_lt a ha := by
    obtain ⟨hle, hwaiting, hgap⟩ := h.accepted_lt a ha
    refine ⟨Nat.le_succ_of_le hle, fun m hm => ?_, hgap⟩
    rcases List.mem_append.mp hm with hm | hm
    · exact hwaiting m hm
    · rw [List.mem_singleton.mp hm]
      exact Nat.lt_succ_of_le hle
  offered n declared ho := by
    obtain ⟨h1, hle, hsettling, hwaiting, hrest⟩ := h.offered n declared ho
    refine ⟨h1, Nat.le_succ_of_le hle, hsettling, fun m hm => ?_, hrest⟩
    rcases List.mem_append.mp hm with hm | hm
    · exact hwaiting m hm
    · rw [List.mem_singleton.mp hm]
      exact Nat.lt_succ_of_le hle
  settling := h.settling
  pending g hg := by
    obtain ⟨h1, hle, hlast, haccepted⟩ := h.pending g hg
    exact ⟨h1, hle, Nat.le_succ_of_le hlast, haccepted⟩
  known m h1 hle := by
    rcases Nat.lt_or_ge s.sent m with hlt | hge
    · obtain rfl : m = s.sent + 1 := Nat.le_antisymm hle hlt
      exact Or.inl (List.mem_append_right _ List.mem_cons_self)
    · rcases h.known m h1 hge with hw | hrest
      · exact Or.inl (List.mem_append_left _ hw)
      · exact Or.inr hrest

/-- Merging keeps a pending interval above what was accepted. -/
theorem Known.pending_merge (h : Known s) {g : Gap} (h1 : 1 ≤ g.first) (hle : g.first ≤ g.last)
    (hlast : g.last ≤ s.sent) (haccepted : ∀ a ∈ s.accepted, a.1 < g.first) :
    1 ≤ (g.merge s.pending).first ∧ (g.merge s.pending).first ≤ (g.merge s.pending).last ∧
      (g.merge s.pending).last ≤ s.sent ∧
      ∀ a ∈ s.accepted, a.1 < (g.merge s.pending).first ∨ s.settling = some a.1 := by
  cases hp : s.pending with
  | none => exact ⟨h1, hle, hlast, fun a ha => Or.inl (haccepted a ha)⟩
  | some p =>
    obtain ⟨hp1, hple, hplast, hpaccepted⟩ := h.pending p hp
    refine ⟨le_min hp1 h1, (min_le_right _ _).trans (hle.trans (le_max_right _ _)),
      max_le hplast hlast, fun a ha => ?_⟩
    rcases hpaccepted a ha with hlt | hsettling
    · exact Or.inl (lt_min hlt (haccepted a ha))
    · exact Or.inr hsettling

theorem Known.drop (h : Known s) {front back : List ℕ} {m : ℕ}
    (hm : s.waiting = front ++ m :: back) :
    Known { s with waiting := front ++ back, pending := some (Gap.merge ⟨m, m⟩ s.pending) } := by
  have hwaits : m ∈ s.waiting := hm ▸ List.mem_append_right _ List.mem_cons_self
  exact {
    waiting_sorted := sorted_of_split hm h.waiting_sorted
    waiting_le := fun x hx => h.waiting_le x (mem_of_split hm hx)
    accepted_sorted := h.accepted_sorted
    accepted_lt := fun a ha => ⟨(h.accepted_lt a ha).1,
      fun x hx => (h.accepted_lt a ha).2.1 x (mem_of_split hm hx), (h.accepted_lt a ha).2.2⟩
    offered := fun n declared ho => by
      obtain ⟨h1, hle, hsettling, hwaiting, hrest⟩ := h.offered n declared ho
      exact ⟨h1, hle, hsettling, fun x hx => hwaiting x (mem_of_split hm hx), hrest⟩
    settling := h.settling
    pending := fun g hg => by
      obtain rfl := Option.some.inj hg
      exact h.pending_merge (h.waiting_le m hwaits).1 (Nat.le_refl m) (h.waiting_le m hwaits).2
        fun a ha => (h.accepted_lt a ha).2.1 m hwaits
    known := fun x h1 hle => by
      rcases h.known x h1 hle with hw | ho | ⟨g, hg, hx⟩ | ha
      · rw [hm] at hw
        rcases List.mem_append.mp hw with hw | hw
        · exact Or.inl (List.mem_append_left _ hw)
        · rcases List.mem_cons.mp hw with rfl | hw
          · exact Or.inr (Or.inr (Or.inl ⟨_, rfl, Gap.mem_merge_left ⟨Nat.le_refl _, Nat.le_refl _⟩⟩))
          · exact Or.inl (List.mem_append_right _ hw)
      · exact Or.inr (Or.inl ho)
      · refine Or.inr (Or.inr (Or.inl ⟨_, rfl, ?_⟩))
        rw [Option.mem_def.mp hg]
        exact Gap.mem_merge_right hx
      · exact Or.inr (Or.inr (Or.inr ha)) }

theorem Known.forget (h : Known s) {front back : List ℕ} {m : ℕ}
    (hm : s.waiting = front ++ m :: back) :
    Known { s with waiting := front ++ back, untracked := m :: s.untracked } := by
  have hmono : ∀ x, s.Accounted x →
      State.Accounted { s with waiting := front ++ back, untracked := m :: s.untracked } x :=
    fun x hx => hx.mono (List.Subset.refl s.accepted) (List.subset_cons_self _ _)
  exact {
    waiting_sorted := sorted_of_split hm h.waiting_sorted
    waiting_le := fun x hx => h.waiting_le x (mem_of_split hm hx)
    accepted_sorted := h.accepted_sorted
    accepted_lt := fun a ha => ⟨(h.accepted_lt a ha).1,
      fun x hx => (h.accepted_lt a ha).2.1 x (mem_of_split hm hx), (h.accepted_lt a ha).2.2⟩
    offered := fun n declared ho => by
      obtain ⟨h1, hle, hsettling, hwaiting, haccepted, hgap, hbelow⟩ := h.offered n declared ho
      exact ⟨h1, hle, hsettling, fun x hx => hwaiting x (mem_of_split hm hx), haccepted, hgap,
        fun x hx hlt => (hbelow x hx hlt).imp (hmono x) id⟩
    settling := fun n hn => by
      obtain ⟨hmem, hle, hbelow⟩ := h.settling n hn
      exact ⟨hmem, hle, fun x hx hxn => hmono x (hbelow x hx hxn)⟩
    pending := h.pending
    known := fun x h1 hle => by
      rcases h.known x h1 hle with hw | ho | hp | ha
      · rw [hm] at hw
        rcases List.mem_append.mp hw with hw | hw
        · exact Or.inl (List.mem_append_left _ hw)
        · rcases List.mem_cons.mp hw with rfl | hw
          · exact Or.inr (Or.inr (Or.inr (Or.inr (Or.inr List.mem_cons_self))))
          · exact Or.inl (List.mem_append_right _ hw)
      · exact Or.inr (Or.inl ho)
      · exact Or.inr (Or.inr (Or.inl hp))
      · exact Or.inr (Or.inr (Or.inr (hmono x ha))) }

theorem Known.prepare (h : Known s) {n : ℕ} {rest : List ℕ} (hn : s.waiting = n :: rest)
    (hoffered : s.offered = none) (hsettling : s.settling = none) :
    Known { s with
      waiting := rest, offered := some (n, s.pending.bind fun g => g.declare n) } := by
  have hsorted := h.waiting_sorted
  rw [hn, List.pairwise_cons] at hsorted
  have hwaits : n ∈ s.waiting := hn ▸ List.mem_cons_self
  have hsub : ∀ x ∈ rest, x ∈ s.waiting := fun x hx => hn ▸ List.mem_cons_of_mem _ hx
  obtain ⟨h1, hle⟩ := h.waiting_le n hwaits
  exact {
    waiting_sorted := hsorted.2
    waiting_le := fun x hx => h.waiting_le x (hsub x hx)
    accepted_sorted := h.accepted_sorted
    accepted_lt := fun a ha => ⟨(h.accepted_lt a ha).1,
      fun x hx => (h.accepted_lt a ha).2.1 x (hsub x hx), (h.accepted_lt a ha).2.2⟩
    offered := fun n' declared ho => by
      obtain ⟨rfl, rfl⟩ := Prod.mk.inj (Option.some.inj ho)
      refine ⟨h1, hle, hsettling, hsorted.1, fun a ha => (h.accepted_lt a ha).2.1 n hwaits, ?_, ?_⟩
      · intro g hg
        obtain ⟨p, hp, hd⟩ := Option.bind_eq_some_iff.mp hg
        obtain ⟨hp1, -, -, haccepted⟩ := h.pending p hp
        rw [Gap.declare] at hd
        split at hd
        · obtain rfl := Option.some.inj hd
          refine ⟨by assumption, hp1, by dsimp only; omega, fun a ha => ?_⟩
          rcases haccepted a ha with hlt | hset
          · exact hlt
          · rw [hsettling] at hset
            cases hset
        · cases hd
      · intro m hm hlt
        rcases h.known m hm (by omega) with hw | ⟨d, ho⟩ | ⟨p, hp, hmp⟩ | ha
        · rw [hn] at hw
          rcases List.mem_cons.mp hw with rfl | hw
          · exact absurd hlt (Nat.lt_irrefl _)
          · exact absurd (hsorted.1 m hw) (by omega)
        · rw [hoffered] at ho
          cases ho
        · obtain ⟨d, hd, hmd⟩ := (Gap.mem_declare h1).mpr ⟨hmp, hlt⟩
          refine Or.inr ⟨d, ?_, hmd⟩
          rw [Option.mem_def.mp hp]
          exact hd
        · exact Or.inl ha
    settling := fun n' hn' => by rw [hsettling] at hn'; cases hn'
    pending := h.pending
    known := fun m hm hle => by
      rcases h.known m hm hle with hw | ⟨d, ho⟩ | hp | ha
      · rw [hn] at hw
        rcases List.mem_cons.mp hw with rfl | hw
        · exact Or.inr (Or.inl ⟨_, rfl⟩)
        · exact Or.inl hw
      · rw [hoffered] at ho
        cases ho
      · exact Or.inr (Or.inr (Or.inl hp))
      · exact Or.inr (Or.inr (Or.inr ha)) }

theorem Known.fail (h : Known s) {n : ℕ} {declared : Option Gap}
    (ho : s.offered = some (n, declared)) :
    Known { s with
      offered := none
      pending := some (Gap.merge ⟨(declared.map (·.first)).elim n (min · n), n⟩ s.pending) } := by
  obtain ⟨h1, hle, hsettling, hwaiting, haccepted, hgap, hbelow⟩ := h.offered n declared ho
  have hfirst : 1 ≤ (declared.map (·.first)).elim n (min · n) ∧
      (declared.map (·.first)).elim n (min · n) ≤ n ∧
      ∀ a ∈ s.accepted, a.1 < (declared.map (·.first)).elim n (min · n) := by
    cases declared with
    | none => exact ⟨h1, Nat.le_refl n, haccepted⟩
    | some g =>
      obtain ⟨-, hg1, -, hga⟩ := hgap g rfl
      exact ⟨le_min hg1 h1, min_le_right _ _, fun a ha => lt_min (hga a ha) (haccepted a ha)⟩
  exact {
    waiting_sorted := h.waiting_sorted
    waiting_le := h.waiting_le
    accepted_sorted := h.accepted_sorted
    accepted_lt := h.accepted_lt
    offered := fun n' d ho' => by cases ho'
    settling := h.settling
    pending := fun g hg => by
      obtain rfl := Option.some.inj hg
      exact h.pending_merge hfirst.1 hfirst.2.1 hle hfirst.2.2
    known := fun m hm hmle => by
      rcases h.known m hm hmle with hw | ⟨d, hod⟩ | ⟨g, hg, hmg⟩ | ha
      · exact Or.inl hw
      · rw [ho] at hod
        obtain ⟨rfl, -⟩ := Prod.mk.inj (Option.some.inj hod)
        exact Or.inr (Or.inr (Or.inl ⟨_, rfl, Gap.mem_merge_left ⟨hfirst.2.1, Nat.le_refl _⟩⟩))
      · refine Or.inr (Or.inr (Or.inl ⟨_, rfl, ?_⟩))
        rw [Option.mem_def.mp hg]
        exact Gap.mem_merge_right hmg
      · exact Or.inr (Or.inr (Or.inr ha)) }

theorem Known.lose (h : Known s) {n : ℕ} {declared : Option Gap}
    (ho : s.offered = some (n, declared)) :
    Known { s with offered := none, untracked := n :: s.untracked } := by
  have hmono : ∀ x, s.Accounted x →
      State.Accounted { s with offered := none, untracked := n :: s.untracked } x :=
    fun x hx => hx.mono (List.Subset.refl s.accepted) (List.subset_cons_self _ _)
  exact {
    waiting_sorted := h.waiting_sorted
    waiting_le := h.waiting_le
    accepted_sorted := h.accepted_sorted
    accepted_lt := h.accepted_lt
    offered := fun n' d ho' => by cases ho'
    settling := fun n' hn' => by
      obtain ⟨hmem, hle, hbelow⟩ := h.settling n' hn'
      exact ⟨hmem, hle, fun x hx hxn => hmono x (hbelow x hx hxn)⟩
    pending := h.pending
    known := fun m hm hmle => by
      rcases h.known m hm hmle with hw | ⟨d, hod⟩ | hp | ha
      · exact Or.inl hw
      · rw [ho] at hod
        obtain ⟨rfl, -⟩ := Prod.mk.inj (Option.some.inj hod)
        exact Or.inr (Or.inr (Or.inr (Or.inr (Or.inr List.mem_cons_self))))
      · exact Or.inr (Or.inr (Or.inl hp))
      · exact Or.inr (Or.inr (Or.inr (hmono m ha))) }

theorem Known.accept (h : Known s) {n : ℕ} {declared : Option Gap}
    (ho : s.offered = some (n, declared)) :
    Known { s with
      offered := none
      settling := some n
      accepted := (n, declared) :: s.accepted } := by
  obtain ⟨h1, hle, hsettling, hwaiting, haccepted, hgap, hbelow⟩ := h.offered n declared ho
  have hmono : ∀ x, s.Accounted x → State.Accounted { s with
      offered := none, settling := some n, accepted := (n, declared) :: s.accepted } x :=
    fun x hx => hx.mono (List.subset_cons_self _ _) (List.Subset.refl s.untracked)
  exact {
    waiting_sorted := h.waiting_sorted
    waiting_le := h.waiting_le
    accepted_sorted := List.pairwise_cons.mpr ⟨haccepted, h.accepted_sorted⟩
    accepted_lt := fun a ha => by
      rcases List.mem_cons.mp ha with rfl | ha
      · exact ⟨hle, hwaiting, fun g hg m hm => lt_of_le_of_lt hm.2 (hgap g hg).2.2.1⟩
      · exact h.accepted_lt a ha
    offered := fun n' d ho' => by cases ho'
    settling := fun n' hn' => by
      obtain rfl := Option.some.inj hn'
      refine ⟨⟨declared, List.mem_cons_self⟩, fun a ha => ?_, fun m hm hmn => ?_⟩
      · rcases List.mem_cons.mp ha with rfl | ha
        · exact Nat.le_refl _
        · exact (haccepted a ha).le
      · rcases Nat.lt_or_ge m n with hlt | hge
        · rcases hbelow m hm hlt with ha | ⟨g, hg, hmg⟩
          · exact hmono m ha
          · exact Or.inr (Or.inl ⟨_, List.mem_cons_self, g, hg, hmg⟩)
        · obtain rfl := Nat.le_antisymm hmn hge
          exact Or.inl ⟨declared, List.mem_cons_self⟩
    pending := fun g hg => by
      obtain ⟨hg1, hgle, hglast, hga⟩ := h.pending g hg
      refine ⟨hg1, hgle, hglast, fun a ha => ?_⟩
      rcases List.mem_cons.mp ha with rfl | ha
      · exact Or.inr rfl
      · refine Or.inl ((hga a ha).resolve_right fun hset => ?_)
        rw [hsettling] at hset
        cases hset
    known := fun m hm hmle => by
      rcases h.known m hm hmle with hw | ⟨d, hod⟩ | hp | ha
      · exact Or.inl hw
      · rw [ho] at hod
        obtain ⟨rfl, -⟩ := Prod.mk.inj (Option.some.inj hod)
        exact Or.inr (Or.inr (Or.inr (Or.inl ⟨declared, List.mem_cons_self⟩)))
      · exact Or.inr (Or.inr (Or.inl hp))
      · exact Or.inr (Or.inr (Or.inr (hmono m ha))) }

theorem Known.clear (h : Known s) {n : ℕ} (hn : s.settling = some n) :
    Known { s with settling := none, pending := s.pending.bind fun g => g.clear n } := by
  obtain ⟨-, hmax, hbelow⟩ := h.settling n hn
  have hoffered : s.offered = none := by
    cases ho : s.offered with
    | none => rfl
    | some x =>
      have hnone := (h.offered x.1 x.2 ho).2.2.1
      rw [hn] at hnone
      cases hnone
  exact {
    waiting_sorted := h.waiting_sorted
    waiting_le := h.waiting_le
    accepted_sorted := h.accepted_sorted
    accepted_lt := h.accepted_lt
    offered := fun n' d ho' => by rw [hoffered] at ho'; cases ho'
    settling := fun n' hn' => by cases hn'
    pending := fun g hg => by
      obtain ⟨p, hp, hclear⟩ := Option.bind_eq_some_iff.mp hg
      obtain ⟨hp1, hple, hplast, -⟩ := h.pending p hp
      rw [Gap.clear] at hclear
      split at hclear
      · obtain rfl := Option.some.inj hclear
        exact ⟨hp1, hple, hplast, fun a ha => Or.inl (lt_of_le_of_lt (hmax a ha) ‹_›)⟩
      · split at hclear
        · cases hclear
        · obtain rfl := Option.some.inj hclear
          refine ⟨by dsimp only; omega, by dsimp only; omega, hplast, fun a ha => Or.inl ?_⟩
          exact Nat.lt_succ_of_le (hmax a ha)
    known := fun m hm hmle => by
      rcases Nat.lt_or_ge n m with hlt | hge
      · rcases h.known m hm hmle with hw | hod | ⟨g, hg, hmg⟩ | ha
        · exact Or.inl hw
        · exact Or.inr (Or.inl hod)
        · refine Or.inr (Or.inr (Or.inl ?_))
          rw [Option.mem_def.mp hg, Option.bind_some, Gap.clear]
          obtain ⟨hfirst, hlast⟩ := hmg
          split
          · exact ⟨g, rfl, hfirst, hlast⟩
          · split
            · omega
            · exact ⟨_, rfl, hlt, hlast⟩
        · exact Or.inr (Or.inr (Or.inr ha))
      · exact Or.inr (Or.inr (Or.inr (hbelow m hm hge))) }

/-- **Every move keeps what is known.** -/
theorem Known.step (h : Known s) (hstep : Step s s') : Known s' := by
  cases hstep with
  | send => exact h.send
  | drop front back m hm => exact h.drop hm
  | forget front back m hm => exact h.forget hm
  | prepare n rest hn hoffered hsettling => exact h.prepare hn hoffered hsettling
  | fail n declared ho => exact h.fail ho
  | lose n declared ho => exact h.lose ho
  | accept n declared ho => exact h.accept ho
  | clear n hn => exact h.clear hn

/-! ## Numbers that were offered -/

/-- Whatever is offered from now on has at least the number `n`. -/
structure State.Reached (s : State) (n : ℕ) : Prop where
  le_sent : n ≤ s.sent
  lt_waiting : ∀ m ∈ s.waiting, n < m
  le_offered : ∀ m declared, s.offered = some (m, declared) → n ≤ m

/-- **A number that was reached stays so.** -/
theorem State.Reached.step {n : ℕ} (h : s.Reached n) (hstep : Step s s') : s'.Reached n := by
  obtain ⟨hsent, hwaiting, hoffered⟩ := h
  cases hstep with
  | send =>
      refine ⟨Nat.le_succ_of_le hsent, fun m hm => ?_, hoffered⟩
      rcases List.mem_append.mp hm with hm | hm
      · exact hwaiting m hm
      · rw [List.mem_singleton.mp hm]
        exact Nat.lt_succ_of_le hsent
  | drop front back m hm => exact ⟨hsent, fun x hx => hwaiting x (mem_of_split hm hx), hoffered⟩
  | forget front back m hm => exact ⟨hsent, fun x hx => hwaiting x (mem_of_split hm hx), hoffered⟩
  | prepare m rest hm =>
      rw [hm] at hwaiting
      refine ⟨hsent, fun x hx => hwaiting x (List.mem_cons_of_mem _ hx), fun x declared hx => ?_⟩
      obtain ⟨rfl, -⟩ := Prod.mk.inj (Option.some.inj hx)
      exact (hwaiting m List.mem_cons_self).le
  | fail | lose | accept => exact ⟨hsent, hwaiting, fun m declared hm => by cases hm⟩
  | clear => exact ⟨hsent, hwaiting, hoffered⟩

/-- At most one move. -/
abbrev Moves : State → State → Prop := Relation.ReflGen Step

theorem Known.moves (h : Known s) (hmoves : Moves s s') : Known s' := by
  cases hmoves with
  | refl => exact h
  | single hstep => exact h.step hstep

theorem State.Reached.moves {n : ℕ} (h : s.Reached n) (hmoves : Moves s s') : s'.Reached n := by
  cases hmoves with
  | refl => exact h
  | single hstep => exact h.step hstep

end Sender
