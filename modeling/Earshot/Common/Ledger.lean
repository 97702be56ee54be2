import Mathlib.Data.Set.Insert
import Mathlib.Data.Option.Basic
import Mathlib.Tactic.Common
/-!
# Ledgers of leased snapshots

Items arrive at a ledger at any time. A holder claims the ledger under a
fresh token and takes a snapshot of everything held; the items no snapshot
had yet are marked with the number of the revision the snapshot is to
become. The holder then finishes (the snapshot is stored under that
number), discards an empty snapshot, or fails; each commits only while the
ledger still carries the holder's token and a pending revision. A later
claim may take the ledger over at any time.

`urgent` are the items that must not be forgotten, `dirty` says that some
may have arrived since the last snapshot. A ledger takes at most `cap`
revisions, and one more for its first final one; a revision is final when
the ledger had ended by the time it was claimed.

Four invariants hold of every ledger reached from the empty one
(`Sound.step`): tokens fence (`Leases`), a stored revision is exactly the
items marked up to its number (`Faithful`), urgent items outside the
stored revisions are announced (`Covered`), and the history is linear and
bounded (`Linear`).
-/

namespace Snapshots

/-- What a claim takes: the items held, under a token, for a revision. -/
@[ext] structure Snapshot (ε : Type*) where
  revision : ℕ
  token : ℕ
  /-- The ledger had ended when the snapshot was taken. -/
  final : Bool
  /-- And no final revision was stored. -/
  first : Bool
  items : Set ε

/-- A ledger and its claims. `held e m` is item `e` held under mark `m`. -/
@[ext] structure Ledger (ε : Type*) where
  held : ε → Option ℕ → Prop
  urgent : Set ε
  dirty : Bool
  latest : Option ℕ
  pending : Option ℕ
  token : ℕ
  ended : Bool
  stored : Set (Snapshot ε)
  issued : Set (Snapshot ε)
  /-- The tokens whose claims committed an outcome, latest first. -/
  settled : List ℕ

namespace Ledger

variable {ε : Type*}

/-- The number of the last stored revision, `0` before the first. -/
def top (L : Ledger ε) : ℕ := L.latest.getD 0

/-- The number the next snapshot is claimed for. -/
def next (L : Ledger ε) : ℕ := L.top + 1

/-- No final revision is stored. -/
def Unfinal (L : Ledger ε) : Prop := ∀ s ∈ L.stored, s.final = false

/-- The ledger may still be revised. -/
def Uncapped (cap : ℕ) (L : Ledger ε) : Prop :=
  L.top < cap ∨ (L.ended = true ∧ L.Unfinal)

/-- A ledger nothing happened to. -/
def empty (urgent : Set ε) : Ledger ε where
  held := fun _ _ => False
  urgent := urgent
  dirty := false
  latest := none
  pending := none
  token := 0
  ended := false
  stored := ∅
  issued := ∅
  settled := []

/-! ## What a step does -/

variable (cap : ℕ)

/-- Items arrive, unmarked; urgent ones leave the ledger dirty. What was
held stays as urgent as it was. -/
structure Arrive (L L' : Ledger ε) (new : Set ε) : Prop where
  held : ∀ e m, L'.held e m ↔ L.held e m ∨ (e ∈ new ∧ m = none)
  urgent : ∀ e m, L.held e m → (e ∈ L'.urgent ↔ e ∈ L.urgent)
  dirty : L.dirty = true → L'.dirty = true
  noted : ∀ e ∈ new, e ∈ L'.urgent → L'.dirty = true
  latest : L'.latest = L.latest
  pending : L'.pending = L.pending
  token : L'.token = L.token
  ended : L.ended = true → L'.ended = true
  stored : L'.stored = L.stored
  issued : L'.issued = L.issued
  settled : L'.settled = L.settled

/-- A claim takes `s` and marks what no snapshot had. -/
structure Claim (L L' : Ledger ε) (s : Snapshot ε) : Prop where
  uncapped : L.Uncapped cap
  revision : s.revision = L.next
  fresh : s.token = L.token + 1
  final : s.final = L.ended
  first : s.first = true ↔ L.ended = true ∧ L.Unfinal
  items : ∀ e, e ∈ s.items ↔ ∃ m, L.held e m
  held : ∀ e m, L'.held e m ↔ ∃ m₀, L.held e m₀ ∧ m = some (m₀.getD L.next)
  urgent : L'.urgent = L.urgent
  latest : L'.latest = L.latest
  pending : L'.pending = some L.next
  token : L'.token = L.token + 1
  ended : L'.ended = L.ended
  stored : L'.stored = L.stored
  issued : L'.issued = insert s L.issued
  settled : L'.settled = L.settled

/-- The holder of `s` commits: its token is the ledger's and its revision
is pending, which it no longer is afterwards. -/
structure Settle (L L' : Ledger ε) (s : Snapshot ε) : Prop where
  mem : s ∈ L.issued
  held_token : s.token = L.token
  due : L.pending = some s.revision
  held : L'.held = L.held
  urgent : L'.urgent = L.urgent
  pending : L'.pending = none
  token : L'.token = L.token
  ended : L'.ended = L.ended
  issued : L'.issued = L.issued
  settled : L'.settled = s.token :: L.settled

/-- One step of a ledger. -/
inductive Step : Ledger ε → Ledger ε → Prop where
  | arrive {L L' : Ledger ε} (new : Set ε) (h : Arrive L L' new) : Step L L'
  | claim {L L' : Ledger ε} (s : Snapshot ε) (h : Claim cap L L' s) : Step L L'
  | finish {L L' : Ledger ε} (s : Snapshot ε) (h : Settle L L' s)
      (dirty : L'.dirty = L.dirty) (latest : L'.latest = some s.revision)
      (stored : L'.stored = insert s L.stored) : Step L L'
  | discard {L L' : Ledger ε} (s : Snapshot ε) (h : Settle L L' s) (items : s.items = ∅)
      (dirty : L'.dirty = L.dirty) (latest : L'.latest = L.latest)
      (stored : L'.stored = L.stored) : Step L L'
  | fail {L L' : Ledger ε} (s : Snapshot ε) (h : Settle L L' s) (dirty : L'.dirty = true)
      (latest : L'.latest = L.latest) (stored : L'.stored = L.stored) : Step L L'

variable {cap} {L L' : Ledger ε} {urgent : Set ε}

theorem top_congr (h : L'.latest = L.latest) : L'.top = L.top := by
  rw [top, top, h]

theorem next_congr (h : L'.latest = L.latest) : L'.next = L.next := by
  rw [next, next, top_congr h]

/-! ## Leases -/

/-- **Tokens fence.** A pending revision is the next one; issued tokens
are below the ledger's; each token settles once, and the current one not
while a revision is pending. -/
structure Leases (L : Ledger ε) : Prop where
  pending_eq : ∀ r, L.pending = some r → r = L.next
  issued_le : ∀ s ∈ L.issued, s.token ≤ L.token
  issued_inj : ∀ s ∈ L.issued, ∀ s' ∈ L.issued, s.token = s'.token → s = s'
  settled_nodup : L.settled.Nodup
  settled_le : ∀ t ∈ L.settled, t ≤ L.token
  settled_lt : L.pending ≠ none → ∀ t ∈ L.settled, t < L.token

theorem Leases.empty : Leases (empty urgent) where
  pending_eq _ h := by cases h
  issued_le _ h := absurd h (Set.notMem_empty _)
  issued_inj _ h := absurd h (Set.notMem_empty _)
  settled_nodup := List.nodup_nil
  settled_le _ h := absurd h List.not_mem_nil
  settled_lt h := absurd rfl h

theorem Leases.settle {s : Snapshot ε} (h : Leases L) (hs : Settle L L' s) : Leases L' := by
  have hpend : L.pending ≠ none := by rw [hs.due]; exact Option.some_ne_none _
  have hlt := h.settled_lt hpend
  refine ⟨?_, ?_, ?_, ?_, ?_, ?_⟩
  · intro r hr
    rw [hs.pending] at hr
    cases hr
  · rw [hs.issued, hs.token]
    exact h.issued_le
  · rw [hs.issued]
    exact h.issued_inj
  · rw [hs.settled, List.nodup_cons]
    refine ⟨fun hmem => ?_, h.settled_nodup⟩
    have := hlt _ hmem
    rw [hs.held_token] at this
    omega
  · intro t ht
    rw [hs.settled] at ht
    rw [hs.token]
    rcases List.mem_cons.mp ht with rfl | ht
    · exact hs.held_token.le
    · exact h.settled_le t ht
  · intro hne
    exact absurd hs.pending hne

theorem Leases.step (h : Leases L) (hs : Step cap L L') : Leases L' := by
  cases hs with
  | arrive new ha =>
      refine ⟨?_, ?_, ?_, ?_, ?_, ?_⟩
      · rw [ha.pending, next_congr ha.latest]
        exact h.pending_eq
      · rw [ha.issued, ha.token]
        exact h.issued_le
      · rw [ha.issued]
        exact h.issued_inj
      · rw [ha.settled]
        exact h.settled_nodup
      · rw [ha.settled, ha.token]
        exact h.settled_le
      · rw [ha.settled, ha.token, ha.pending]
        exact h.settled_lt
  | claim s hc =>
      refine ⟨?_, ?_, ?_, ?_, ?_, ?_⟩
      · intro r hr
        rw [hc.pending] at hr
        rw [next_congr hc.latest]
        exact (Option.some.inj hr).symm
      · intro t ht
        rw [hc.issued] at ht
        rw [hc.token]
        rcases Set.mem_insert_iff.mp ht with rfl | ht
        · exact hc.fresh.le
        · have := h.issued_le t ht
          omega
      · intro t ht t' ht' heq
        rw [hc.issued] at ht ht'
        have hold : ∀ x ∈ L.issued, x.token ≠ s.token := by
          intro x hx hxs
          have := h.issued_le x hx
          rw [hxs, hc.fresh] at this
          omega
        rcases Set.mem_insert_iff.mp ht with hts | ht
        · rcases Set.mem_insert_iff.mp ht' with hts' | ht'
          · rw [hts, hts']
          · rw [hts] at heq
            exact absurd heq.symm (hold t' ht')
        · rcases Set.mem_insert_iff.mp ht' with hts' | ht'
          · rw [hts'] at heq
            exact absurd heq (hold t ht)
          · exact h.issued_inj t ht t' ht' heq
      · rw [hc.settled]
        exact h.settled_nodup
      · intro t ht
        rw [hc.settled] at ht
        rw [hc.token]
        have := h.settled_le t ht
        omega
      · intro _ t ht
        rw [hc.settled] at ht
        rw [hc.token]
        have := h.settled_le t ht
        omega
  | finish s hs => exact h.settle hs
  | discard s hs => exact h.settle hs
  | fail s hs => exact h.settle hs

/-! ## Snapshots and marks -/

/-- **A stored revision is what is marked up to its number**, and the
snapshot whose holder may still commit is everything marked. -/
structure Faithful (L : Ledger ε) : Prop where
  mark_pos : ∀ e r, L.held e (some r) → 0 < r
  mark_le : ∀ e r, L.held e (some r) → r ≤ L.next
  stored_le : ∀ s ∈ L.stored, s.revision ≤ L.top
  stored_items : ∀ s ∈ L.stored, ∀ e, e ∈ s.items ↔ ∃ r ≤ s.revision, L.held e (some r)
  current : ∀ s ∈ L.issued, s.token = L.token → L.pending ≠ none →
    ∀ e, e ∈ s.items ↔ ∃ r, L.held e (some r)

theorem Faithful.empty : Faithful (empty urgent) where
  mark_pos _ _ h := h.elim
  mark_le _ _ h := h.elim
  stored_le _ h := absurd h (Set.notMem_empty _)
  stored_items _ h := absurd h (Set.notMem_empty _)
  current _ h := absurd h (Set.notMem_empty _)

/-- A commit that stores nothing leaves the marks as they were. -/
theorem Faithful.settle {s : Snapshot ε} (h : Faithful L) (hs : Settle L L' s)
    (hlatest : L'.latest = L.latest) (hstored : L'.stored = L.stored) : Faithful L' := by
  refine ⟨hs.held ▸ h.mark_pos, ?_, ?_, ?_, ?_⟩
  · rw [hs.held, next_congr hlatest]
    exact h.mark_le
  · rw [hstored, top_congr hlatest]
    exact h.stored_le
  · rw [hstored, hs.held]
    exact h.stored_items
  · intro _ _ _ hne
    exact absurd hs.pending hne

/-- A finish stores the current snapshot, which is everything marked. -/
theorem Faithful.finish {s : Snapshot ε} (h : Faithful L) (hl : Leases L) (hs : Settle L L' s)
    (hlatest : L'.latest = some s.revision) (hstored : L'.stored = insert s L.stored) :
    Faithful L' := by
  have hrev : s.revision = L.next := hl.pending_eq _ hs.due
  have htop : L'.top = L.next := by rw [top, hlatest, Option.getD_some, hrev]
  have hpend : L.pending ≠ none := by rw [hs.due]; exact Option.some_ne_none _
  refine ⟨hs.held ▸ h.mark_pos, ?_, ?_, ?_, ?_⟩
  · intro e r hr
    rw [hs.held] at hr
    have := h.mark_le e r hr
    rw [Ledger.next, htop]
    omega
  · intro t ht
    rw [hstored] at ht
    rw [htop]
    rcases Set.mem_insert_iff.mp ht with rfl | ht
    · exact hrev.le
    · have := h.stored_le t ht
      rw [Ledger.next]
      omega
  · intro t ht e
    rw [hstored] at ht
    rw [hs.held]
    rcases Set.mem_insert_iff.mp ht with rfl | ht
    · rw [h.current t hs.mem hs.held_token hpend e]
      constructor
      · rintro ⟨r, hr⟩
        exact ⟨r, hrev ▸ h.mark_le e r hr, hr⟩
      · rintro ⟨r, -, hr⟩
        exact ⟨r, hr⟩
    · exact h.stored_items t ht e
  · intro _ _ _ hne
    exact absurd hs.pending hne

/-- A claim marks with the next number, above every stored revision. -/
theorem Faithful.claim {s : Snapshot ε} (h : Faithful L) (hl : Leases L)
    (hc : Claim cap L L' s) : Faithful L' := by
  have hnext := next_congr hc.latest
  refine ⟨?_, ?_, ?_, ?_, ?_⟩
  · intro e r hr
    obtain ⟨m₀, hm₀, heq⟩ := (hc.held e _).mp hr
    cases m₀ with
    | none =>
        have hr' : r = L.next := Option.some.inj heq
        exact hr' ▸ Nat.succ_pos _
    | some r₀ =>
        have hr₀ : r = r₀ := Option.some.inj heq
        exact hr₀ ▸ h.mark_pos e r₀ hm₀
  · intro e r hr
    obtain ⟨m₀, hm₀, heq⟩ := (hc.held e _).mp hr
    rw [hnext]
    cases m₀ with
    | none => exact (Option.some.inj heq).le
    | some r₀ =>
        have hr₀ : r = r₀ := Option.some.inj heq
        exact hr₀ ▸ h.mark_le e r₀ hm₀
  · rw [hc.stored, top_congr hc.latest]
    exact h.stored_le
  · intro t ht e
    rw [hc.stored] at ht
    rw [h.stored_items t ht e]
    constructor
    · rintro ⟨r, hle, hr⟩
      exact ⟨r, hle, (hc.held e _).mpr ⟨some r, hr, rfl⟩⟩
    · rintro ⟨r, hle, hr⟩
      obtain ⟨m₀, hm₀, heq⟩ := (hc.held e _).mp hr
      cases m₀ with
      | none =>
          -- a mark of this claim is the next number, which no stored revision has
          have hr' : r = L.next := Option.some.inj heq
          have := h.stored_le t ht
          rw [hr', Ledger.next] at hle
          omega
      | some r₀ =>
          have hr₀ : r = r₀ := Option.some.inj heq
          exact ⟨r, hle, hr₀ ▸ hm₀⟩
  · intro t ht htok _ e
    rw [hc.issued] at ht
    rw [hc.token] at htok
    rcases Set.mem_insert_iff.mp ht with rfl | ht
    · rw [hc.items e]
      constructor
      · rintro ⟨m, hm⟩
        exact ⟨m.getD L.next, (hc.held e _).mpr ⟨m, hm, rfl⟩⟩
      · rintro ⟨r, hr⟩
        obtain ⟨m₀, hm₀, -⟩ := (hc.held e _).mp hr
        exact ⟨m₀, hm₀⟩
    · have := hl.issued_le t ht
      omega

theorem Faithful.step (h : Faithful L) (hl : Leases L) (hs : Step cap L L') :
    Faithful L' := by
  cases hs with
  | arrive new ha =>
      have hsome : ∀ e r, L'.held e (some r) ↔ L.held e (some r) := by
        intro e r
        rw [ha.held]
        exact ⟨fun hr => hr.elim id fun hn => (Option.some_ne_none r hn.2).elim, Or.inl⟩
      refine ⟨fun e r hr => h.mark_pos e r ((hsome e r).mp hr), ?_, ?_, ?_, ?_⟩
      · intro e r hr
        rw [next_congr ha.latest]
        exact h.mark_le e r ((hsome e r).mp hr)
      · rw [ha.stored, top_congr ha.latest]
        exact h.stored_le
      · intro s hs e
        rw [ha.stored] at hs
        simp only [hsome]
        exact h.stored_items s hs e
      · intro s hs htok hne e
        rw [ha.issued] at hs
        rw [ha.token] at htok
        rw [ha.pending] at hne
        simp only [hsome]
        exact h.current s hs htok hne e
  | claim s hc => exact h.claim hl hc
  | finish s hs _ hlatest hstored => exact h.finish hl hs hlatest hstored
  | discard s hs _ _ hlatest hstored => exact h.settle hs hlatest hstored
  | fail s hs _ hlatest hstored => exact h.settle hs hlatest hstored

/-! ## Nothing urgent is forgotten -/

/-- **Urgent items outside the stored revisions are announced**: the
unmarked by `dirty`, the marked by `dirty` or the pending revision. -/
structure Covered (L : Ledger ε) : Prop where
  unmarked : ∀ e ∈ L.urgent, L.held e none → L.dirty = true
  marked : ∀ e r, L.held e (some r) → L.top < r → L.dirty = true ∨ L.pending ≠ none

theorem Covered.empty : Covered (empty urgent) where
  unmarked _ _ h := h.elim
  marked _ _ h := h.elim

theorem Covered.step (h : Covered L) (hf : Faithful L) (hl : Leases L)
    (hs : Step cap L L') : Covered L' := by
  cases hs with
  | arrive new ha =>
      refine ⟨?_, ?_⟩
      · intro e he hnone
        rcases (ha.held e none).mp hnone with hold | ⟨hnew, -⟩
        · exact ha.dirty (h.unmarked e ((ha.urgent e none hold).mp he) hold)
        · exact ha.noted e hnew he
      · intro e r hr hlt
        rw [top_congr ha.latest] at hlt
        rcases (ha.held e (some r)).mp hr with hold | ⟨-, habs⟩
        · rw [ha.pending]
          exact (h.marked e r hold hlt).imp ha.dirty id
        · cases habs
  | claim s hc =>
      refine ⟨?_, ?_⟩
      · intro e _ hnone
        obtain ⟨m₀, -, habs⟩ := (hc.held e none).mp hnone
        cases habs
      · intro e r _ _
        exact Or.inr (hc.pending ▸ Option.some_ne_none _)
  | finish s hs hdirty hlatest _ =>
      have hrev : s.revision = L.next := hl.pending_eq _ hs.due
      refine ⟨?_, ?_⟩
      · rw [hs.urgent, hs.held, hdirty]
        exact h.unmarked
      · intro e r hr hlt
        rw [hs.held] at hr
        rw [top, hlatest, Option.getD_some, hrev] at hlt
        exact absurd (hf.mark_le e r hr) (not_le.mpr hlt)
  | discard s hs hitems hdirty _ _ =>
      have hpend : L.pending ≠ none := by rw [hs.due]; exact Option.some_ne_none _
      refine ⟨?_, ?_⟩
      · rw [hs.urgent, hs.held, hdirty]
        exact h.unmarked
      · intro e r hr _
        -- the discarded snapshot is everything marked, and it was empty
        rw [hs.held] at hr
        have hmem : e ∈ s.items := (hf.current s hs.mem hs.held_token hpend e).mpr ⟨r, hr⟩
        rw [hitems] at hmem
        exact absurd hmem (Set.notMem_empty e)
  | fail s hs hdirty _ _ =>
      exact ⟨fun _ _ _ => hdirty, fun _ _ _ _ => Or.inl hdirty⟩

/-- **No urgent item is lost between revisions.** -/
theorem Covered.announced (h : Covered L) {e : ε} {m : Option ℕ} (he : e ∈ L.urgent)
    (hm : L.held e m) (hout : ∀ r, m = some r → L.top < r) :
    L.dirty = true ∨ L.pending ≠ none := by
  cases m with
  | none => exact Or.inl (h.unmarked e he hm)
  | some r => exact h.marked e r hm (hout r rfl)

/-! ## The history -/

/-- **The stored revisions are numbered without gap or duplicate, final
from the first final one on, and bounded.** The last field is what holds
of the claim that may still commit. -/
structure Linear (cap : ℕ) (L : Ledger ε) : Prop where
  pos : ∀ s ∈ L.stored, 0 < s.revision ∧ s.revision ≤ L.top
  exists_of_le : ∀ r, 0 < r → r ≤ L.top → ∃ s ∈ L.stored, s.revision = r
  unique : ∀ s ∈ L.stored, ∀ s' ∈ L.stored, s.revision = s'.revision → s = s'
  latest_pos : ∀ r, L.latest = some r → 0 < r
  final_up : ∀ s ∈ L.stored, ∀ s' ∈ L.stored, s.revision ≤ s'.revision →
    s.final = true → s'.final = true
  first_iff : ∀ s ∈ L.stored, s.first = true ↔
    s.final = true ∧ ∀ s' ∈ L.stored, s'.final = true → s.revision ≤ s'.revision
  ended : ∀ s ∈ L.stored, s.final = true → L.ended = true
  bounded : L.top ≤ cap ∨
    (L.top = cap + 1 ∧ ∃ s ∈ L.stored, s.revision = L.top ∧ s.first = true)
  current : ∀ s ∈ L.issued, s.token = L.token → L.pending ≠ none →
    (s.final = true → L.ended = true) ∧
    ((∃ t ∈ L.stored, t.final = true) → s.final = true) ∧
    (s.first = true ↔ s.final = true ∧ L.Unfinal) ∧
    (cap ≤ L.top → s.first = true)

theorem Linear.empty : Linear cap (empty urgent) where
  pos _ h := absurd h (Set.notMem_empty _)
  exists_of_le r hpos hle := absurd (hpos.trans_le hle) (lt_irrefl 0)
  unique _ h := absurd h (Set.notMem_empty _)
  latest_pos _ h := by cases h
  final_up _ h := absurd h (Set.notMem_empty _)
  first_iff _ h := absurd h (Set.notMem_empty _)
  ended _ h := absurd h (Set.notMem_empty _)
  bounded := Or.inl (Nat.zero_le cap)
  current _ h := absurd h (Set.notMem_empty _)

theorem unfinal_congr (h : L'.stored = L.stored) : L'.Unfinal ↔ L.Unfinal := by
  rw [Unfinal, Unfinal, h]

theorem not_unfinal : ¬ L.Unfinal ↔ ∃ s ∈ L.stored, s.final = true := by
  simp [Unfinal]

/-- Where nothing is stored and no claim is added, the history stands. -/
theorem Linear.congr (h : Linear cap L) (hlatest : L'.latest = L.latest)
    (hstored : L'.stored = L.stored) (hended : L.ended = true → L'.ended = true)
    (hcurrent : L'.pending ≠ none → L.pending ≠ none ∧ L'.token = L.token ∧
      L'.issued = L.issued) : Linear cap L' := by
  have htop := top_congr hlatest
  refine ⟨?_, ?_, ?_, ?_, ?_, ?_, ?_, ?_, ?_⟩
  · rw [hstored, htop]
    exact h.pos
  · rw [hstored, htop]
    exact h.exists_of_le
  · rw [hstored]
    exact h.unique
  · rw [hlatest]
    exact h.latest_pos
  · rw [hstored]
    exact h.final_up
  · rw [hstored]
    exact h.first_iff
  · rw [hstored]
    exact fun s hs hfin => hended (h.ended s hs hfin)
  · rw [hstored, htop]
    exact h.bounded
  · intro s hs htok hne
    obtain ⟨hne', htoken, hissued⟩ := hcurrent hne
    rw [hissued] at hs
    rw [htoken] at htok
    rw [hstored, htop, unfinal_congr hstored]
    obtain ⟨h₁, h₂, h₃, h₄⟩ := h.current s hs htok hne'
    exact ⟨fun hfin => hended (h₁ hfin), h₂, h₃, h₄⟩

/-- The claim a step makes is decided by the ledger it is made from. -/
theorem Linear.claim {s : Snapshot ε} (h : Linear cap L) (hl : Leases L)
    (hc : Claim cap L L' s) : Linear cap L' := by
  have htop := top_congr hc.latest
  refine ⟨?_, ?_, ?_, ?_, ?_, ?_, ?_, ?_, ?_⟩
  · rw [hc.stored, htop]
    exact h.pos
  · rw [hc.stored, htop]
    exact h.exists_of_le
  · rw [hc.stored]
    exact h.unique
  · rw [hc.latest]
    exact h.latest_pos
  · rw [hc.stored]
    exact h.final_up
  · rw [hc.stored]
    exact h.first_iff
  · rw [hc.stored, hc.ended]
    exact h.ended
  · rw [hc.stored, htop]
    exact h.bounded
  · intro t ht htok _
    rw [hc.issued] at ht
    rw [hc.token] at htok
    rcases Set.mem_insert_iff.mp ht with rfl | ht
    · rw [hc.stored, hc.ended, htop, unfinal_congr hc.stored]
      refine ⟨fun hfin => hc.final ▸ hfin, ?_, ?_, ?_⟩
      · rintro ⟨u, hu, hfin⟩
        rw [hc.final]
        exact h.ended u hu hfin
      · rw [hc.final]
        exact hc.first
      · intro hcap
        rcases hc.uncapped with hlt | hend
        · omega
        · exact hc.first.mpr hend
    · have := hl.issued_le t ht
      omega

/-- **A finish appends one revision.** It is final when an earlier one is,
first when none is, and past the cap only as the first final one. -/
theorem Linear.finish {s : Snapshot ε} (h : Linear cap L) (hl : Leases L)
    (hs : Settle L L' s) (hlatest : L'.latest = some s.revision)
    (hstored : L'.stored = insert s L.stored) : Linear cap L' := by
  have hpend : L.pending ≠ none := by rw [hs.due]; exact Option.some_ne_none _
  have hrev : s.revision = L.top + 1 := hl.pending_eq _ hs.due
  have htop : L'.top = L.top + 1 := by rw [top, hlatest, Option.getD_some, hrev]
  obtain ⟨hend, hup, hfirst, hcap⟩ := h.current s hs.mem hs.held_token hpend
  have hlt : ∀ t ∈ L.stored, t.revision < s.revision := by
    intro t ht
    have := (h.pos t ht).2
    omega
  refine ⟨?_, ?_, ?_, ?_, ?_, ?_, ?_, ?_, ?_⟩
  · -- the revisions reach from one to the new top
    intro t ht
    rw [hstored] at ht
    rw [htop]
    rcases Set.mem_insert_iff.mp ht with rfl | ht
    · omega
    · have := h.pos t ht
      omega
  · intro r hpos hle
    rw [htop] at hle
    rw [hstored]
    by_cases hr : r = L.top + 1
    · exact ⟨s, Set.mem_insert s _, hrev.trans hr.symm⟩
    · obtain ⟨t, ht, htr⟩ := h.exists_of_le r hpos (by omega)
      exact ⟨t, Set.mem_insert_of_mem s ht, htr⟩
  · -- the new revision is above every other, so no two share a number
    intro t ht t' ht' heq
    rw [hstored] at ht ht'
    rcases Set.mem_insert_iff.mp ht with hts | ht
    · rcases Set.mem_insert_iff.mp ht' with hts' | ht'
      · rw [hts, hts']
      · have := hlt t' ht'
        rw [hts] at heq
        omega
    · rcases Set.mem_insert_iff.mp ht' with hts' | ht'
      · have := hlt t ht
        rw [hts'] at heq
        omega
      · exact h.unique t ht t' ht' heq
  · intro r hr
    rw [hlatest] at hr
    have := Option.some.inj hr
    omega
  · -- once final, always: the snapshot was taken of a final state
    intro t ht t' ht' hle hfin
    rw [hstored] at ht ht'
    rcases Set.mem_insert_iff.mp ht with rfl | hold
    · rcases Set.mem_insert_iff.mp ht' with rfl | hold'
      · exact hfin
      · have := hlt t' hold'
        omega
    · rcases Set.mem_insert_iff.mp ht' with rfl | hold'
      · exact hup ⟨t, hold, hfin⟩
      · exact h.final_up t hold t' hold' hle hfin
  · intro t ht
    rw [hstored] at ht ⊢
    rcases Set.mem_insert_iff.mp ht with rfl | hold
    · -- the first final one is final while all before are not
      rw [hfirst]
      refine and_congr_right fun _ => ⟨fun hun u hu hfin => ?_, fun hall u hu => ?_⟩
      · rcases Set.mem_insert_iff.mp hu with rfl | hu
        · exact le_rfl
        · exact absurd hfin (by rw [hun u hu]; exact Bool.false_ne_true)
      · by_contra hfin
        have := hall u (Set.mem_insert_of_mem _ hu) (Bool.eq_true_of_not_eq_false hfin)
        have := hlt u hu
        omega
    · rw [h.first_iff t hold]
      refine and_congr_right fun _ => ⟨fun hall u hu hfin => ?_, fun hall u hu hfin => ?_⟩
      · rcases Set.mem_insert_iff.mp hu with rfl | hu
        · exact (hlt t hold).le
        · exact hall u hu hfin
      · exact hall u (Set.mem_insert_of_mem _ hu) hfin
  · intro t ht hfin
    rw [hstored] at ht
    rw [hs.ended]
    rcases Set.mem_insert_iff.mp ht with rfl | ht
    · exact hend hfin
    · exact h.ended t ht hfin
  · rw [htop]
    by_cases hlt' : L.top < cap
    · exact Or.inl hlt'
    · have hfst : s.first = true := hcap (by omega)
      refine Or.inr ⟨?_, s, hstored ▸ Set.mem_insert s _, hrev, hfst⟩
      rcases h.bounded with hle | ⟨-, t, ht, -, htf⟩
      · omega
      · -- a revision past the cap is the first final one, and there is one only
        have hfin := ((h.first_iff t ht).mp htf).1
        rw [(hfirst.mp hfst).2 t ht] at hfin
        cases hfin
  · intro _ _ _ hne
    exact absurd hs.pending hne

theorem Linear.step (h : Linear cap L) (hl : Leases L) (hs : Step cap L L') :
    Linear cap L' := by
  cases hs with
  | arrive new ha =>
      refine h.congr ha.latest ha.stored ha.ended fun hne => ?_
      rw [ha.pending] at hne
      exact ⟨hne, ha.token, ha.issued⟩
  | claim s hc => exact h.claim hl hc
  | finish s hs _ hlatest hstored => exact h.finish hl hs hlatest hstored
  | discard s hs _ _ hlatest hstored =>
      exact h.congr hlatest hstored (fun he => hs.ended ▸ he) fun hne =>
        absurd hs.pending hne
  | fail s hs _ hlatest hstored =>
      exact h.congr hlatest hstored (fun he => hs.ended ▸ he) fun hne =>
        absurd hs.pending hne

/-! ## All four -/

/-- The invariants of a ledger. -/
structure Sound (cap : ℕ) (L : Ledger ε) : Prop where
  leases : Leases L
  faithful : Faithful L
  covered : Covered L
  linear : Linear cap L

theorem Sound.empty : Sound cap (empty urgent) :=
  ⟨Leases.empty, Faithful.empty, Covered.empty, Linear.empty⟩

/-- **A sound ledger stays sound.** -/
theorem Sound.step (h : Sound cap L) (hs : Step cap L L') : Sound cap L' :=
  ⟨h.leases.step hs, h.faithful.step h.leases hs, h.covered.step h.faithful h.leases hs,
    h.linear.step h.leases hs⟩

end Ledger

end Snapshots
