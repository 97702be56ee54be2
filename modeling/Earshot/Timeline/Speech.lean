import Mathlib.Algebra.BigOperators.Group.Finset.Sigma
import Mathlib.Algebra.Order.Ring.Rat
import Mathlib.Data.Int.ConditionallyCompleteOrder
import Mathlib.Data.Int.Interval
import Mathlib.Data.Int.Cast.Lemmas
import Mathlib.Algebra.BigOperators.Group.List.Basic
import Mathlib.Algebra.BigOperators.Ring.Finset
import Mathlib.Algebra.Order.BigOperators.Group.List
import Mathlib.Tactic.Linarith
import Mathlib.Tactic.Ring
import Earshot.Common.Intervals
import Earshot.Timeline.Signals
/-!
# What the signals mean

Each channel speaks on the union of its runs. A signal is a number of the
maximal runs of the two unions, of all pairs of them, or of the maximal gaps
between them; no order of the runs and no sweep is in it.
-/

namespace Earshot.CallTimeline

open Bisect Intervals

/-- Times of a timeline, among the points between them. -/
def onLine : ℤ ↪o ℚ := OrderEmbedding.ofStrictMono (fun time => (time : ℚ)) Int.cast_strictMono

/-- The intervals of a channel's runs. -/
def channel (runs : List Run) : List (ℤ × ℤ) := runs.map fun run => (run.startMs, run.endMs)

section Specification

open Classical

/-- The maximal runs of a channel: its union's maximal intervals. -/
noncomputable def maximalRuns (runs : List Run) : Finset (ℤ × ℤ) :=
  ((runs.map Run.startMs).toFinset ×ˢ (runs.map Run.endMs).toFinset).filter fun m =>
    IsMaximal onLine (channel runs) m.1 m.2

/-- The milliseconds a channel speaks in, each by its start. -/
noncomputable def spokenMs (runs : List Run) : Finset ℤ :=
  runs.toFinset.biUnion fun run => Finset.Ico run.startMs run.endMs

/-- The maximal silences between the first and the last speech. -/
noncomputable def silences (user agent : List Run) : Finset (ℤ × ℤ) :=
  (((user ++ agent).map Run.endMs).toFinset ×ˢ ((user ++ agent).map Run.startMs).toFinset).filter
    fun gap => IsGap onLine (channel (user ++ agent)) gap.1 gap.2

/-- The intersection of two maximal runs, when it is long enough. -/
def overlapMs (u a : ℤ × ℤ) : ℤ :=
  if MIN_OVERLAP_MS ≤ min u.2 a.2 - max u.1 a.1 then min u.2 a.2 - max u.1 a.1 else 0

/-- The user starts inside the agent's run, past its edge, and yields nothing
to it only when short while the agent goes on. -/
def BargesIn (u a : ℤ × ℤ) : Prop :=
  a.1 + EDGE_GUARD_MS < u.1 ∧ u.1 < a.2 ∧
    ¬ (u.2 - u.1 < BACKCHANNEL_MAX_MS ∧ u.1 + YIELD_WINDOW_MS < a.2)

def TalksOver (u a : ℤ × ℤ) : Prop := u.1 + EDGE_GUARD_MS < a.1 ∧ a.1 < u.2

/-- A silence the agent owns ends as it starts to speak. It is long after the
user, who ends at the silence's start even when the agent does too, and
longer after the agent alone. -/
def Owned (user agent : Finset (ℤ × ℤ)) (gap : ℤ × ℤ) : Prop :=
  (∃ a ∈ agent, a.1 = gap.2) ∧
    (((∃ u ∈ user, u.2 = gap.1) ∧ DEAD_AIR_RESPONSE_MS ≤ gap.2 - gap.1) ∨
      ((¬ ∃ u ∈ user, u.2 = gap.1) ∧ DEAD_AIR_IN_TURN_MS ≤ gap.2 - gap.1))

/-- The agent alone speaks first, and late. -/
def Greets (user agent : Finset (ℤ × ℤ)) (a : ℤ × ℤ) : Prop :=
  (∀ b ∈ agent, a.1 ≤ b.1) ∧ (∀ u ∈ user, a.1 < u.1) ∧ DEAD_AIR_RESPONSE_MS ≤ a.1

/-- **The signals of two unions.** -/
noncomputable def naiveSignals (user agent : List Run) : Signals :=
  let pairs := maximalRuns user ×ˢ maximalRuns agent
  { talkTimeUserMs := (spokenMs user).card
    talkTimeAgentMs := (spokenMs agent).card
    overlapMs := ∑ p ∈ pairs, overlapMs p.1 p.2
    bargeInCount := (pairs.filter fun p => BargesIn p.1 p.2).card
    talkOverCount := (pairs.filter fun p => TalksOver p.1 p.2).card
    longSilenceCount :=
      ((silences user agent).filter fun gap => LONG_SILENCE_MS ≤ gap.2 - gap.1).card
    deadAirMs :=
      ∑ gap ∈ (silences user agent).filter (Owned (maximalRuns user) (maximalRuns agent)),
          (gap.2 - gap.1) +
        ∑ a ∈ (maximalRuns agent).filter (Greets (maximalRuns user) (maximalRuns agent)), a.1 }

theorem mem_maximalRuns {runs : List Run} {m : ℤ × ℤ} : m ∈ maximalRuns runs ↔
    (m.1 ∈ runs.map Run.startMs ∧ m.2 ∈ runs.map Run.endMs) ∧
      IsMaximal onLine (channel runs) m.1 m.2 := by
  simp only [maximalRuns, Finset.mem_filter, Finset.mem_product, List.mem_toFinset]

theorem mem_silences {user agent : List Run} {gap : ℤ × ℤ} : gap ∈ silences user agent ↔
    (gap.1 ∈ (user ++ agent).map Run.endMs ∧ gap.2 ∈ (user ++ agent).map Run.startMs) ∧
      IsGap onLine (channel (user ++ agent)) gap.1 gap.2 := by
  simp only [silences, Finset.mem_filter, Finset.mem_product, List.mem_toFinset]

end Specification

/-! ## Coalesced runs -/

def Run.interval (run : Run) : ℤ × ℤ := (run.startMs, run.endMs)

/-- `_coalesce` as a sweep. -/
def runSweep : Sweep Run Run ℤ where
  low := Run.startMs
  high := Run.endMs
  groupLow := Run.startMs
  groupHigh := Run.endMs
  start run := run
  absorb previous run :=
    if previous.endMs < run.endMs then
      ⟨previous.startMs, run.endMs, previous.startSigmaMs, run.endSigmaMs⟩
    else previous
  low_start _ := rfl
  high_start _ := rfl
  low_absorb _ _ := by split <;> rfl
  high_absorb previous run := by
    split
    · rename_i hlt
      exact (max_eq_right hlt.le).symm
    · rename_i hge
      exact (max_eq_left (not_lt.mp hge)).symm

theorem coalesceStep_eq : coalesceStep = runSweep.step := by
  funext result run
  cases result with
  | nil => rfl
  | cons previous result =>
    rw [coalesceStep, Sweep.step]
    show _ = if previous.endMs < run.startMs then _ else
      (if previous.endMs < run.endMs then _ else _) :: result
    split
    · rfl
    · split <;> rfl

/-- **What a channel's coalesced runs are.** -/
structure Coalesced (runs maximal : List Run) : Prop where
  separated : maximal.Pairwise fun r r' => r.endMs < r'.startMs
  le : ∀ r ∈ maximal, r.startMs ≤ r.endMs
  covered : ∀ x, Covered onLine (channel runs) x ↔ Covered onLine (channel maximal) x
  mem_iff : ∀ m, m ∈ maximalRuns runs ↔ ∃ r ∈ maximal, r.interval = m

theorem start_le_of_sortKey {r r' : Run} (h : r.sortKey ≤ r'.sortKey) : r.startMs ≤ r'.startMs := by
  rcases Prod.Lex.toLex_le_toLex.mp h with hlt | ⟨heq, -⟩
  · exact hlt.le
  · exact heq.le

theorem coalesced (runs : List Run) (hle : ∀ r ∈ runs, r.startMs ≤ r.endMs) :
    Coalesced runs (coalesce runs) := by
  have hswept : Swept onLine runSweep (sortedBy Run.sortKey runs)
      ((sortedBy Run.sortKey runs).foldl runSweep.step []) :=
    Swept.run ((pairwise_sortedBy Run.sortKey runs).imp fun h => start_le_of_sortKey h)
      fun r hr => hle r (mem_sortedBy.mp hr)
  have hruns : coalesce runs =
      ((sortedBy Run.sortKey runs).foldl runSweep.step []).reverse := by
    rw [coalesce, coalesceStep_eq]
  have hchannel : ∀ x, Covered onLine (channel runs) x ↔
      Covered onLine ((sortedBy Run.sortKey runs).map runSweep.interval) x :=
    covered_perm (perm_sortedBy.symm.map _)
  have hmem : ∀ r, r ∈ coalesce runs ↔ r ∈ (sortedBy Run.sortKey runs).foldl runSweep.step [] :=
    fun r => by rw [hruns, List.mem_reverse]
  refine ⟨?_, fun r hr => hswept.le r ((hmem r).mp hr), fun x => ?_, fun m => ?_⟩
  · rw [hruns, List.pairwise_reverse]
    exact hswept.separated
  · rw [hchannel, hswept.covered_iff]
    constructor
    · rintro ⟨g, hg, hx⟩
      exact ⟨_, List.mem_map.mpr ⟨g, (hmem g).mpr hg, rfl⟩, hx⟩
    · rintro ⟨_, hm, hx⟩
      obtain ⟨g, hg, rfl⟩ := List.mem_map.mp hm
      exact ⟨g, (hmem g).mp hg, hx⟩
  · rw [mem_maximalRuns, IsMaximal.congr hchannel]
    constructor
    · rintro ⟨-, hmax⟩
      obtain ⟨g, hg, hlow, hhigh⟩ := hswept.mem_of_isMaximal hmax
      exact ⟨g, (hmem g).mpr hg, Prod.ext hlow hhigh⟩
    · rintro ⟨g, hg, rfl⟩
      have hg := (hmem g).mp hg
      obtain ⟨r, hr, hlow⟩ := hswept.low_mem g hg
      obtain ⟨r', hr', hhigh⟩ := hswept.high_mem g hg
      exact ⟨⟨List.mem_map.mpr ⟨r, mem_sortedBy.mp hr, hlow⟩,
        List.mem_map.mpr ⟨r', mem_sortedBy.mp hr', hhigh⟩⟩, hswept.isMaximal hg⟩

namespace Coalesced

variable {runs maximal : List Run}

/-- The ends of a maximal run are ends of runs. -/
theorem ends (h : Coalesced runs maximal) (r : Run) (hr : r ∈ maximal) :
    r.startMs ∈ runs.map Run.startMs ∧ r.endMs ∈ runs.map Run.endMs :=
  (mem_maximalRuns.mp ((h.mem_iff r.interval).mpr ⟨r, hr, rfl⟩)).1

theorem nodup (h : Coalesced runs maximal) : (maximal.map Run.interval).Nodup := by
  refine List.pairwise_map.mpr (h.separated.imp_of_mem fun hr _ hlt heq => ?_)
  have hle := h.le _ hr
  have hstart := congrArg Prod.fst heq
  simp only [Run.interval] at hstart
  omega

theorem maximalRuns_eq (h : Coalesced runs maximal) :
    maximalRuns runs = (maximal.map Run.interval).toFinset := by
  ext m
  rw [h.mem_iff, List.mem_toFinset, List.mem_map]

/-- A sum over the maximal runs. -/
theorem sum_eq {M : Type*} [AddCommMonoid M] (h : Coalesced runs maximal) (f : ℤ × ℤ → M) :
    ∑ m ∈ maximalRuns runs, f m = (maximal.map fun r => f r.interval).sum := by
  rw [h.maximalRuns_eq, List.sum_toFinset f h.nodup, List.map_map]
  rfl

theorem sorted (h : Coalesced runs maximal) :
    maximal.Pairwise fun r r' => r.startMs ≤ r'.startMs :=
  h.separated.imp_of_mem fun hr _ hlt => (h.le _ hr).trans hlt.le

theorem eq_or_separated (h : Coalesced runs maximal) {r r' : Run} (hr : r ∈ maximal)
    (hr' : r' ∈ maximal) : r = r' ∨ r.endMs < r'.startMs ∨ r'.endMs < r.startMs := by
  have hsymm : Std.Symm fun r r' : Run => r.endMs < r'.startMs ∨ r'.endMs < r.startMs :=
    ⟨fun _ _ => Or.symm⟩
  have hpair : maximal.Pairwise fun r r' => r.endMs < r'.startMs ∨ r'.endMs < r.startMs :=
    h.separated.imp fun hlt => Or.inl hlt
  by_cases heq : r = r'
  · exact Or.inl heq
  · exact Or.inr (hpair.forall hr hr' heq)

/-! ### Talk time -/

/-- A millisecond is spoken in when the point in its middle is covered. -/
theorem mem_spokenMs {runs : List Run} {time : ℤ} :
    time ∈ spokenMs runs ↔ Covered onLine (channel runs) ((time : ℚ) + 1 / 2) := by
  have hlow : ∀ start : ℤ, (start : ℚ) ≤ time + 1 / 2 ↔ start ≤ time := by
    intro start
    constructor
    · intro h
      by_contra hlt
      have hnext : ((time + 1 : ℤ) : ℚ) ≤ start := Int.cast_le.mpr (by omega)
      push_cast at hnext
      linarith
    · intro h
      have hcast : (start : ℚ) ≤ time := Int.cast_le.mpr h
      linarith
  have hhigh : ∀ stop : ℤ, (time : ℚ) + 1 / 2 ≤ stop ↔ time < stop := by
    intro stop
    constructor
    · intro h
      by_contra hge
      have hcast : (stop : ℚ) ≤ time := Int.cast_le.mpr (not_lt.mp hge)
      linarith
    · intro h
      have hnext : ((time + 1 : ℤ) : ℚ) ≤ stop := Int.cast_le.mpr h
      push_cast at hnext
      linarith
  rw [spokenMs, Finset.mem_biUnion]
  constructor
  · rintro ⟨run, hrun, htime⟩
    obtain ⟨hstart, hstop⟩ := Finset.mem_Ico.mp htime
    exact ⟨_, List.mem_map_of_mem (List.mem_toFinset.mp hrun), (hlow _).mpr hstart,
      (hhigh _).mpr hstop⟩
  · rintro ⟨_, hmem, hstart, hstop⟩
    obtain ⟨run, hrun, rfl⟩ := List.mem_map.mp hmem
    exact ⟨run, List.mem_toFinset.mpr hrun,
      Finset.mem_Ico.mpr ⟨(hlow _).mp hstart, (hhigh _).mp hstop⟩⟩

/-- **Talk time is the length of the union.** -/
theorem talkTime_eq (h : Coalesced runs maximal) : talkTime maximal = (spokenMs runs).card := by
  have hsame : spokenMs runs = spokenMs maximal := by
    ext time
    rw [mem_spokenMs, mem_spokenMs, h.covered]
  have hnodup : maximal.Nodup := List.Nodup.of_map Run.interval h.nodup
  have hdisjoint : ∀ r ∈ maximal.toFinset, ∀ r' ∈ maximal.toFinset, r ≠ r' →
      Disjoint (Finset.Ico r.startMs r.endMs) (Finset.Ico r'.startMs r'.endMs) := by
    intro r hr r' hr' hne
    rw [Finset.disjoint_left]
    intro time htime htime'
    rw [Finset.mem_Ico] at htime htime'
    rcases h.eq_or_separated (List.mem_toFinset.mp hr) (List.mem_toFinset.mp hr') with heq | hlt | hlt
    · exact hne heq
    · omega
    · omega
  rw [hsame, spokenMs, Finset.card_biUnion hdisjoint, List.sum_toFinset _ hnodup, Nat.cast_list_sum,
    List.map_map, talkTime]
  congr 1
  refine List.map_congr_left fun r hr => ?_
  have hle := h.le r hr
  rw [Function.comp_apply, Int.card_Ico, Int.toNat_of_nonneg (by omega)]

/-! ### Overlap -/

/-- Runs that are apart count for no overlap. -/
theorem overlapOf_eq_zero {u a : Run} (h : u.endMs < a.startMs ∨ a.endMs < u.startMs) :
    overlapOf u a = 0 := by
  have hmin := min_le_left u.endMs a.endMs
  have hmin' := min_le_right u.endMs a.endMs
  have hmax := le_max_left u.startMs a.startMs
  have hmax' := le_max_right u.startMs a.startMs
  rw [overlapOf, if_neg]
  unfold MIN_OVERLAP_MS
  omega

/-- **The sweep sums over all pairs**: a run it leaves meets no later run. -/
theorem overlap_eq (user agent : List Run)
    (huser : user.Pairwise fun r r' => r.endMs < r'.startMs)
    (hagent : agent.Pairwise fun r r' => r.endMs < r'.startMs) :
    overlap user agent = (user.map fun u => (agent.map (overlapOf u)).sum).sum := by
  induction user, agent using overlap.induct with
  | case1 u user a agent ih₁ ih₂ ih₃ =>
    obtain ⟨hu, huser'⟩ := List.pairwise_cons.mp huser
    obtain ⟨ha, hagent'⟩ := List.pairwise_cons.mp hagent
    have hlater : u.endMs ≤ a.endMs → (agent.map (overlapOf u)).sum = 0 := fun hle => by
      refine List.sum_eq_zero fun x hx => ?_
      obtain ⟨a', ha', rfl⟩ := List.mem_map.mp hx
      exact overlapOf_eq_zero (Or.inl (by have := ha a' ha'; omega))
    have hlater' : a.endMs ≤ u.endMs → (user.map (overlapOf · a)).sum = 0 := fun hle => by
      refine List.sum_eq_zero fun x hx => ?_
      obtain ⟨u', hu', rfl⟩ := List.mem_map.mp hx
      exact overlapOf_eq_zero (Or.inr (by have := hu u' hu'; omega))
    have hsplit : (user.map fun u => ((a :: agent).map (overlapOf u)).sum).sum =
        (user.map (overlapOf · a)).sum + (user.map fun u => (agent.map (overlapOf u)).sum).sum := by
      rw [← List.sum_map_add]
      rfl
    rw [overlap, List.map_cons, List.sum_cons, List.map_cons, List.sum_cons]
    split
    · rename_i hlt
      rw [ih₁ huser' hagent, hlater hlt.le, add_zero]
    · split
      · rename_i hlt
        rw [ih₂ huser hagent', hsplit, hlater' hlt.le, List.map_cons, List.sum_cons]
        ring
      · have heq : u.endMs = a.endMs := by omega
        rw [ih₃ huser' hagent', hsplit, hlater heq.le, hlater' heq.ge]
        ring
  | case2 user agent hnil =>
    rw [overlap.eq_2 _ _ hnil]
    refine (List.sum_eq_zero fun x hx => ?_).symm
    obtain ⟨u, hu, rfl⟩ := List.mem_map.mp hx
    obtain ⟨u', user', rfl⟩ := List.exists_cons_of_ne_nil (List.ne_nil_of_mem hu)
    cases agent with
    | nil => rfl
    | cons a agent => exact (hnil u' user' a agent rfl rfl).elim

/-! ### Starts -/

theorem startedBy_eq (h : Coalesced runs maximal) (time : ℤ) :
    startedBy maximal time = lastAt Run.startMs maximal time := by
  rw [lastAt, sortedBy_eq_self h.sorted]
  rfl

/-- **One probe answers for all**: of the maximal runs that are going on at a
time, there is at most the one probed. -/
theorem countP_eq (h : Coalesced runs maximal) {P : Run → Bool} {time : ℤ}
    (hP : ∀ r, P r = true → r.startMs ≤ time ∧ time < r.endMs) :
    maximal.countP P = if (startedBy maximal time).any P then 1 else 0 := by
  have hnodup : maximal.Nodup := List.Nodup.of_map Run.interval h.nodup
  rw [h.startedBy_eq]
  cases hprobe : lastAt Run.startMs maximal time with
  | none =>
    refine List.countP_eq_zero.mpr fun r hr hPr => ?_
    have hlater := lastAt_eq_none.mp hprobe r hr
    have hgoing := hP r hPr
    omega
  | some a =>
    obtain ⟨ha, hstart, hlast⟩ := mem_lastAt hprobe
    have honly : ∀ r ∈ maximal, P r = true → r = a := by
      intro r hr hPr
      have hgoing := hP r hPr
      have hle := hlast r hr hgoing.1
      have hra := h.le a ha
      rcases h.eq_or_separated hr ha with heq | hlt | hlt
      · exact heq
      · omega
      · omega
    rw [Option.any_some]
    split
    · rename_i hPa
      rw [← List.count_eq_one_of_mem hnodup ha, List.count]
      refine List.countP_congr fun r hr => ?_
      rw [beq_iff_eq]
      exact ⟨honly r hr, fun heq => heq ▸ hPa⟩
    · rename_i hPa
      exact List.countP_eq_zero.mpr fun r hr hPr => hPa (honly r hr hPr ▸ hPr)

end Coalesced

theorem bargesIn_iff {u a : Run} : bargesIn u a = true ↔ BargesIn u.interval a.interval := by
  simp only [bargesIn, backchannel, BargesIn, Run.interval, Bool.and_eq_true, Bool.not_eq_true',
    Bool.and_eq_false_iff, decide_eq_true_eq, decide_eq_false_iff_not, and_assoc, not_and_or]

theorem talksOver_iff {u a : Run} : talksOver u a = true ↔ TalksOver u.interval a.interval := by
  simp only [talksOver, TalksOver, Run.interval, Bool.and_eq_true, decide_eq_true_eq]

/-! ## Groups -/

def Event.interval (event : Event) : ℤ × ℤ := (event.start, event.stop)

/-- `_speech_groups` as a sweep. -/
def groupSweep : Sweep Event Group ℤ where
  low := Event.start
  high := Event.stop
  groupLow := Group.start
  groupHigh := Group.stop
  start event := ⟨event.start, event.stop, event.speaker, event.speaker = .agent⟩
  absorb := Group.absorb
  low_start _ := rfl
  high_start _ := rfl
  low_absorb group event := by
    unfold Group.absorb
    dsimp only
    split <;> split <;> first | rfl | (split <;> rfl)
  high_absorb group event := by
    unfold Group.absorb
    dsimp only
    split <;> split <;> rename_i hstop
    · exact (max_eq_right hstop.le).symm
    · split <;> exact (max_eq_left (not_lt.mp hstop)).symm
    · exact (max_eq_right hstop.le).symm
    · split <;> exact (max_eq_left (not_lt.mp hstop)).symm

theorem groupStep_eq : groupStep = groupSweep.step := by
  funext groups event
  cases groups <;> rfl

/-- **What a group records** of the events so far: the user ends it if any
user run ends where it does, and an agent run begins it if one starts where
it does. -/
structure Tagged (done : List Event) (group : Group) : Prop where
  last : group.last = .user ↔ ∃ e ∈ done, e.speaker = .user ∧ e.stop = group.stop
  first : group.agentAtStart = true ↔ ∃ e ∈ done, e.speaker = .agent ∧ e.start = group.start

/-- An event after a group says nothing of it. -/
theorem Tagged.before {done : List Event} {group : Group} {event : Event} (h : Tagged done group)
    (hle : group.start ≤ group.stop) (hevent : event.start ≤ event.stop)
    (hafter : group.stop < event.start) : Tagged (done ++ [event]) group where
  last := by
    rw [h.last]
    simp only [List.mem_append, List.mem_singleton, or_and_right, exists_or, exists_eq_left]
    exact (or_iff_left fun hno => by omega).symm
  first := by
    rw [h.first]
    simp only [List.mem_append, List.mem_singleton, or_and_right, exists_or, exists_eq_left]
    exact (or_iff_left fun hno => by omega).symm

/-- The group an event opens, after all others. -/
theorem Tagged.opened {done : List Event} {event : Event} (hevent : event.start ≤ event.stop)
    (hafter : ∀ e ∈ done, e.stop < event.start) (hdone : ∀ e ∈ done, e.start ≤ e.stop) :
    Tagged (done ++ [event])
      ⟨event.start, event.stop, event.speaker, event.speaker = .agent⟩ where
  last := by
    simp only [List.mem_append, List.mem_singleton, or_and_right, exists_or, exists_eq_left,
      and_true]
    refine (or_iff_right ?_).symm
    rintro ⟨e, he, -, hstop⟩
    have := hafter e he
    omega
  first := by
    simp only [List.mem_append, List.mem_singleton, or_and_right, exists_or, exists_eq_left,
      and_true, decide_eq_true_eq]
    refine (or_iff_right ?_).symm
    rintro ⟨e, he, -, hstart⟩
    have := hafter e he
    have := hdone e he
    omega

/-- The last group, which an event joins. -/
theorem Tagged.absorb {done : List Event} {group : Group} {event : Event} (h : Tagged done group)
    (hstop : ∀ e ∈ done, e.stop ≤ group.stop) : Tagged (done ++ [event]) (group.absorb event) where
  last := by
    have hlast := h.last
    simp only [List.mem_append, List.mem_singleton, or_and_right, exists_or, exists_eq_left]
    have hparts : (group.absorb event).last = (if group.stop < event.stop then event.speaker
        else if event.stop = group.stop ∧ event.speaker = .user ∧ group.last = .agent then .user
        else group.last) ∧ (group.absorb event).stop = max group.stop event.stop := by
      refine ⟨?_, groupSweep.high_absorb group event⟩
      unfold Group.absorb
      dsimp only
      split <;> split <;> first | rfl | (split <;> rfl)
    rw [hparts.1, hparts.2]
    by_cases hlt : group.stop < event.stop
    · rw [if_pos hlt, max_eq_right hlt.le]
      refine ⟨fun hs => Or.inr ⟨hs, rfl⟩, ?_⟩
      rintro (⟨e, he, -, heq⟩ | ⟨hs, -⟩)
      · have := hstop e he
        omega
      · exact hs
    · rw [if_neg hlt, max_eq_left (not_lt.mp hlt)]
      split
      · rename_i htie
        exact ⟨fun _ => Or.inr ⟨htie.2.1, htie.1⟩, fun _ => rfl⟩
      · rename_i htie
        rw [hlast]
        refine ⟨Or.inl, ?_⟩
        rintro (he | ⟨hs, heq⟩)
        · exact he
        · refine hlast.mp ?_
          cases hgroup : group.last with
          | user => rfl
          | agent => exact absurd ⟨heq, hs, hgroup⟩ htie
  first := by
    have hfirst := h.first
    simp only [List.mem_append, List.mem_singleton, or_and_right, exists_or, exists_eq_left]
    have hparts : (group.absorb event).agentAtStart =
        (decide (event.start = group.start ∧ event.speaker = .agent) || group.agentAtStart) ∧
          (group.absorb event).start = group.start := by
      refine ⟨?_, groupSweep.low_absorb group event⟩
      unfold Group.absorb
      dsimp only
      split
      · rename_i hstart
        rw [decide_eq_true hstart, Bool.true_or]
        split <;> first | rfl | (split <;> rfl)
      · rename_i hstart
        rw [decide_eq_false hstart, Bool.false_or]
        split <;> first | rfl | (split <;> rfl)
    rw [hparts.1, hparts.2, Bool.or_eq_true, decide_eq_true_eq, hfirst]
    constructor
    · rintro (⟨hstart, hs⟩ | he)
      · exact Or.inr ⟨hs, hstart⟩
      · exact Or.inl he
    · rintro (he | ⟨hs, hstart⟩)
      · exact Or.inr he
      · exact Or.inl ⟨hstart, hs⟩

/-- **Every group of a sweep is tagged.** -/
theorem tagged_step {done : List Event} {groups : List Group} {event : Event}
    (hswept : Swept onLine groupSweep done groups) (h : ∀ g ∈ groups, Tagged done g)
    (hdone : ∀ e ∈ done, e.start ≤ e.stop) (hevent : event.start ≤ event.stop)
    (hsorted : ∀ e ∈ done, e.start ≤ event.start) :
    ∀ g ∈ groupSweep.step groups event, Tagged (done ++ [event]) g := by
  cases groups with
  | nil =>
    have hnil : done = [] := List.eq_nil_iff_forall_not_mem.mpr fun e he => by
      obtain ⟨g, hg, -⟩ := hswept.within e he
      exact absurd hg List.not_mem_nil
    intro g hg
    rw [List.mem_singleton.mp hg, hnil]
    exact Tagged.opened hevent (fun _ he => absurd he List.not_mem_nil)
      fun _ he => absurd he List.not_mem_nil
  | cons g₀ groups =>
    obtain ⟨hbefore, -⟩ := List.pairwise_cons.mp hswept.separated
    have hle₀ : g₀.start ≤ g₀.stop := hswept.le g₀ List.mem_cons_self
    have hstop : ∀ e ∈ done, e.stop ≤ g₀.stop := by
      intro e he
      obtain ⟨g, hg, -, hge⟩ := hswept.within e he
      have hge : e.stop ≤ g.stop := hge
      rcases List.mem_cons.mp hg with rfl | hg
      · exact hge
      · have hlt : g.stop < g₀.start := hbefore g hg
        omega
    intro g hg
    rw [Sweep.step] at hg
    split at hg
    · rename_i hafter
      have hafter : g₀.stop < event.start := hafter
      rcases List.mem_cons.mp hg with rfl | hg
      · exact Tagged.opened hevent (fun e he => (hstop e he).trans_lt hafter) hdone
      · have hgstop : g.stop < event.start := by
          rcases List.mem_cons.mp hg with rfl | hg
          · exact hafter
          · have hlt : g.stop < g₀.start := hbefore g hg
            omega
        exact (h g hg).before (hswept.le g hg) hevent hgstop
    · rename_i hmeets
      rcases List.mem_cons.mp hg with rfl | hg
      · exact (h g₀ List.mem_cons_self).absorb hstop
      · obtain ⟨e, he, hstart⟩ := hswept.low_mem g₀ List.mem_cons_self
        have hstart : e.start = g₀.start := hstart
        have hlt : g.stop < g₀.start := hbefore g hg
        have hle := hsorted e he
        exact (h g (List.mem_cons_of_mem _ hg)).before
          (hswept.le g (List.mem_cons_of_mem _ hg)) hevent (by omega)

/-- **After a sweep** the groups are those of the union, and tagged. -/
theorem tagged_run {l : List Event} (hsorted : l.Pairwise fun e e' => e.start ≤ e'.start)
    (hle : ∀ e ∈ l, e.start ≤ e.stop) :
    ∀ g ∈ l.foldl groupSweep.step [], Tagged l g := by
  induction l using List.reverseRecOn with
  | nil => exact fun _ hg => absurd hg List.not_mem_nil
  | append_singleton l event ih =>
    obtain ⟨hinit, -, hlast⟩ := List.pairwise_append.mp hsorted
    have hdone : ∀ e ∈ l, e.start ≤ e.stop := fun e he => hle e (List.mem_append_left _ he)
    rw [List.foldl_append]
    exact tagged_step (Swept.run hinit hdone) (ih hinit hdone) hdone (hle event (by simp))
      fun e he => hlast e he event List.mem_cons_self

theorem mem_events {user agent : List Run} {event : Event} : event ∈ events user agent ↔
    (∃ u ∈ user, event = ⟨u.startMs, u.endMs, .user⟩) ∨
      ∃ a ∈ agent, event = ⟨a.startMs, a.endMs, .agent⟩ := by
  simp only [events, List.mem_append, List.mem_map, eq_comm]

/-! ## Neighbours -/

theorem mem_pairwise {α : Type*} {l : List α} {a b : α} :
    (a, b) ∈ pairwise l ↔ ∃ pre post, l = pre ++ a :: b :: post := by
  induction l with
  | nil => simp [pairwise]
  | cons c l ih =>
    cases l with
    | nil =>
      constructor
      · intro h
        exact absurd h List.not_mem_nil
      · rintro ⟨pre, post, heq⟩
        have hlength := congrArg List.length heq
        simp only [List.length_append, List.length_cons, List.length_nil] at hlength
        omega
    | cons d l =>
      have hcons : pairwise (c :: d :: l) = (c, d) :: pairwise (d :: l) := rfl
      rw [hcons, List.mem_cons, ih]
      constructor
      · rintro (heq | ⟨pre, post, heq⟩)
        · obtain ⟨rfl, rfl⟩ := Prod.mk.inj heq
          exact ⟨[], l, rfl⟩
        · exact ⟨c :: pre, post, by rw [heq]; rfl⟩
      · rintro ⟨pre, post, heq⟩
        cases pre with
        | nil =>
          obtain ⟨hc, heq⟩ := List.cons.inj heq
          exact Or.inl (Prod.ext hc.symm (List.cons.inj heq).1.symm)
        | cons k pre =>
          obtain ⟨-, heq⟩ := List.cons.inj heq
          exact Or.inr ⟨pre, post, heq⟩

/-- The ends of a silence between two groups. -/
def silenceOf (gap : Group × Group) : ℤ × ℤ := (gap.1.stop, gap.2.start)

/-- **The silences are those between groups that follow each other**, each
once, and tagged as the groups are. -/
theorem silences_eq {user agent mUser mAgent : List Run} (hu : Coalesced user mUser)
    (ha : Coalesced agent mAgent) :
    ((pairwise (speechGroups mUser mAgent)).map silenceOf).Nodup ∧
      silences user agent = ((pairwise (speechGroups mUser mAgent)).map silenceOf).toFinset ∧
      ∀ gap ∈ pairwise (speechGroups mUser mAgent),
        (gap.1.last = .user ↔ ∃ u ∈ mUser, u.endMs = gap.1.stop) ∧
        (gap.2.agentAtStart = true ↔ ∃ a ∈ mAgent, a.startMs = gap.2.start) := by
  set l := sortedBy Event.sortKey (events mUser mAgent) with hl
  have hmem : ∀ e, e ∈ l ↔ e ∈ events mUser mAgent := fun e => mem_sortedBy
  have hle : ∀ e ∈ l, e.start ≤ e.stop := by
    intro e he
    rcases mem_events.mp ((hmem e).mp he) with ⟨u, hu', rfl⟩ | ⟨a, ha', rfl⟩
    · exact hu.le u hu'
    · exact ha.le a ha'
  have hsorted : l.Pairwise fun e e' => e.start ≤ e'.start :=
    (pairwise_sortedBy Event.sortKey _).imp fun h => by
      rcases Prod.Lex.toLex_le_toLex.mp h with hlt | ⟨heq, -⟩
      · exact hlt.le
      · exact heq.le
  have hswept : Swept onLine groupSweep l (l.foldl groupSweep.step []) := Swept.run hsorted hle
  have hgroups : speechGroups mUser mAgent = (l.foldl groupSweep.step []).reverse := by
    rw [speechGroups, groupStep_eq]
  have htagged := tagged_run hsorted hle
  -- merging a speaker's runs covers the same points
  have hcovered : ∀ x, Covered onLine (channel (user ++ agent)) x ↔
      Covered onLine (l.map groupSweep.interval) x := by
    intro x
    rw [channel, List.map_append, covered_append, ← channel, ← channel, hu.covered, ha.covered,
      ← covered_append]
    have hperm : (l.map groupSweep.interval).Perm ((events mUser mAgent).map groupSweep.interval) :=
      perm_sortedBy.map _
    rw [covered_perm hperm, events, List.map_append, List.map_map, List.map_map]
    rfl
  have hseparated : (speechGroups mUser mAgent).Pairwise fun g g' => g.stop < g'.start := by
    rw [hgroups, List.pairwise_reverse]
    exact hswept.separated
  have hgle : ∀ g ∈ speechGroups mUser mAgent, g.start ≤ g.stop := fun g hg =>
    hswept.le g (List.mem_reverse.mp (hgroups ▸ hg))
  refine ⟨?_, ?_, fun gap hgap => ?_⟩
  · -- each once: the groups are apart, so no two start together
    have hstarts : ((speechGroups mUser mAgent).map Group.start).Nodup :=
      List.pairwise_map.mpr (hseparated.imp_of_mem fun hg _ hlt heq => by
        have := hgle _ hg
        omega)
    refine List.Nodup.of_map Prod.snd ?_
    have htail : ((pairwise (speechGroups mUser mAgent)).map silenceOf).map Prod.snd =
        (speechGroups mUser mAgent).tail.map Group.start := by
      have hcomp : Prod.snd ∘ silenceOf = Group.start ∘ Prod.snd := rfl
      rw [List.map_map, hcomp, ← List.map_map, pairwise, List.map_snd_zip (by simp)]
    rw [htail]
    exact hstarts.sublist ((List.tail_sublist _).map _)
  · -- the gaps of the whole are the pairs of neighbouring groups
    ext gap
    have hgap : IsGap onLine (channel (user ++ agent)) gap.1 gap.2 ↔
        gap ∈ (pairwise (speechGroups mUser mAgent)).map silenceOf := by
      rw [IsGap.congr hcovered, hswept.isGap_iff, ← hgroups, List.mem_map]
      constructor
      · rintro ⟨pre, g, g', post, hsplit, hlow, hhigh⟩
        exact ⟨(g, g'), mem_pairwise.mpr ⟨pre, post, hsplit⟩, Prod.ext hlow hhigh⟩
      · rintro ⟨⟨g, g'⟩, hmem', rfl⟩
        obtain ⟨pre, post, hsplit⟩ := mem_pairwise.mp hmem'
        exact ⟨pre, g, g', post, hsplit, rfl, rfl⟩
    rw [mem_silences, List.mem_toFinset, hgap]
    refine and_iff_right_of_imp fun hin => ?_
    obtain ⟨⟨g, g'⟩, hpair, rfl⟩ := List.mem_map.mp hin
    obtain ⟨pre, post, hsplit⟩ := mem_pairwise.mp hpair
    obtain ⟨e, he, hstop⟩ := hswept.high_mem g (List.mem_reverse.mp (hgroups ▸ hsplit ▸ by simp))
    obtain ⟨e', he', hstart⟩ := hswept.low_mem g' (List.mem_reverse.mp (hgroups ▸ hsplit ▸ by simp))
    have hstop : e.stop = g.stop := hstop
    have hstart : e'.start = g'.start := hstart
    show g.stop ∈ _ ∧ g'.start ∈ _
    rw [← hstop, ← hstart, List.map_append, List.map_append, List.mem_append, List.mem_append]
    constructor
    · rcases mem_events.mp ((hmem e).mp he) with ⟨u, hu', rfl⟩ | ⟨a, ha', rfl⟩
      · exact Or.inl (hu.ends u hu').2
      · exact Or.inr (ha.ends a ha').2
    · rcases mem_events.mp ((hmem e').mp he') with ⟨u, hu', rfl⟩ | ⟨a, ha', rfl⟩
      · exact Or.inl (hu.ends u hu').1
      · exact Or.inr (ha.ends a ha').1
  · -- the tags say whose run ends or starts the group
    obtain ⟨g, g'⟩ := gap
    obtain ⟨pre, post, hsplit⟩ := mem_pairwise.mp hgap
    have hg : Tagged l g := htagged g (List.mem_reverse.mp (hgroups ▸ hsplit ▸ by simp))
    have hg' : Tagged l g' := htagged g' (List.mem_reverse.mp (hgroups ▸ hsplit ▸ by simp))
    constructor
    · rw [hg.last]
      constructor
      · rintro ⟨e, he, hs, hstop⟩
        rcases mem_events.mp ((hmem e).mp he) with ⟨u, hu', rfl⟩ | ⟨a, ha', rfl⟩
        · exact ⟨u, hu', hstop⟩
        · cases hs
      · rintro ⟨u, hu', hstop⟩
        exact ⟨⟨u.startMs, u.endMs, .user⟩, (hmem _).mpr (mem_events.mpr (Or.inl ⟨u, hu', rfl⟩)),
          rfl, hstop⟩
    · rw [hg'.first]
      constructor
      · rintro ⟨e, he, hs, hstart⟩
        rcases mem_events.mp ((hmem e).mp he) with ⟨u, hu', rfl⟩ | ⟨a, ha', rfl⟩
        · cases hs
        · exact ⟨a, ha', hstart⟩
      · rintro ⟨a, ha', hstart⟩
        exact ⟨⟨a.startMs, a.endMs, .agent⟩, (hmem _).mpr (mem_events.mpr (Or.inr ⟨a, ha', rfl⟩)),
          rfl, hstart⟩

/-! ## The greeting -/

open Classical in
/-- **The silence before an agent-first call** is the first agent run's. -/
theorem preGreeting_eq {user agent mUser mAgent : List Run} (hu : Coalesced user mUser)
    (ha : Coalesced agent mAgent) : preGreeting mUser mAgent =
      ∑ a ∈ (maximalRuns agent).filter (Greets (maximalRuns user) (maximalRuns agent)), a.1 := by
  have hgreets : ∀ a : Run, Greets (maximalRuns user) (maximalRuns agent) a.interval ↔
      (∀ b ∈ mAgent, a.startMs ≤ b.startMs) ∧ (∀ u ∈ mUser, a.startMs < u.startMs) ∧
        DEAD_AIR_RESPONSE_MS ≤ a.startMs := by
    intro a
    rw [Greets, ha.maximalRuns_eq, hu.maximalRuns_eq]
    simp only [List.mem_toFinset, List.forall_mem_map, Run.interval]
  rw [Finset.sum_filter, ha.sum_eq]
  simp only [hgreets]
  unfold preGreeting
  cases hlist : mAgent with
  | nil =>
    rw [List.map_nil, List.sum_nil]
    split
    · rfl
    · rw [List.any_nil, Bool.false_and, Bool.false_and, if_neg Bool.false_ne_true]
  | cons a as =>
    rw [← hlist]
    have hmem : a ∈ mAgent := hlist ▸ List.mem_cons_self
    have hfirst : ∀ b ∈ mAgent, a.startMs ≤ b.startMs := by
      intro b hb
      rw [hlist] at hb
      rcases List.mem_cons.mp hb with rfl | hb
      · exact le_rfl
      · exact (List.pairwise_cons.mp (hlist ▸ ha.sorted)).1 b hb
    have hrest : ∀ x ∈ as.map (fun r : Run => if (∀ b ∈ mAgent, r.startMs ≤ b.startMs) ∧
        (∀ u ∈ mUser, r.startMs < u.startMs) ∧ DEAD_AIR_RESPONSE_MS ≤ r.startMs
          then r.interval.1 else 0), x = 0 := by
      intro x hx
      obtain ⟨b, hb, rfl⟩ := List.mem_map.mp hx
      have hlt := (List.pairwise_cons.mp (hlist ▸ ha.separated)).1 b hb
      have hle := ha.le a hmem
      refine if_neg fun hno => ?_
      have := hno.1 a hmem
      omega
    obtain ⟨firstStart, hmin⟩ : ∃ f, ((mUser ++ mAgent).map Run.startMs).min? = some f :=
      Option.isSome_iff_exists.mp (List.isSome_min?_of_mem
        (List.mem_map_of_mem (List.mem_append_right mUser hmem)))
    obtain ⟨hin, hleast⟩ := List.min?_eq_some_iff.mp hmin
    have hleUser : ∀ u ∈ mUser, firstStart ≤ u.startMs := fun u hu =>
      hleast _ (List.mem_map_of_mem (List.mem_append_left _ hu))
    have hleAgent : ∀ b ∈ mAgent, firstStart ≤ b.startMs := fun b hb =>
      hleast _ (List.mem_map_of_mem (List.mem_append_right _ hb))
    have hcond : (mAgent.any (·.startMs = firstStart) && !(mUser.any (·.startMs = firstStart)) &&
        decide (DEAD_AIR_RESPONSE_MS ≤ firstStart)) = true ↔ firstStart = a.startMs ∧
          (∀ u ∈ mUser, a.startMs < u.startMs) ∧ DEAD_AIR_RESPONSE_MS ≤ a.startMs := by
      rw [Bool.and_eq_true, Bool.and_eq_true, List.any_eq_true, Bool.not_eq_true',
        ← Bool.not_eq_true, List.any_eq_true, decide_eq_true_eq]
      simp only [decide_eq_true_eq, not_exists, not_and]
      constructor
      · rintro ⟨⟨⟨b, hb, hstart⟩, hnone⟩, hlate⟩
        have hsame : firstStart = a.startMs := le_antisymm (hleAgent a hmem) (hstart ▸ hfirst b hb)
        refine ⟨hsame, fun u hu => ?_, hsame ▸ hlate⟩
        exact hsame ▸ lt_of_le_of_ne (hleUser u hu) fun heq => hnone u hu heq.symm
      · rintro ⟨hsame, huser, hlate⟩
        refine ⟨⟨⟨a, hmem, hsame.symm⟩, fun u hu heq => ?_⟩, hsame ▸ hlate⟩
        have := huser u hu
        omega
    have hsum : (mAgent.map fun r : Run => if (∀ b ∈ mAgent, r.startMs ≤ b.startMs) ∧
        (∀ u ∈ mUser, r.startMs < u.startMs) ∧ DEAD_AIR_RESPONSE_MS ≤ r.startMs
          then r.interval.1 else 0).sum =
        if (∀ u ∈ mUser, a.startMs < u.startMs) ∧ DEAD_AIR_RESPONSE_MS ≤ a.startMs
          then a.startMs else 0 := by
      have hfun := congrArg (fun l => (List.map (fun r : Run =>
        if (∀ b ∈ mAgent, r.startMs ≤ b.startMs) ∧ (∀ u ∈ mUser, r.startMs < u.startMs) ∧
          DEAD_AIR_RESPONSE_MS ≤ r.startMs then r.interval.1 else 0) l).sum) hlist
      refine hfun.trans ?_
      show (List.map _ (a :: as)).sum = _
      rw [List.map_cons, List.sum_cons, List.sum_eq_zero hrest, add_zero]
      by_cases hboth : (∀ u ∈ mUser, a.startMs < u.startMs) ∧ DEAD_AIR_RESPONSE_MS ≤ a.startMs
      · rw [if_pos ⟨hfirst, hboth⟩, if_pos hboth]
        rfl
      · rw [if_neg fun h => hboth h.2, if_neg hboth]
    rw [hmin, hsum]
    by_cases hboth : (∀ u ∈ mUser, a.startMs < u.startMs) ∧ DEAD_AIR_RESPONSE_MS ≤ a.startMs
    · have hsame : firstStart = a.startMs := by
        refine le_antisymm (hleAgent a hmem) ?_
        obtain ⟨r, hr, rfl⟩ := List.mem_map.mp hin
        rcases List.mem_append.mp hr with hr | hr
        · exact (hboth.1 r hr).le
        · exact hfirst r hr
      dsimp only
      rw [if_pos (hcond.mpr ⟨hsame, hboth⟩), if_pos hboth, hsame]
    · dsimp only
      rw [if_neg fun h => hboth (hcond.mp h).2, if_neg hboth]

/-! ## The result -/

theorem sum_map_ite {α : Type*} (p : α → Bool) (l : List α) :
    (l.map fun x => if p x = true then 1 else 0).sum = l.countP p := by
  induction l with
  | nil => rfl
  | cons x l ih =>
    rw [List.map_cons, List.sum_cons, ih, List.countP_cons, Nat.add_comm]

open Classical in
/-- **Barge-ins**: of all pairs, those a probe by each user run finds. -/
theorem bargeIns_eq {user agent mUser mAgent : List Run} (hu : Coalesced user mUser)
    (ha : Coalesced agent mAgent) :
    (mUser.countP fun u => (startedBy mAgent u.startMs).any (bargesIn u)) =
      ((maximalRuns user ×ˢ maximalRuns agent).filter fun p => BargesIn p.1 p.2).card := by
  rw [Finset.card_filter, Finset.sum_product, hu.sum_eq, ← sum_map_ite]
  refine congrArg List.sum (List.map_congr_left fun u _ => ?_)
  have hgoing : ∀ a, bargesIn u a = true → a.startMs ≤ u.startMs ∧ u.startMs < a.endMs := by
    intro a h
    obtain ⟨hstart, hstop, -⟩ := bargesIn_iff.mp h
    simp only [Run.interval, EDGE_GUARD_MS] at hstart hstop
    omega
  rw [ha.sum_eq, ← ha.countP_eq hgoing, ← sum_map_ite]
  exact congrArg List.sum (List.map_congr_left fun a _ => by simp only [bargesIn_iff])

open Classical in
/-- **Talk-overs**: of all pairs, those a probe by each agent run finds. -/
theorem talkOvers_eq {user agent mUser mAgent : List Run} (hu : Coalesced user mUser)
    (ha : Coalesced agent mAgent) :
    (mAgent.countP fun a => (startedBy mUser a.startMs).any (talksOver · a)) =
      ((maximalRuns user ×ˢ maximalRuns agent).filter fun p => TalksOver p.1 p.2).card := by
  rw [Finset.card_filter, Finset.sum_product_right, ha.sum_eq, ← sum_map_ite]
  refine congrArg List.sum (List.map_congr_left fun a _ => ?_)
  have hgoing : ∀ u, talksOver u a = true → u.startMs ≤ a.startMs ∧ a.startMs < u.endMs := by
    intro u h
    obtain ⟨hstart, hstop⟩ := talksOver_iff.mp h
    simp only [Run.interval, EDGE_GUARD_MS] at hstart hstop
    omega
  rw [hu.sum_eq, ← hu.countP_eq hgoing, ← sum_map_ite]
  exact congrArg List.sum (List.map_congr_left fun u _ => by simp only [talksOver_iff])

/-- A silence between groups is owned as the one of the unions is. -/
theorem agentOwns_iff {user agent mUser mAgent : List Run} (hu : Coalesced user mUser)
    (ha : Coalesced agent mAgent) {gap : Group × Group}
    (hlast : gap.1.last = .user ↔ ∃ u ∈ mUser, u.endMs = gap.1.stop)
    (hfirst : gap.2.agentAtStart = true ↔ ∃ a ∈ mAgent, a.startMs = gap.2.start) :
    agentOwns gap = true ↔ Owned (maximalRuns user) (maximalRuns agent) (silenceOf gap) := by
  have huser : (∃ u ∈ maximalRuns user, u.2 = gap.1.stop) ↔ gap.1.last = .user := by
    rw [hlast]
    constructor
    · rintro ⟨m, hm, hstop⟩
      obtain ⟨r, hr, rfl⟩ := (hu.mem_iff m).mp hm
      exact ⟨r, hr, hstop⟩
    · rintro ⟨r, hr, hstop⟩
      exact ⟨r.interval, (hu.mem_iff _).mpr ⟨r, hr, rfl⟩, hstop⟩
  have hagent : (∃ a ∈ maximalRuns agent, a.1 = gap.2.start) ↔ gap.2.agentAtStart = true := by
    rw [hfirst]
    constructor
    · rintro ⟨m, hm, hstart⟩
      obtain ⟨r, hr, rfl⟩ := (ha.mem_iff m).mp hm
      exact ⟨r, hr, hstart⟩
    · rintro ⟨r, hr, hstart⟩
      exact ⟨r.interval, (ha.mem_iff _).mpr ⟨r, hr, rfl⟩, hstart⟩
  have hother : gap.1.last = .agent ↔ ¬ gap.1.last = .user := by
    cases gap.1.last <;> simp
  unfold agentOwns Owned silenceOf silence
  simp only [huser, hagent, hother, Bool.or_eq_true, Bool.and_eq_true, decide_eq_true_eq]
  tauto

/-- **The signals are those of the unions**, for runs in any order that
overlap, touch or nest as they like. -/
theorem signals_eq (t : Timeline) (hrun : ∀ r ∈ t.userRuns ++ t.agentRuns, r.startMs ≤ r.endMs) :
    signals t = naiveSignals t.userRuns t.agentRuns := by
  have hu := coalesced t.userRuns fun r hr => hrun r (List.mem_append_left _ hr)
  have ha := coalesced t.agentRuns fun r hr => hrun r (List.mem_append_right _ hr)
  obtain ⟨hnodup, hsilences, htags⟩ := silences_eq hu ha
  have hgaps : ∀ {M : Type} [AddCommMonoid M] (f : ℤ × ℤ → M),
      ∑ gap ∈ silences t.userRuns t.agentRuns, f gap = ((pairwise (speechGroups
        (coalesce t.userRuns) (coalesce t.agentRuns))).map fun gap => f (silenceOf gap)).sum := by
    intro M _ f
    rw [hsilences, List.sum_toFinset f hnodup, List.map_map]
    rfl
  unfold signals naiveSignals
  dsimp only
  congr 1
  · exact hu.talkTime_eq
  · exact ha.talkTime_eq
  · rw [Coalesced.overlap_eq _ _ hu.separated ha.separated, Finset.sum_product, hu.sum_eq]
    simp only [ha.sum_eq]
    rfl
  · exact bargeIns_eq hu ha
  · exact talkOvers_eq hu ha
  · rw [Finset.card_filter, hgaps, ← sum_map_ite]
    simp only [decide_eq_true_eq]
    rfl
  · refine congrArg₂ (· + ·) ?_ (preGreeting_eq hu ha)
    rw [Finset.sum_filter, hgaps]
    have hfilter : ∀ l : List (Group × Group), ((l.filter agentOwns).map silence).sum =
        (l.map fun gap => if agentOwns gap = true then silence gap else 0).sum := by
      intro l
      induction l with
      | nil => rfl
      | cons gap l ih =>
        rw [List.filter_cons, List.map_cons, List.sum_cons, ← ih]
        split
        · rw [List.map_cons, List.sum_cons]
        · rw [zero_add]
    rw [hfilter]
    refine congrArg List.sum (List.map_congr_left fun gap hgap => ?_)
    obtain ⟨hlast, hfirst⟩ := htags gap hgap
    have howns := agentOwns_iff hu ha hlast hfirst
    by_cases hown : agentOwns gap = true
    · rw [if_pos hown, if_pos (howns.mp hown)]
      rfl
    · rw [if_neg hown, if_neg fun h => hown (howns.mpr h)]

/-- Two channels with runs that overlap, touch and end together. -/
def demoTimeline : Timeline where
  startedAtUnixNano := 0
  durationMs := none
  userRuns := [⟨3000, 3400, 10, 10⟩, ⟨0, 900, 10, 10⟩, ⟨500, 1500, 10, 10⟩, ⟨1500, 1500, 10, 10⟩]
  agentRuns := [⟨6000, 9000, 10, 10⟩, ⟨1200, 1500, 10, 10⟩]
  agentZeroRuns := []
  insertOnly := false

theorem signals_demo :
    signals demoTimeline = naiveSignals demoTimeline.userRuns demoTimeline.agentRuns :=
  signals_eq demoTimeline (by decide)

end Earshot.CallTimeline
