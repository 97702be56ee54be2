import Mathlib.Algebra.Order.Field.Rat
import Mathlib.Data.Int.ConditionallyCompleteOrder
import Mathlib.Data.List.ReduceOption
import Mathlib.Data.Nat.Size
import Mathlib.Tactic.Linarith
import Earshot.Common.SegmentTree
import Earshot.Timeline.Gap
/-!
# Where a transcript line is placed

A line of a transcript starts at the run of its speaker nearest to it, and
ends with the last end among the runs that start before the next line. The
code keeps the runs sorted by start with a segment tree over their ends, and
reads the next starts from the last line back to the first with a segment tree
over all starts; each answers as a search of all runs and all lines does
(`placement_indexes`).

Starts and ends of runs are integers. The start of a line is a rational, a
limit may also be infinite, and `fl` rounds a subtraction.
-/

namespace Earshot.CallProjection

open Bisect CallTimeline

/-- A number or an infinity. -/
abbrev Limit : Type := WithBot (WithTop ℚ)

/-- A run's start among the limits. -/
def startLimit (start : ℤ) : Limit := (((start : ℚ) : WithTop ℚ) : WithBot (WithTop ℚ))

/-- `1 << (count - 1).bit_length()` -/
def sizeFor (count : ℕ) : ℕ := Nat.shiftLeft 1 (Nat.size (count - 1))

/-! ## Run indexes -/

/-- `_RunIndex`: the runs of one speaker by start, and the tree of their ends. -/
structure RunIndex where
  runs : List Run
  starts : List ℤ
  size : ℕ
  ends : List (WithBot ℤ)

namespace RunIndex

def of (runs : List Run) : RunIndex :=
  let ordered := sortedBy (fun run : Run => toLex (run.startMs, run.endMs)) runs
  let size := if ordered.isEmpty then 1 else sizeFor ordered.length
  { runs := ordered
    starts := ordered.map Run.startMs
    size
    ends := SegmentTree.build max ⊥ size (ordered.map fun run => (run.endMs : WithBot ℤ)) }

variable (index : RunIndex)

/-- `nearest_start` -/
def nearestStart (fl : ℚ → ℚ) (target : ℚ) : Option ℤ :=
  if index.starts.isEmpty then none
  else nearest (fun point : ℤ => |fl (point - target)|) index.starts
    (bisectLeft (index.starts.map fun point : ℤ => (point : ℚ)) target)

/-- `int(result)`, of a maximum that is not of nothing. -/
def int : WithBot ℤ → Option ℤ
  | ⊥ => none
  | (result : ℤ) => some result

/-- `max_end` -/
def maxEnd (start limit : Limit) : Option ℤ :=
  let points := index.starts.map startLimit
  let left := bisectLeft points start
  let right := left + bisectLeft (points.drop left) limit
  if left = right then none
  else int (SegmentTree.walk max ⊥ index.ends (index.size + left) (index.size + right) ⊥)

end RunIndex

/-! ## The starts that follow -/

/-- One line of `_following_start_limits`, from the last on. -/
def limitStep (coordinates : List ℚ) (start : Option ℚ)
    (state : List (WithTop ℚ) × List (WithTop ℚ)) : List (WithTop ℚ) × List (WithTop ℚ) :=
  let size := sizeFor coordinates.length
  match start with
  | none => (state.1, ⊤ :: state.2)
  | some start =>
      (SegmentTree.update min ⊤ size state.1 (bisectLeft coordinates start) (start : WithTop ℚ),
        SegmentTree.walk min ⊤ state.1 (size + bisectRight coordinates start)
          (size + coordinates.length) ⊤ :: state.2)

/-- `_following_start_limits`, of the lines' starts. -/
def followingStartLimits (starts : List (Option ℚ)) : List (WithTop ℚ) :=
  let coordinates := sortedBy id starts.reduceOption.dedup
  if coordinates.isEmpty then List.replicate starts.length ⊤
  else
    (starts.foldr (limitStep coordinates)
      (List.replicate (2 * sizeFor coordinates.length) ⊤, [])).2

/-! ## What they are to answer -/

/-- The start of least distance, and of two as near the earlier. -/
def nearestOfAll (fl : ℚ → ℚ) (runs : List Run) (target : ℚ) : Option ℤ :=
  nearestOf (fun point : ℤ => |fl (point - target)|) (runs.map Run.startMs)

/-- The greatest end among the runs that start in a range. -/
def maxEndOfAll (runs : List Run) (start limit : Limit) : Option ℤ :=
  ((runs.filter fun run => start ≤ startLimit run.startMs ∧ startLimit run.startMs < limit).map
    Run.endMs).max?

/-- For each line the least start after its own among the lines after it. -/
def leastFollowing : List (Option ℚ) → List (WithTop ℚ)
  | [] => []
  | none :: later => ⊤ :: leastFollowing later
  | some start :: later =>
      (later.reduceOption.filter (start < ·)).minimum :: leastFollowing later

/-! ## Sizes -/

theorem le_sizeFor (count : ℕ) : count ≤ sizeFor count := by
  have hlt := Nat.lt_size_self (count - 1)
  unfold sizeFor
  rw [Nat.shiftLeft_eq', Nat.shiftLeft_eq, Nat.one_mul]
  omega

theorem sizeFor_pos (count : ℕ) : 0 < sizeFor count := by
  unfold sizeFor
  rw [Nat.shiftLeft_eq', Nat.shiftLeft_eq, Nat.one_mul]
  exact Nat.two_pow_pos _

instance maxIdentity : Std.LawfulIdentity (max : WithBot ℤ → WithBot ℤ → WithBot ℤ) ⊥ where
  left_id := max_bot_left
  right_id := max_bot_right

instance minIdentity : Std.LawfulIdentity (min : WithTop ℚ → WithTop ℚ → WithTop ℚ) ⊤ where
  left_id := min_top_left
  right_id := min_top_right

/-! ## Run indexes answer as a search of all runs does -/

namespace RunIndex

variable (runs : List Run)

theorem pairwise_runs : (of runs).runs.Pairwise fun a b => a.startMs ≤ b.startMs := by
  refine (pairwise_sortedBy (fun run : Run => toLex (run.startMs, run.endMs)) runs).imp ?_
  intro a b hab
  rcases Prod.Lex.toLex_le_toLex.mp hab with hlt | ⟨heq, -⟩
  · exact le_of_lt hlt
  · exact le_of_eq heq

theorem perm_runs : (of runs).runs.Perm runs := perm_sortedBy

theorem size_pos : 1 ≤ (of runs).size := by
  show 1 ≤ if _ then 1 else _
  split
  · exact le_rfl
  · exact sizeFor_pos _

theorem holds_ends : SegmentTree.Holds max ⊥ (of runs).size (of runs).ends
    ((of runs).runs.map fun run => (run.endMs : WithBot ℤ)) := by
  refine SegmentTree.holds_build (size_pos runs) ?_
  rw [List.length_map]
  show (of runs).runs.length ≤ if (of runs).runs.isEmpty then 1 else _
  split
  · rename_i hempty
    rw [List.isEmpty_iff.mp hempty]
    exact Nat.zero_le _
  · exact le_sizeFor _

/-- Rounding keeps apart what is nearer and what is farther on the near side of
a target, and does not turn them around on the other. -/
structure KeepsOrder (fl : ℚ → ℚ) (points : List ℤ) (target : ℚ) : Prop where
  below : ∀ a ∈ points, ∀ b ∈ points, a < b → (b : ℚ) < target →
    |fl (b - target)| < |fl (a - target)|
  above : ∀ a ∈ points, ∀ b ∈ points, a ≤ b → target ≤ (a : ℚ) →
    |fl (a - target)| ≤ |fl (b - target)|

/-- What is not rounded is kept. -/
theorem keepsOrder_id (points : List ℤ) (target : ℚ) : KeepsOrder id points target where
  below a _ b _ hab hb := by
    have hcast : (a : ℚ) < b := Int.cast_lt.mpr hab
    rw [id, id, abs_of_neg (by linarith), abs_of_neg (by linarith)]
    linarith
  above a _ b _ hab ha := by
    have hcast : (a : ℚ) ≤ b := Int.cast_le.mpr hab
    rw [id, id, abs_of_nonneg (by linarith), abs_of_nonneg (by linarith)]
    linarith

/-- **The nearest start**, as of all runs. -/
theorem nearestStart_eq {fl : ℚ → ℚ} {target : ℚ}
    (h : KeepsOrder fl (runs.map Run.startMs) target) :
    (of runs).nearestStart fl target = nearestOfAll fl runs target := by
  have hperm : (of runs).starts.Perm (runs.map Run.startMs) := (perm_runs runs).map _
  have hsorted : (of runs).starts.Pairwise (· ≤ ·) := List.pairwise_map.mpr (pairwise_runs runs)
  have hprobe : nearest (fun point : ℤ => |fl (point - target)|) (of runs).starts
      (bisectLeft ((of runs).starts.map fun point : ℤ => (point : ℚ)) target) =
        nearestOfAll fl runs target := by
    rw [bisectLeft_map]
    refine nearest_eq_nearestOf hperm hsorted ?_ ?_
    · exact fun a ha b hb hab hbt => h.below a (hperm.mem_iff.mp ha) b (hperm.mem_iff.mp hb) hab
        (of_decide_eq_true hbt)
    · exact fun a ha b hb hab hat => h.above a (hperm.mem_iff.mp ha) b (hperm.mem_iff.mp hb) hab
        (not_lt.mp (of_decide_eq_false hat))
  rw [nearestStart]
  split
  · rename_i hempty
    rw [← hprobe, List.isEmpty_iff.mp hempty]
    rfl
  · exact hprobe

theorem startLimit_le {a b : ℤ} : startLimit a ≤ startLimit b ↔ a ≤ b := by
  rw [startLimit, startLimit, WithBot.coe_le_coe, WithTop.coe_le_coe, Int.cast_le]

/-- A maximum of some ends is known by what it is not above. -/
theorem int_eq_max? {ends : List ℤ} {result : WithBot ℤ}
    (h : ∀ c, result ≤ c ↔ ∀ a ∈ ends, WithBot.some a ≤ c) : int result = ends.max? := by
  cases hmax : ends.max? with
  | none =>
    rw [List.max?_eq_none_iff] at hmax
    subst hmax
    have hbot := (h ⊥).mpr fun a ha => absurd ha List.not_mem_nil
    rw [le_bot_iff.mp hbot]
    rfl
  | some m =>
    obtain ⟨hmem, hle⟩ := List.max?_eq_some_iff.mp hmax
    have hresult : result = WithBot.some m := le_antisymm
      ((h m).mpr fun a ha => WithBot.coe_le_coe.mpr (hle a ha)) ((h result).mp le_rfl m hmem)
    rw [hresult]
    rfl

/-- The runs between two places, and where they start. -/
theorem mem_runs_between {start limit : Limit} {run : Run} :
    run ∈ ((of runs).runs.dropWhile fun run => startLimit run.startMs < start).takeWhile
        (fun run => startLimit run.startMs < limit) ↔
      run ∈ runs ∧ start ≤ startLimit run.startMs ∧ startLimit run.startMs < limit := by
  have hsorted : (of runs).runs.Pairwise fun a b => startLimit a.startMs ≤ startLimit b.startMs :=
    (pairwise_runs runs).imp fun h => startLimit_le.mpr h
  rw [mem_between hsorted, (perm_runs runs).mem_iff]

/-- **The greatest end in a range**, as of all runs. -/
theorem maxEnd_eq (start limit : Limit) :
    (of runs).maxEnd start limit = maxEndOfAll runs start limit := by
  let left := ((of runs).runs.takeWhile fun run => startLimit run.startMs < start).length
  let between := ((of runs).runs.dropWhile fun run => startLimit run.startMs < start).takeWhile
    (fun run => startLimit run.startMs < limit)
  have hpoints : (of runs).starts.map startLimit =
      (of runs).runs.map fun run => startLimit run.startMs := List.map_map
  have hdrop : (of runs).runs.drop left =
      (of runs).runs.dropWhile fun run => startLimit run.startMs < start := drop_takeWhile _ _
  have hleft : bisectLeft ((of runs).starts.map startLimit) start = left := by
    rw [hpoints, bisectLeft_map]
  have hcount : bisectLeft (((of runs).starts.map startLimit).drop left) limit =
      between.length := by
    rw [hpoints, ← List.map_drop, bisectLeft_map, hdrop]
  have htake : ((of runs).runs.drop left).take between.length = between := by
    rw [hdrop]
    exact take_takeWhile _ _
  have hends : ∀ c : WithBot ℤ, (∀ run ∈ between, (run.endMs : WithBot ℤ) ≤ c) ↔
      ∀ a ∈ (runs.filter fun run => start ≤ startLimit run.startMs ∧
        startLimit run.startMs < limit).map Run.endMs, (a : WithBot ℤ) ≤ c := by
    intro c
    simp only [between, mem_runs_between, List.mem_map, List.mem_filter, decide_eq_true_eq]
    constructor
    · rintro hall _ ⟨run, hrun, rfl⟩
      exact hall run hrun
    · exact fun hall run hrun => hall _ ⟨run, hrun, rfl⟩
  unfold maxEnd maxEndOfAll
  dsimp only
  rw [hleft, hcount]
  split
  · rename_i hnone
    have hnil : between = [] := List.length_eq_zero_iff.mp (by omega)
    show int ⊥ = _
    refine int_eq_max? fun c => ?_
    rw [← hends c, hnil]
    exact ⟨fun _ _ h => absurd h List.not_mem_nil, fun _ => bot_le⟩
  · refine int_eq_max? fun c => ?_
    have hfits : left + between.length ≤ (of runs).runs.length := by
      have hlength := congrArg List.length htake
      have hle : left ≤ (of runs).runs.length := (List.takeWhile_sublist _).length_le
      rw [List.length_take, List.length_drop] at hlength
      omega
    rw [(holds_ends runs).walk_iff (P := fun result => result ≤ c) (fun a b => max_le_iff) bot_le
      (by rw [List.length_map]; exact hfits) (size_pos runs), ← List.map_drop, ← List.map_take,
      htake, ← hends c]
    exact List.forall_mem_map

end RunIndex

/-! ## The limits are what follows -/

variable (coordinates : List ℚ)

/-- What stands at the leaves after some lines: the starts that were seen. -/
def seenLeaves (seen : List (Option ℚ)) : List (WithTop ℚ) :=
  coordinates.map fun c => if some c ∈ seen then (c : WithTop ℚ) else ⊤

variable {coordinates}

/-- A start is put at its own coordinate. -/
theorem seenLeaves_cons (hsorted : coordinates.Pairwise (· ≤ ·)) (hnodup : coordinates.Nodup)
    {start : ℚ} (hstart : start ∈ coordinates) (seen : List (Option ℚ)) :
    (seenLeaves coordinates seen).set (bisectLeft coordinates start) (start : WithTop ℚ) =
      seenLeaves coordinates (some start :: seen) := by
  have hplace : coordinates[bisectLeft coordinates start]? = some start :=
    getElem?_bisectLeft_self hsorted hstart
  refine List.ext_getElem? fun i => ?_
  rw [List.getElem?_set, seenLeaves, seenLeaves, List.length_map, List.getElem?_map,
    List.getElem?_map]
  split
  · rename_i heq
    subst heq
    rw [if_pos (List.getElem?_eq_some_iff.mp hplace).1, hplace, Option.map_some,
      if_pos List.mem_cons_self]
  · rename_i hne
    cases hget : coordinates[i]? with
    | none => rfl
    | some c =>
      have hcs : c ≠ start := by
        rintro rfl
        exact hne ((List.getElem?_inj (List.getElem?_eq_some_iff.mp hplace).1 hnodup).mp
          (hplace.trans hget.symm))
      rw [Option.map_some, Option.map_some]
      simp only [List.mem_cons, Option.some.injEq, hcs, false_or]

/-- **What follows a start** among those that were seen. -/
theorem walk_following {size : ℕ} {tree : List (WithTop ℚ)} {seen : List (Option ℚ)}
    (hsorted : coordinates.Pairwise (· ≤ ·)) (hmem : ∀ c, some c ∈ seen → c ∈ coordinates)
    (hsize : 1 ≤ size) (h : SegmentTree.Holds min ⊤ size tree (seenLeaves coordinates seen))
    (start : ℚ) :
    SegmentTree.walk min ⊤ tree (size + bisectRight coordinates start)
        (size + coordinates.length) ⊤ =
      (seen.reduceOption.filter (start < ·)).minimum := by
  have hplace : bisectRight coordinates start ≤ coordinates.length :=
    (List.takeWhile_sublist _).length_le
  have hlength : (seenLeaves coordinates seen).length = coordinates.length := List.length_map _
  refine eq_of_forall_le_iff fun c => ?_
  have hwalk := h.walk_iff (P := fun result => c ≤ result) (fun a b => le_min_iff) le_top
    (show bisectRight coordinates start + (coordinates.length - bisectRight coordinates start) ≤ _
      by omega) hsize
  rw [Nat.add_sub_cancel' hplace] at hwalk
  rw [hwalk, List.take_of_length_le (by rw [List.length_drop]; omega), seenLeaves,
    ← List.map_drop, List.forall_mem_map]
  simp only [mem_drop_bisectRight hsorted]
  constructor
  · refine fun hall => List.le_minimum_of_forall_le fun a ha => ?_
    obtain ⟨ha, hlt⟩ := List.mem_filter.mp ha
    have hseen := List.reduceOption_mem_iff.mp ha
    have hle := hall a ⟨hmem a hseen, of_decide_eq_true hlt⟩
    rw [if_pos hseen] at hle
    exact hle
  · rintro hle a ⟨-, hlt⟩
    split
    · rename_i hseen
      exact hle.trans (List.minimum_le_of_mem' (List.mem_filter.mpr
        ⟨List.reduceOption_mem_iff.mpr hseen, decide_eq_true hlt⟩))
    · exact le_top

/-- **One line**: its limit is what follows it, and its start is seen. -/
theorem limitStep_holds (hsorted : coordinates.Pairwise (· ≤ ·)) (hnodup : coordinates.Nodup)
    {seen : List (Option ℚ)} (hmem : ∀ c, some c ∈ seen → c ∈ coordinates)
    {start : Option ℚ} (hstart : ∀ c, start = some c → c ∈ coordinates)
    {state : List (WithTop ℚ) × List (WithTop ℚ)}
    (h : SegmentTree.Holds min ⊤ (sizeFor coordinates.length) state.1
      (seenLeaves coordinates seen)) (hlimits : state.2 = leastFollowing seen) :
    SegmentTree.Holds min ⊤ (sizeFor coordinates.length) (limitStep coordinates start state).1
        (seenLeaves coordinates (start :: seen)) ∧
      (limitStep coordinates start state).2 = leastFollowing (start :: seen) := by
  cases start with
  | none =>
    refine ⟨?_, congrArg (⊤ :: ·) hlimits⟩
    have hsame : seenLeaves coordinates (none :: seen) = seenLeaves coordinates seen := by
      simp only [seenLeaves, List.mem_cons, reduceCtorEq, false_or]
    rw [hsame]
    exact h
  | some start =>
    have hcoordinate := hstart start rfl
    have hplace : bisectLeft coordinates start < (seenLeaves coordinates seen).length := by
      rw [seenLeaves, List.length_map]
      exact (List.getElem?_eq_some_iff.mp (getElem?_bisectLeft_self hsorted hcoordinate)).1
    constructor
    · rw [← seenLeaves_cons hsorted hnodup hcoordinate]
      exact h.update hplace _
    · rw [leastFollowing, ← hlimits]
      exact congrArg (· :: state.2) (walk_following hsorted hmem (sizeFor_pos _) h start)

/-- Before any line nothing is seen. -/
theorem holds_replicate : SegmentTree.Holds min ⊤ (sizeFor coordinates.length)
    (List.replicate (2 * sizeFor coordinates.length) ⊤) (seenLeaves coordinates []) where
  length := List.length_replicate
  fits := by rw [seenLeaves, List.length_map]; exact le_sizeFor _
  complete node _ _ := by
    simp only [SegmentTree.value_replicate, min_self]
  leaf position hposition := by
    rw [SegmentTree.value_replicate, SegmentTree.value_of_lt hposition]
    simp only [seenLeaves, List.getElem_map, List.not_mem_nil, if_false]

/-- **All lines**, from the last back to the first. -/
theorem foldr_limitStep_holds (hsorted : coordinates.Pairwise (· ≤ ·))
    (hnodup : coordinates.Nodup) (starts : List (Option ℚ))
    (hmem : ∀ c, some c ∈ starts → c ∈ coordinates) :
    let state := starts.foldr (limitStep coordinates)
      (List.replicate (2 * sizeFor coordinates.length) ⊤, [])
    SegmentTree.Holds min ⊤ (sizeFor coordinates.length) state.1 (seenLeaves coordinates starts) ∧
      state.2 = leastFollowing starts := by
  induction starts with
  | nil => exact ⟨holds_replicate, rfl⟩
  | cons start later ih =>
    have hlater : ∀ c, some c ∈ later → c ∈ coordinates :=
      fun c hc => hmem c (List.mem_cons_of_mem _ hc)
    obtain ⟨hholds, hlimits⟩ := ih hlater
    exact limitStep_holds hsorted hnodup hlater
      (fun c hc => hmem c (by rw [hc]; exact List.mem_cons_self)) hholds hlimits

/-- Where no line has a start, nothing follows. -/
theorem leastFollowing_of_none {starts : List (Option ℚ)} (h : starts.reduceOption = []) :
    leastFollowing starts = List.replicate starts.length ⊤ := by
  induction starts with
  | nil => rfl
  | cons start later ih =>
    cases start with
    | none => exact congrArg (⊤ :: ·) (ih h)
    | some start => exact absurd h (List.cons_ne_nil _ _)

/-- **The limits are what follows**, line by line from the last. -/
theorem followingStartLimits_eq (starts : List (Option ℚ)) :
    followingStartLimits starts = leastFollowing starts := by
  have hperm : (sortedBy id starts.reduceOption.dedup).Perm starts.reduceOption.dedup :=
    perm_sortedBy
  rw [followingStartLimits]
  split
  · rename_i hempty
    rw [List.isEmpty_iff.mp hempty] at hperm
    exact (leastFollowing_of_none ((List.dedup_eq_nil _).mp hperm.symm.eq_nil)).symm
  · refine (foldr_limitStep_holds (pairwise_sortedBy id _)
      (hperm.nodup_iff.mpr (List.nodup_dedup _)) starts fun c hc => ?_).2
    rw [hperm.mem_iff, List.mem_dedup, List.reduceOption_mem_iff]
    exact hc

/-! ## The indexes -/

/-- **Each index answers as a search of everything does**: the nearest start is
the one of least distance and then the earlier, whatever rounds the distances
as long as it keeps their order, as no rounding does; the greatest end is that
of the runs that start in the range; and the limits are the least later starts
that are after a line's own. -/
theorem placement_indexes (runs : List Run) (target : ℚ) (start limit : Limit)
    (lines : List (Option ℚ)) :
    (RunIndex.of runs).nearestStart id target = nearestOfAll id runs target ∧
      (∀ fl, RunIndex.KeepsOrder fl (runs.map Run.startMs) target →
        (RunIndex.of runs).nearestStart fl target = nearestOfAll fl runs target) ∧
      (RunIndex.of runs).maxEnd start limit = maxEndOfAll runs start limit ∧
      followingStartLimits lines = leastFollowing lines :=
  ⟨RunIndex.nearestStart_eq runs (RunIndex.keepsOrder_id _ target),
    fun _ h => RunIndex.nearestStart_eq runs h, RunIndex.maxEnd_eq runs start limit,
    followingStartLimits_eq lines⟩

end Earshot.CallProjection
