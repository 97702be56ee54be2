import Mathlib.Data.List.Basic
import Mathlib.Data.Int.Basic
import Mathlib.Order.Basic
import Mathlib.Tactic.Common
import Earshot.Common.Run
/-!
# Runs of zero samples

Where a channel holds digital zero for long enough. A run may reach the end
of a block, and is then open until a later block ends it. The runs found
are the track's maximal runs of zeros, whatever the blocks.
-/

namespace Earshot.Signals

/-! ## The scan -/

/-- `numpy.diff` -/
def diff : List ℤ → List ℤ
  | a :: b :: rest => (b - a) :: diff (b :: rest)
  | _ => []

/-- `numpy.flatnonzero`, of `values == wanted`, counting from `i`. -/
def flatnonzeroFrom (wanted : ℤ) (i : ℤ) : List ℤ → List ℤ
  | [] => []
  | value :: values =>
    if value = wanted then i :: flatnonzeroFrom wanted (i + 1) values
    else flatnonzeroFrom wanted (i + 1) values

/-- `ZeroRuns`: runs are `[start, end)`, in samples, and `open` is the start of
a run that reaches the last block's end. -/
structure ZeroRuns where
  minimum : ℤ
  runs : List (ℤ × ℤ)
  position : ℤ
  openStart : Option ℤ

namespace ZeroRuns

def new (minimum : ℤ) : ZeroRuns := ⟨minimum, [], 0, none⟩

/-- `_close` -/
def close (z : ZeroRuns) (start stop : ℤ) : ZeroRuns :=
  if z.minimum ≤ stop - start then { z with runs := z.runs ++ [(start, stop)] } else z

/-- The edges of a block's zeros. -/
def edges (samples : List ℤ) : List ℤ :=
  diff ([0] ++ samples.map (fun sample => if sample = 0 then 1 else 0) ++ [0])

/-- A run open at the block's start goes on in it, or has ended with the last
block. -/
def resume (z : ZeroRuns) (starts : List ℤ) : ZeroRuns × List ℤ :=
  match z.openStart with
  | none => (z, starts)
  | some start =>
    if starts.head? = some 0 then
      ({ z with openStart := none }, (start - z.position) :: starts.tail)
    else ({ z.close start z.position with openStart := none }, starts)

/-- A run that reaches the block's end stays open. -/
def suspend (z : ZeroRuns) (count : ℤ) (starts ends : List ℤ) : ZeroRuns × List ℤ × List ℤ :=
  if ends.getLast? = some count then
    ({ z with openStart := starts.getLast?.map fun start => z.position + start },
      starts.dropLast, ends.dropLast)
  else (z, starts, ends)

/-- `feed` -/
def feed (z : ZeroRuns) (samples : List ℤ) : ZeroRuns :=
  if samples = [] then z
  else
    let count : ℤ := samples.length
    let resumed := z.resume (flatnonzeroFrom 1 0 (edges samples))
    let suspended := resumed.1.suspend count resumed.2 (flatnonzeroFrom (-1) 0 (edges samples))
    let found := (suspended.2.1.zip suspended.2.2).filter fun run => z.minimum ≤ run.2 - run.1
    { suspended.1 with
      runs := suspended.1.runs ++ found.map fun run =>
        (suspended.1.position + run.1, suspended.1.position + run.2)
      position := suspended.1.position + count }

/-- `finish` -/
def finish (z : ZeroRuns) : List (ℤ × ℤ) :=
  match z.openStart with
  | none => z.runs
  | some start => (z.close start z.position).runs

end ZeroRuns

/-! ## Sample by sample -/

/-- The runs that end in a block, and the start of the one that does not. -/
def scan (i : ℤ) (start : Option ℤ) : List ℤ → List (ℤ × ℤ) × Option ℤ
  | [] => ([], start)
  | sample :: samples =>
    if sample = 0 then scan (i + 1) (some (start.getD i)) samples
    else
      let rest := scan (i + 1) none samples
      (start.toList.map (fun s => (s, i)) ++ rest.1, rest.2)

/-- A block's edges after a sample that was zero or was not. -/
def edgesAfter (zero : Bool) (samples : List ℤ) : List ℤ :=
  diff ((if zero = true then 1 else 0) ::
    (samples.map (fun sample => if sample = 0 then 1 else 0) ++ [0]))

theorem edgesAfter_cons (zero : Bool) (sample : ℤ) (samples : List ℤ) :
    edgesAfter zero (sample :: samples) =
      ((if sample = 0 then 1 else 0) - (if zero = true then 1 else 0)) ::
        edgesAfter (decide (sample = 0)) samples := by
  unfold edgesAfter
  rw [List.map_cons, List.cons_append, diff]
  by_cases h : sample = 0
  · rw [if_pos h, decide_eq_true h, if_pos rfl]
  · rw [if_neg h, decide_eq_false h]
    rfl

/-- **The edges are where the runs start and end.** -/
theorem edges_eq_scan (i : ℤ) (start : Option ℤ) (samples : List ℤ) :
    start.toList ++ flatnonzeroFrom 1 i (edgesAfter start.isSome samples) =
        (scan i start samples).1.map Prod.fst ++ (scan i start samples).2.toList ∧
      flatnonzeroFrom (-1) i (edgesAfter start.isSome samples) =
        (scan i start samples).1.map Prod.snd ++
          (if (scan i start samples).2.isSome = true then [i + samples.length] else []) := by
  induction samples generalizing i start with
  | nil => cases start <;> simp [edgesAfter, diff, flatnonzeroFrom, scan]
  | cons sample samples ih =>
    have hlength : i + ((sample :: samples).length : ℤ) = i + 1 + (samples.length : ℤ) := by
      rw [List.length_cons]
      omega
    rw [edgesAfter_cons, hlength]
    by_cases hzero : sample = 0
    · obtain ⟨hstarts, hends⟩ := ih (i + 1) (some (start.getD i))
      rw [if_pos hzero, decide_eq_true hzero, scan, if_pos hzero]
      cases start with
      | none => exact ⟨hstarts, hends⟩
      | some s => exact ⟨hstarts, hends⟩
    · obtain ⟨hstarts, hends⟩ := ih (i + 1) none
      rw [if_neg hzero, decide_eq_false hzero, scan, if_neg hzero]
      cases start with
      | none => exact ⟨hstarts, hends⟩
      | some s => exact ⟨congrArg (s :: ·) hstarts, congrArg (i :: ·) hends⟩

/-- A run that ends in a block ends before the block does. -/
theorem lt_of_mem_scan {i : ℤ} {start : Option ℤ} {samples : List ℤ} {run : ℤ × ℤ}
    (h : run ∈ (scan i start samples).1) : run.2 < i + samples.length := by
  induction samples generalizing i start with
  | nil => cases h
  | cons sample samples ih =>
    rw [List.length_cons]
    rw [scan] at h
    split at h
    · have := ih h
      omega
    · rcases List.mem_append.mp h with h | h
      · obtain ⟨s, -, rfl⟩ := List.mem_map.mp h
        dsimp only
        omega
      · have := ih h
        omega

/-- Where the open run started changes the start of the first run only. -/
theorem scan_some (i s t : ℤ) (samples : List ℤ) :
    (scan i (some s) samples).1.map Prod.fst ++ (scan i (some s) samples).2.toList =
        s :: ((scan i (some t) samples).1.map Prod.fst ++
          (scan i (some t) samples).2.toList).tail ∧
      (scan i (some s) samples).1.map Prod.snd = (scan i (some t) samples).1.map Prod.snd ∧
      (scan i (some s) samples).2.isSome = (scan i (some t) samples).2.isSome := by
  induction samples generalizing i with
  | nil => exact ⟨rfl, rfl, rfl⟩
  | cons sample samples ih =>
    rw [scan, scan]
    split
    · exact ih (i + 1)
    · exact ⟨rfl, rfl, rfl⟩

namespace ZeroRuns

/-- One sample. -/
def step (z : ZeroRuns) (sample : ℤ) : ZeroRuns :=
  if sample = 0 then
    { z with openStart := some (z.openStart.getD z.position), position := z.position + 1 }
  else
    { z with
      runs := z.runs ++ (z.openStart.toList.map fun start => (start, z.position)).filter
        fun run => z.minimum ≤ run.2 - run.1
      openStart := none
      position := z.position + 1 }

/-- **A block, sample by sample**: `p` is where its counting starts. -/
theorem foldl_step (minimum p i : ℤ) (runs : List (ℤ × ℤ)) (start : Option ℤ)
    (samples : List ℤ) :
    samples.foldl step ⟨minimum, runs, p + i, start.map (p + ·)⟩ =
      ⟨minimum, runs ++ ((scan i start samples).1.filter
          fun run => minimum ≤ run.2 - run.1).map fun run => (p + run.1, p + run.2),
        p + (i + samples.length), (scan i start samples).2.map (p + ·)⟩ := by
  induction samples generalizing i runs start with
  | nil =>
    rw [List.foldl_nil, scan, List.filter_nil, List.map_nil, List.append_nil, List.length_nil,
      Int.natCast_zero, Int.add_zero]
  | cons sample samples ih =>
    have hlength : i + ((sample :: samples).length : ℤ) = i + 1 + (samples.length : ℤ) := by
      rw [List.length_cons]
      omega
    rw [List.foldl_cons, scan, hlength, step]
    dsimp only
    rw [Int.add_assoc p i 1]
    by_cases hzero : sample = 0
    · rw [if_pos hzero, if_pos hzero, ← ih]
      cases start <;> rfl
    · rw [if_neg hzero, if_neg hzero]
      refine (ih (i + 1) _ none).trans ?_
      dsimp only
      rw [List.filter_append, List.map_append, ← List.append_assoc]
      congr 3
      cases start with
      | none => rfl
      | some s =>
        rw [Option.map_some, Option.toList_some, Option.toList_some, List.map_singleton,
          List.map_singleton, List.filter_singleton, List.filter_singleton]
        have hspan : p + i - (p + s) = i - s := by omega
        dsimp only
        rw [hspan]
        cases decide (minimum ≤ i - s) <;> rfl

/-- A block's edges, counted from its start, are those of a scan that starts
with no run open. -/
theorem edges_eq (samples : List ℤ) :
    flatnonzeroFrom 1 0 (edges samples) =
        (scan 0 none samples).1.map Prod.fst ++ (scan 0 none samples).2.toList ∧
      flatnonzeroFrom (-1) 0 (edges samples) =
        (scan 0 none samples).1.map Prod.snd ++
          (if (scan 0 none samples).2.isSome = true then [(samples.length : ℤ)] else []) := by
  obtain ⟨hstarts, hends⟩ := edges_eq_scan 0 none samples
  rw [Int.zero_add] at hends
  exact ⟨hstarts, hends⟩

theorem le_of_mem_scan {i : ℤ} {samples : List ℤ} {start : ℤ}
    (h : start ∈ (scan i none samples).1.map Prod.fst ++ (scan i none samples).2.toList) :
    i ≤ start := by
  obtain ⟨hstarts, -⟩ := edges_eq_scan i none samples
  rw [← hstarts] at h
  have hle : ∀ {values : List ℤ} {i : ℤ}, start ∈ flatnonzeroFrom 1 i values → i ≤ start := by
    intro values
    induction values with
    | nil => rintro _ ⟨⟩
    | cons value values ih =>
      intro i hmem
      rw [flatnonzeroFrom] at hmem
      split at hmem
      · rcases List.mem_cons.mp hmem with rfl | hmem
        · exact Int.le_refl _
        · have := ih hmem
          omega
      · have := ih hmem
        omega
  exact hle h

/-- **An open run goes on, or is closed, as the scan says.** -/
theorem resume_eq (z : ZeroRuns) {samples : List ℤ} (h : samples ≠ []) :
    ∃ (early : List (ℤ × ℤ)) (rest : List (ℤ × ℤ) × Option ℤ),
      scan 0 (z.openStart.map (· - z.position)) samples = (early ++ rest.1, rest.2) ∧
      (z.resume (flatnonzeroFrom 1 0 (edges samples))).1 =
        { z with
          runs := z.runs ++ (early.filter fun run => z.minimum ≤ run.2 - run.1).map
            fun run => (z.position + run.1, z.position + run.2)
          openStart := none } ∧
      (z.resume (flatnonzeroFrom 1 0 (edges samples))).2 = rest.1.map Prod.fst ++ rest.2.toList ∧
      flatnonzeroFrom (-1) 0 (edges samples) = rest.1.map Prod.snd ++
        (if rest.2.isSome = true then [(samples.length : ℤ)] else []) ∧
      ∀ run ∈ rest.1, run.2 < samples.length := by
  obtain ⟨hstarts, hends⟩ := edges_eq samples
  rw [hstarts, hends]
  obtain ⟨minimum, runs, position, openStart⟩ := z
  unfold resume
  dsimp only
  cases openStart with
  | none =>
    refine ⟨[], scan 0 none samples, rfl, ?_, rfl, rfl, fun run hrun => ?_⟩
    · rw [List.filter_nil, List.map_nil, List.append_nil]
    · have := lt_of_mem_scan hrun
      omega
  | some o =>
    cases samples with
    | nil => exact absurd rfl h
    | cons sample samples =>
      by_cases hzero : sample = 0
      · -- The block goes on with the open run, which the scan took to start with it.
        obtain ⟨hfirsts, hseconds, hsome⟩ := scan_some 1 (o - position) 0 samples
        obtain ⟨hhead, -, -⟩ := scan_some 1 0 0 samples
        have hnone : scan 0 none (sample :: samples) = scan 1 (some 0) samples := by
          rw [scan, if_pos hzero]
          rfl
        have hscan : scan 0 (some (o - position)) (sample :: samples) =
            scan 1 (some (o - position)) samples := by
          rw [scan, if_pos hzero]
          rfl
        refine ⟨[], scan 1 (some (o - position)) samples, hscan, ?_, ?_, ?_, fun run hrun => ?_⟩
        · dsimp only
          rw [hnone, hhead, List.head?_cons, if_pos rfl, List.filter_nil, List.map_nil,
            List.append_nil]
        · dsimp only
          rw [hnone, hfirsts, if_pos (by rw [hhead, List.head?_cons])]
        · rw [hnone, ← hseconds, ← hsome]
        · have := lt_of_mem_scan hrun
          rw [List.length_cons]
          omega
      · -- The open run ended with the last block.
        have hnone : scan 0 none (sample :: samples) = scan 1 none samples := by
          rw [scan, if_neg hzero]
          rfl
        have hscan : scan 0 (some (o - position)) (sample :: samples) =
            ([(o - position, 0)] ++ (scan 1 none samples).1, (scan 1 none samples).2) := by
          rw [scan, if_neg hzero]
          rfl
        have hhead : ((scan 1 none samples).1.map Prod.fst ++
            (scan 1 none samples).2.toList).head? ≠ some 0 := by
          intro hhead
          have := le_of_mem_scan (List.mem_of_mem_head? hhead)
          omega
        refine ⟨[(o - position, 0)], scan 1 none samples, hscan, ?_, ?_, ?_, fun run hrun => ?_⟩
        · dsimp only
          rw [hnone, if_neg hhead, List.filter_singleton, close]
          have hspan : 0 - (o - position) = position - o := by omega
          have hstart : position + (o - position) = o := by omega
          dsimp only
          rw [hspan]
          by_cases hlong : minimum ≤ position - o
          · rw [if_pos hlong, decide_eq_true hlong, cond_true, List.map_singleton, hstart,
              Int.add_zero]
          · rw [if_neg hlong, decide_eq_false hlong, cond_false, List.map_nil, List.append_nil]
        · dsimp only
          rw [hnone, if_neg hhead]
        · rw [hnone]
        · have := lt_of_mem_scan hrun
          rw [List.length_cons]
          omega

/-- **Feeding a block is feeding its samples.** -/
theorem feed_eq_foldl (z : ZeroRuns) (samples : List ℤ) :
    z.feed samples = samples.foldl step z := by
  unfold feed
  split
  · rename_i h
    rw [h, List.foldl_nil]
  rename_i h
  obtain ⟨early, rest, hscan, hresume, hstarts, hends, hlt⟩ := z.resume_eq h
  have hz : z = ⟨z.minimum, z.runs, z.position + 0,
      (z.openStart.map (· - z.position)).map (z.position + ·)⟩ := by
    obtain ⟨minimum, runs, position, openStart⟩ := z
    congr 1
    · exact (Int.add_zero _).symm
    · cases openStart with
      | none => rfl
      | some o => exact congrArg some (show o = position + (o - position) by omega)
  have hfound : (rest.1.map Prod.fst).zip (rest.1.map Prod.snd) = rest.1 := by
    rw [List.zip_map']
    exact List.map_id _
  conv_rhs => rw [hz, foldl_step, hscan, Int.zero_add]
  dsimp only
  rw [hresume, hstarts, hends, suspend, List.filter_append, List.map_append, ← List.append_assoc]
  cases hrest : rest.2 with
  | none =>
    have hlast : (rest.1.map Prod.snd).getLast? ≠ some (samples.length : ℤ) := by
      intro hlast
      obtain ⟨run, hrun, hlength⟩ := List.mem_map.mp (List.mem_of_getLast? hlast)
      have := hlt run hrun
      omega
    rw [Option.isSome_none, if_neg Bool.false_ne_true, List.append_nil, if_neg hlast,
      Option.toList_none, List.append_nil]
    dsimp only
    rw [hfound]
    rfl
  | some s =>
    rw [Option.isSome_some, if_pos rfl, List.getLast?_concat, if_pos rfl, Option.toList_some]
    dsimp only
    rw [List.dropLast_concat, List.dropLast_concat, List.getLast?_concat, hfound]

end ZeroRuns

/-! ## The track's runs -/

/-- A maximal run of zeros, at least so long. -/
structure IsRun (minimum : ℤ) (samples : List ℤ) (start stop : ℕ) : Prop where
  lt : start < stop
  le : stop ≤ samples.length
  zero : ∀ i, start ≤ i → i < stop → samples[i]? = some 0
  before : ∀ i, i + 1 = start → samples[i]? ≠ some 0
  after : samples[stop]? ≠ some 0
  long : minimum ≤ (stop : ℤ) - start

namespace ZeroRuns

/-- What is held after some samples: the runs that ended before the last of
them, and the start of the one that reaches it. -/
structure Holds (minimum : ℤ) (samples : List ℤ) (z : ZeroRuns) : Prop where
  minimum_eq : z.minimum = minimum
  position : z.position = samples.length
  ordered : z.runs.Pairwise fun a b => a.2 < b.1
  runs : ∀ run, run ∈ z.runs ↔ ∃ start stop : ℕ, run = ((start : ℤ), (stop : ℤ)) ∧
    stop < samples.length ∧ IsRun minimum samples start stop
  openStart : ∀ start, z.openStart = some start → ∃ n : ℕ, start = n ∧ n < samples.length ∧
    (∀ i, n ≤ i → i < samples.length → samples[i]? = some 0) ∧
    ∀ i, i + 1 = n → samples[i]? ≠ some 0
  closed : z.openStart = none → ∀ i, i + 1 = samples.length → samples[i]? ≠ some 0

variable {m : ℤ} {samples : List ℤ} {z : ZeroRuns}

theorem getElem?_concat_of_lt {i : ℕ} (x : ℤ) (h : i < samples.length) :
    (samples ++ [x])[i]? = samples[i]? :=
  List.getElem?_append_left h

theorem getElem?_concat_self (samples : List ℤ) (x : ℤ) :
    (samples ++ [x])[samples.length]? = some x := by
  rw [List.getElem?_append_right (Nat.le_refl _), Nat.sub_self, List.getElem?_cons_zero]

/-- A run that ended before the last sample stays one. -/
theorem isRun_concat_iff (x : ℤ) {start stop : ℕ} (h : stop < samples.length) :
    IsRun m (samples ++ [x]) start stop ↔ IsRun m samples start stop := by
  have hlength : (samples ++ [x]).length = samples.length + 1 := List.length_append
  constructor
  · intro hrun
    refine ⟨hrun.lt, h.le, fun i hi hlt => ?_, fun i hi => ?_, ?_, hrun.long⟩
    · rw [← getElem?_concat_of_lt x (hlt.trans h)]
      exact hrun.zero i hi hlt
    · rw [← getElem?_concat_of_lt x (by have := hrun.lt; omega)]
      exact hrun.before i hi
    · rw [← getElem?_concat_of_lt x h]
      exact hrun.after
  · intro hrun
    refine ⟨hrun.lt, by omega, fun i hi hlt => ?_, fun i hi => ?_, ?_, hrun.long⟩
    · rw [getElem?_concat_of_lt x (hlt.trans h)]
      exact hrun.zero i hi hlt
    · rw [getElem?_concat_of_lt x (by have := hrun.lt; omega)]
      exact hrun.before i hi
    · rw [getElem?_concat_of_lt x h]
      exact hrun.after

/-- The zeros that reach the end of the samples are the open run. -/
theorem Holds.isRun_end_iff (hz : z.Holds m samples) (x : ℤ) (hx : x ≠ 0) {start : ℕ} :
    IsRun m (samples ++ [x]) start samples.length ↔
      z.openStart = some (start : ℤ) ∧ m ≤ (samples.length : ℤ) - start := by
  constructor
  · intro hrun
    have hzero : ∀ i, start ≤ i → i < samples.length → samples[i]? = some 0 := by
      intro i hi hlt
      rw [← getElem?_concat_of_lt x hlt]
      exact hrun.zero i hi hlt
    have hpos := hrun.lt
    refine ⟨?_, hrun.long⟩
    cases hopen : z.openStart with
    | none =>
      exact absurd (hzero (samples.length - 1) (by omega) (by omega))
        (hz.closed hopen _ (by omega))
    | some s =>
      obtain ⟨n, rfl, hn, hnzero, hnbefore⟩ := hz.openStart s hopen
      rcases Nat.lt_trichotomy n start with hlt | rfl | hlt
      · have hbefore := hrun.before (start - 1) (by omega)
        rw [getElem?_concat_of_lt x (by omega)] at hbefore
        exact absurd (hnzero (start - 1) (by omega) (by omega)) hbefore
      · rfl
      · exact absurd (hzero (n - 1) (by omega) (by omega)) (hnbefore (n - 1) (by omega))
  · rintro ⟨hopen, hlong⟩
    obtain ⟨n, hstart, hn, hnzero, hnbefore⟩ := hz.openStart _ hopen
    obtain rfl : start = n := by omega
    refine ⟨hn, ?_, fun i hi hlt => ?_, fun i hi => ?_, ?_, hlong⟩
    · rw [List.length_append]
      omega
    · rw [getElem?_concat_of_lt x hlt]
      exact hnzero i hi hlt
    · rw [getElem?_concat_of_lt x (by omega)]
      exact hnbefore i hi
    · rw [getElem?_concat_self]
      exact fun h => hx (Option.some.inj h)

/-- Runs that ended lie before the open one. -/
theorem Holds.lt_openStart (hz : z.Holds m samples) {run : ℤ × ℤ} (hrun : run ∈ z.runs)
    {start : ℤ} (hopen : z.openStart = some start) : run.2 < start := by
  obtain ⟨n, rfl, hn, hnzero, -⟩ := hz.openStart start hopen
  obtain ⟨s, e, rfl, he, hisrun⟩ := (hz.runs run).mp hrun
  have hlt : e < n := by
    by_contra hle
    exact hisrun.after (hnzero e (by omega) he)
  dsimp only
  omega

theorem holds_new (m : ℤ) : (ZeroRuns.new m).Holds m [] where
  minimum_eq := rfl
  position := rfl
  ordered := List.Pairwise.nil
  runs run := by
    constructor
    · rintro ⟨⟩
    · rintro ⟨_, _, _, h, _⟩
      exact absurd h (Nat.not_lt_zero _)
  openStart := by rintro _ ⟨⟩
  closed _ i hi := absurd hi (Nat.succ_ne_zero i)

/-- One more sample, a zero. -/
theorem Holds.step_zero (hz : z.Holds m samples) : (z.step 0).Holds m (samples ++ [0]) := by
  have hlength : (samples ++ [(0 : ℤ)]).length = samples.length + 1 := List.length_append
  rw [step, if_pos rfl]
  refine ⟨hz.minimum_eq, ?_, hz.ordered, fun run => ?_, ?_, by rintro ⟨⟩⟩
  · dsimp only
    rw [hz.position, hlength]
    omega
  · dsimp only
    rw [hz.runs]
    constructor
    · rintro ⟨start, stop, rfl, hlt, hrun⟩
      exact ⟨start, stop, rfl, by omega, (isRun_concat_iff 0 hlt).mpr hrun⟩
    · rintro ⟨start, stop, rfl, hlt, hrun⟩
      have hne : stop ≠ samples.length := by
        rintro rfl
        exact hrun.after (getElem?_concat_self samples 0)
      have hstop : stop < samples.length := by omega
      exact ⟨start, stop, rfl, hstop, (isRun_concat_iff 0 hstop).mp hrun⟩
  · intro start hstart
    dsimp only at hstart
    rw [hlength]
    cases hopen : z.openStart with
    | none =>
      rw [hopen, Option.getD_none, hz.position] at hstart
      obtain rfl := Option.some.inj hstart
      refine ⟨samples.length, rfl, by omega, fun i hi hlt => ?_, fun i hi => ?_⟩
      · obtain rfl : i = samples.length := by omega
        exact getElem?_concat_self samples 0
      · rw [getElem?_concat_of_lt 0 (by omega)]
        exact hz.closed hopen i hi
    | some s =>
      rw [hopen, Option.getD_some] at hstart
      obtain rfl := Option.some.inj hstart
      obtain ⟨n, rfl, hn, hnzero, hnbefore⟩ := hz.openStart s hopen
      refine ⟨n, rfl, by omega, fun i hi hlt => ?_, fun i hi => ?_⟩
      · by_cases hlast : i = samples.length
        · rw [hlast]
          exact getElem?_concat_self samples 0
        · rw [getElem?_concat_of_lt 0 (by omega)]
          exact hnzero i hi (by omega)
      · rw [getElem?_concat_of_lt 0 (by omega)]
        exact hnbefore i hi

/-- The run a sample that is not zero ends, if it is long enough. -/
theorem Holds.mem_ended_iff (hz : z.Holds m samples) {run : ℤ × ℤ} :
    run ∈ (z.openStart.toList.map fun start => (start, z.position)).filter
        (fun run => z.minimum ≤ run.2 - run.1) ↔
      z.openStart = some run.1 ∧ run.2 = samples.length ∧
        m ≤ (samples.length : ℤ) - run.1 := by
  rw [List.mem_filter, List.mem_map, decide_eq_true_iff, hz.minimum_eq, hz.position]
  constructor
  · rintro ⟨⟨start, hstart, rfl⟩, hlong⟩
    exact ⟨Option.mem_toList.mp hstart, rfl, hlong⟩
  · rintro ⟨hopen, hstop, hlong⟩
    refine ⟨⟨run.1, Option.mem_toList.mpr hopen, Prod.ext rfl hstop.symm⟩, ?_⟩
    rw [hstop]
    exact hlong

/-- One more sample, not a zero. -/
theorem Holds.step_ne (hz : z.Holds m samples) {x : ℤ} (hx : x ≠ 0) :
    (z.step x).Holds m (samples ++ [x]) := by
  have hlength : (samples ++ [x]).length = samples.length + 1 := List.length_append
  rw [step, if_neg hx]
  refine ⟨hz.minimum_eq, ?_, ?_, fun run => ?_, by rintro _ ⟨⟩, fun _ i hi => ?_⟩
  · dsimp only
    rw [hz.position, hlength]
    omega
  · refine List.pairwise_append.mpr ⟨hz.ordered, ?_, fun run hrun ended hended => ?_⟩
    · cases z.openStart with
      | none => exact List.Pairwise.nil
      | some s => exact (List.pairwise_singleton _ _).filter _
    · exact hz.lt_openStart hrun (hz.mem_ended_iff.mp hended).1
  · dsimp only
    rw [List.mem_append, hz.runs, hz.mem_ended_iff]
    constructor
    · rintro (⟨start, stop, rfl, hlt, hrun⟩ | ⟨hopen, hstop, hlong⟩)
      · exact ⟨start, stop, rfl, by omega, (isRun_concat_iff x hlt).mpr hrun⟩
      · obtain ⟨n, hn, -⟩ := hz.openStart _ hopen
        refine ⟨n, samples.length, Prod.ext hn hstop, by omega, (hz.isRun_end_iff x hx).mpr ?_⟩
        rw [← hn]
        exact ⟨hopen, hlong⟩
    · rintro ⟨start, stop, rfl, hlt, hrun⟩
      by_cases hlast : stop = samples.length
      · subst hlast
        obtain ⟨hopen, hlong⟩ := (hz.isRun_end_iff x hx).mp hrun
        exact Or.inr ⟨hopen, rfl, hlong⟩
      · have hstop : stop < samples.length := by omega
        exact Or.inl ⟨start, stop, rfl, hstop, (isRun_concat_iff x hstop).mp hrun⟩
  · rw [hlength] at hi
    obtain rfl : i = samples.length := by omega
    rw [getElem?_concat_self]
    exact fun h => hx (Option.some.inj h)

theorem Holds.step (hz : z.Holds m samples) (x : ℤ) : (z.step x).Holds m (samples ++ [x]) := by
  by_cases hx : x = 0
  · rw [hx]
    exact hz.step_zero
  · exact hz.step_ne hx

theorem Holds.foldl (hz : z.Holds m samples) (block : List ℤ) :
    (block.foldl ZeroRuns.step z).Holds m (samples ++ block) := by
  induction block generalizing z samples with
  | nil => rwa [List.append_nil]
  | cons x block ih =>
    rw [List.append_cons]
    exact ih (hz.step x)

/-- **What is held depends on the samples, and not on the blocks.** -/
theorem holds_feed (m : ℤ) (blocks : List (List ℤ)) :
    (blocks.foldl feed (ZeroRuns.new m)).Holds m blocks.flatten := by
  have hview := Streaming.foldl_eq_view feed
    (fun samples => samples.foldl ZeroRuns.step (ZeroRuns.new m))
    (fun xs ys => (feed_eq_foldl _ ys).trans List.foldl_append.symm) [] blocks
  rw [List.nil_append] at hview
  rw [show blocks.foldl feed (ZeroRuns.new m) = _ from hview]
  exact (holds_new m).foldl blocks.flatten

/-- **The runs found are the maximal runs of zeros** of at least the minimum
length, in order. -/
theorem Holds.finish (hz : z.Holds m samples) :
    (z.finish.Pairwise fun a b => a.2 < b.1) ∧
      ∀ run, run ∈ z.finish ↔ ∃ start stop : ℕ, run = ((start : ℤ), (stop : ℤ)) ∧
        IsRun m samples start stop := by
  -- To the runs, the end of the track is one more sample that is not zero.
  have hended : z.finish = (z.step 1).runs := by
    rw [ZeroRuns.step, if_neg Int.one_ne_zero, ZeroRuns.finish]
    dsimp only
    cases z.openStart with
    | none => exact (List.append_nil _).symm
    | some start =>
      dsimp only
      rw [close, Option.toList_some, List.map_singleton, List.filter_singleton]
      dsimp only
      split
      · rename_i hlong
        rw [decide_eq_true hlong, cond_true]
      · rename_i hlong
        rw [decide_eq_false hlong, cond_false, List.append_nil]
  have hholds := hz.step_ne Int.one_ne_zero
  rw [hended]
  refine ⟨hholds.ordered, fun run => (hholds.runs run).trans ?_⟩
  have hlength : (samples ++ [(1 : ℤ)]).length = samples.length + 1 := List.length_append
  refine exists_congr fun start => exists_congr fun stop => and_congr_right fun _ => ?_
  constructor
  · rintro ⟨hlt, hrun⟩
    by_cases hlast : stop = samples.length
    · subst hlast
      refine ⟨hrun.lt, Nat.le_refl _, fun i hi hi' => ?_, fun i hi => ?_, ?_, hrun.long⟩
      · rw [← getElem?_concat_of_lt 1 hi']
        exact hrun.zero i hi hi'
      · rw [← getElem?_concat_of_lt 1 (by have := hrun.lt; omega)]
        exact hrun.before i hi
      · rw [List.getElem?_eq_none (Nat.le_refl _)]
        rintro ⟨⟩
    · exact (isRun_concat_iff 1 (by omega)).mp hrun
  · intro hrun
    have hle := hrun.le
    refine ⟨by omega, ?_⟩
    by_cases hlast : stop = samples.length
    · subst hlast
      refine ⟨hrun.lt, by omega, fun i hi hi' => ?_, fun i hi => ?_, ?_, hrun.long⟩
      · rw [getElem?_concat_of_lt 1 hi']
        exact hrun.zero i hi hi'
      · rw [getElem?_concat_of_lt 1 (by have := hrun.lt; omega)]
        exact hrun.before i hi
      · rw [getElem?_concat_self]
        rintro ⟨⟩
    · exact (isRun_concat_iff 1 (by omega)).mpr hrun

end ZeroRuns

end Earshot.Signals
