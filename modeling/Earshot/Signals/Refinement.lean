import Mathlib.Algebra.Order.Group.Int
import Mathlib.Data.List.Pairwise
import Mathlib.Order.WithBot
import Earshot.Signals.Segments
/-!
# Refined speech runs

Each edge of a run is moved to the energy frames around it: a start to the
first loud frame of its window, an end to the end of the last. Runs are
longer than two windows and further apart than two, so no run turns around
and no two meet, and the two cases the code has for that never arise.
-/

namespace Earshot.Signals

def REFINE_FRAME_MS : ℤ := 10
def REFINE_WINDOW_MS : ℤ := 100
def SIGMA_FLOOR_MS : ℤ := 10
def UNREFINED_SIGMA_MS : ℤ := REFINE_WINDOW_MS

/-- `_ms`: milliseconds, to the nearest. -/
def ms (rate : Rate) (samples : ℕ) : ℕ := (samples * 2000 + rate.hz) / (2 * rate.hz)

/-- `SpeechRun` -/
structure SpeechRun where
  startMs : ℤ
  endMs : ℤ
  startSigmaMs : ℤ
  endSigmaMs : ℤ
  vadStartMs : ℤ
  vadEndMs : ℤ
  deriving DecidableEq

/-- `_sigma` -/
def sigma (vadMs : ℤ) (refinedMs : Option ℤ) : ℤ :=
  match refinedMs with
  | none => UNREFINED_SIGMA_MS
  | some refined => max SIGMA_FLOOR_MS |vadMs - refined|

/-- The loud frames from `first` to `last`; digital silence has no level. -/
def hits (levels : List (WithBot ℚ)) (threshold : WithBot ℚ) (first last : ℤ) : List ℤ :=
  ((List.range levels.length).filter fun i : ℕ =>
    first ≤ (i : ℤ) ∧ (i : ℤ) ≤ last ∧ ∃ level ∈ levels[i]?, threshold < level).map
      fun i : ℕ => (i : ℤ)

/-- `math.ceil(value / REFINE_FRAME_MS)` -/
def ceilFrame (value : ℤ) : ℤ := -(-value / REFINE_FRAME_MS)

/-- The first loud frame's start. -/
def refinedStart (levels : List (WithBot ℚ)) (threshold : WithBot ℚ) (vadStart : ℤ) : Option ℤ :=
  let first := max 0 (ceilFrame (vadStart - REFINE_WINDOW_MS))
  let last := min ((levels.length : ℤ) - 1) ((vadStart + REFINE_WINDOW_MS) / REFINE_FRAME_MS)
  (hits levels threshold first last).head?.map (· * REFINE_FRAME_MS)

/-- The last loud frame's end. -/
def refinedEnd (levels : List (WithBot ℚ)) (threshold : WithBot ℚ) (vadEnd : ℤ) : Option ℤ :=
  let first := max 0 (ceilFrame (vadEnd - REFINE_WINDOW_MS) - 1)
  let last := min ((levels.length : ℤ) - 1) ((vadEnd + REFINE_WINDOW_MS) / REFINE_FRAME_MS - 1)
  (hits levels threshold first last).getLast?.map fun hit => (hit + 1) * REFINE_FRAME_MS

/-- One run of `refine`. -/
def refineRun (levels : List (WithBot ℚ)) (threshold : WithBot ℚ) (run : ℤ × ℤ) : SpeechRun :=
  let start := refinedStart levels threshold run.1
  let stop := refinedEnd levels threshold run.2
  if start.getD run.1 ≥ stop.getD run.2 then
    ⟨run.1, run.2, sigma run.1 none, sigma run.2 none, run.1, run.2⟩
  else
    ⟨start.getD run.1, stop.getD run.2, sigma run.1 start, sigma run.2 stop, run.1, run.2⟩

/-- The last loop of `refine`: a run that meets the next one is cut. -/
def keepApart : List SpeechRun → List SpeechRun
  | current :: following :: rest =>
    (if current.endMs > following.startMs then
      { current with endMs := max (current.startMs + 1) following.startMs }
    else current) :: keepApart (following :: rest)
  | runs => runs

/-- `refine` -/
def refine (runs : List (ℤ × ℤ)) (levels : List (WithBot ℚ)) (threshold : WithBot ℚ) :
    List SpeechRun :=
  keepApart (runs.map (refineRun levels threshold))

/-! ## Edges -/

section Edges

variable {levels : List (WithBot ℚ)} {threshold : WithBot ℚ} {vad edge : ℤ}

/-- A frame louder than the threshold. -/
def Loud (levels : List (WithBot ℚ)) (threshold : WithBot ℚ) (i : ℕ) : Prop :=
  ∃ level ∈ levels[i]?, threshold < level

/-- An edge no further than the window from the model's. -/
def InWindow (vad edge : ℤ) : Prop := |edge - vad| ≤ REFINE_WINDOW_MS

/-- **Where a start is put**: at the first loud frame that starts in the
window, or left where it is. -/
structure StartEdge (levels : List (WithBot ℚ)) (threshold : WithBot ℚ) (vad edge : ℤ) : Prop where
  window : InWindow vad edge
  first : ∀ i : ℕ, Loud levels threshold i → InWindow vad (i * REFINE_FRAME_MS) →
    edge ≤ i * REFINE_FRAME_MS ∧ ∃ j : ℕ, Loud levels threshold j ∧ edge = j * REFINE_FRAME_MS
  none : (∀ i : ℕ, Loud levels threshold i → ¬ InWindow vad (i * REFINE_FRAME_MS)) → edge = vad

/-- **Where an end is put**: at the end of the last loud frame that ends in
the window, or left where it is. -/
structure EndEdge (levels : List (WithBot ℚ)) (threshold : WithBot ℚ) (vad edge : ℤ) : Prop where
  window : InWindow vad edge
  last : ∀ i : ℕ, Loud levels threshold i → InWindow vad ((i + 1) * REFINE_FRAME_MS) →
    (i + 1) * REFINE_FRAME_MS ≤ edge ∧
      ∃ j : ℕ, Loud levels threshold j ∧ edge = (j + 1) * REFINE_FRAME_MS
  none : (∀ i : ℕ, Loud levels threshold i → ¬ InWindow vad ((i + 1) * REFINE_FRAME_MS)) →
    edge = vad

theorem mem_hits {first last hit : ℤ} :
    hit ∈ hits levels threshold first last ↔
      ∃ i : ℕ, hit = i ∧ first ≤ i ∧ (i : ℤ) ≤ last ∧ Loud levels threshold i := by
  unfold hits
  rw [List.mem_map]
  constructor
  · rintro ⟨i, hi, rfl⟩
    obtain ⟨-, hi⟩ := List.mem_filter.mp hi
    obtain ⟨hfirst, hlast, hloud⟩ := of_decide_eq_true hi
    exact ⟨i, rfl, hfirst, hlast, hloud⟩
  · rintro ⟨i, rfl, hfirst, hlast, hloud⟩
    obtain ⟨level, hlevel, hlt⟩ := hloud
    obtain ⟨hlength, -⟩ := List.getElem?_eq_some_iff.mp (Option.mem_def.mp hlevel)
    exact ⟨i, List.mem_filter.mpr ⟨List.mem_range.mpr hlength,
      decide_eq_true ⟨hfirst, hlast, level, hlevel, hlt⟩⟩, rfl⟩

theorem hits_sorted (first last : ℤ) : (hits levels threshold first last).Pairwise (· < ·) := by
  unfold hits
  rw [List.pairwise_map]
  refine List.Pairwise.imp (fun h => Int.ofNat_lt.mpr h) ?_
  exact List.pairwise_lt_range.filter _

theorem inWindow_iff : InWindow vad edge ↔ vad - 100 ≤ edge ∧ edge ≤ vad + 100 := by
  unfold InWindow REFINE_WINDOW_MS
  rw [abs_le]
  omega

/-- The frames looked at are those that start in the window. -/
theorem start_window_iff {i : ℕ} (hi : i < levels.length) :
    (max 0 (ceilFrame (vad - REFINE_WINDOW_MS)) ≤ (i : ℤ) ∧
      (i : ℤ) ≤ min ((levels.length : ℤ) - 1) ((vad + REFINE_WINDOW_MS) / REFINE_FRAME_MS)) ↔
    InWindow vad (i * REFINE_FRAME_MS) := by
  rw [inWindow_iff]
  unfold ceilFrame REFINE_WINDOW_MS REFINE_FRAME_MS
  omega

/-- The frames looked at are those that end in the window. -/
theorem end_window_iff {i : ℕ} (hi : i < levels.length) :
    (max 0 (ceilFrame (vad - REFINE_WINDOW_MS) - 1) ≤ (i : ℤ) ∧
      (i : ℤ) ≤ min ((levels.length : ℤ) - 1) ((vad + REFINE_WINDOW_MS) / REFINE_FRAME_MS - 1)) ↔
    InWindow vad ((i + 1) * REFINE_FRAME_MS) := by
  rw [inWindow_iff]
  unfold ceilFrame REFINE_WINDOW_MS REFINE_FRAME_MS
  omega

theorem Loud.lt_length {i : ℕ} (h : Loud levels threshold i) : i < levels.length := by
  obtain ⟨level, hlevel, -⟩ := h
  exact (List.getElem?_eq_some_iff.mp (Option.mem_def.mp hlevel)).1

theorem refinedStart_spec (vad : ℤ) :
    StartEdge levels threshold vad ((refinedStart levels threshold vad).getD vad) := by
  unfold refinedStart
  set first := max 0 (ceilFrame (vad - REFINE_WINDOW_MS))
  set last := min ((levels.length : ℤ) - 1) ((vad + REFINE_WINDOW_MS) / REFINE_FRAME_MS)
  have hmem : ∀ i : ℕ, Loud levels threshold i → InWindow vad (i * REFINE_FRAME_MS) →
      (i : ℤ) ∈ hits levels threshold first last := by
    intro i hloud hwindow
    obtain ⟨hfirst, hlast⟩ := (start_window_iff hloud.lt_length).mpr hwindow
    exact mem_hits.mpr ⟨i, rfl, hfirst, hlast, hloud⟩
  dsimp only
  cases hhits : hits levels threshold first last with
  | nil =>
    rw [hhits] at hmem
    refine ⟨inWindow_iff.mpr ?_, fun i hloud hwindow => absurd (hmem i hloud hwindow)
      List.not_mem_nil, fun _ => rfl⟩
    show vad - 100 ≤ vad ∧ vad ≤ vad + 100
    omega
  | cons hit rest =>
    have hsorted := hhits ▸ (hits_sorted first last : (hits levels threshold first last).Pairwise (· < ·))
    obtain ⟨j, rfl, hfirst, hlast, hloud⟩ := mem_hits.mp (hhits ▸ List.mem_cons_self :
      hit ∈ hits levels threshold first last)
    have hwindow := (start_window_iff hloud.lt_length).mp ⟨hfirst, hlast⟩
    refine ⟨hwindow, fun i hi hin => ⟨?_, j, hloud, rfl⟩, fun hnone => absurd hwindow (hnone j hloud)⟩
    have hle : (j : ℤ) ≤ i := by
      rcases List.mem_cons.mp (hhits ▸ hmem i hi hin) with heq | hrest
      · exact heq.symm.le
      · exact ((List.pairwise_cons.mp hsorted).1 _ hrest).le
    show (j : ℤ) * REFINE_FRAME_MS ≤ _
    unfold REFINE_FRAME_MS
    omega

theorem refinedEnd_spec (vad : ℤ) :
    EndEdge levels threshold vad ((refinedEnd levels threshold vad).getD vad) := by
  unfold refinedEnd
  set first := max 0 (ceilFrame (vad - REFINE_WINDOW_MS) - 1)
  set last := min ((levels.length : ℤ) - 1) ((vad + REFINE_WINDOW_MS) / REFINE_FRAME_MS - 1)
  have hmem : ∀ i : ℕ, Loud levels threshold i → InWindow vad ((i + 1) * REFINE_FRAME_MS) →
      (i : ℤ) ∈ hits levels threshold first last := by
    intro i hloud hwindow
    obtain ⟨hfirst, hlast⟩ := (end_window_iff hloud.lt_length).mpr hwindow
    exact mem_hits.mpr ⟨i, rfl, hfirst, hlast, hloud⟩
  dsimp only
  rcases List.eq_nil_or_concat (hits levels threshold first last) with hhits | ⟨rest, hit, hhits⟩
  · rw [hhits] at hmem ⊢
    refine ⟨inWindow_iff.mpr ?_, fun i hloud hwindow => absurd (hmem i hloud hwindow)
      List.not_mem_nil, fun _ => rfl⟩
    show vad - 100 ≤ vad ∧ vad ≤ vad + 100
    omega
  · rw [List.concat_eq_append] at hhits
    have hsorted := hhits ▸ (hits_sorted first last : (hits levels threshold first last).Pairwise (· < ·))
    obtain ⟨j, rfl, hfirst, hlast, hloud⟩ := mem_hits.mp
      (hhits ▸ List.mem_append_right _ (List.mem_singleton_self hit) :
        hit ∈ hits levels threshold first last)
    have hwindow := (end_window_iff hloud.lt_length).mp ⟨hfirst, hlast⟩
    rw [hhits, List.getLast?_concat, Option.map_some, Option.getD_some]
    refine ⟨hwindow, fun i hi hin => ⟨?_, j, hloud, rfl⟩, fun hnone => absurd hwindow (hnone j hloud)⟩
    have hle : (i : ℤ) ≤ j := by
      rcases List.mem_append.mp (hhits ▸ hmem i hi hin) with hrest | hlast
      · exact ((List.pairwise_append.mp hsorted).2.2 _ hrest _ (List.mem_singleton_self _)).le
      · exact (List.mem_singleton.mp hlast).le
    unfold REFINE_FRAME_MS
    omega

/-- **A boundary's uncertainty** is at least the floor, and how far the two
estimates are apart. -/
theorem le_sigma (vad : ℤ) (refined : Option ℤ) :
    max SIGMA_FLOOR_MS |vad - refined.getD vad| ≤ sigma vad refined := by
  cases refined with
  | none =>
    rw [Option.getD_none, Int.sub_self, abs_zero]
    show max (10 : ℤ) 0 ≤ 100
    decide
  | some refined => exact le_rfl

end Edges

/-! ## Runs -/

section Runs

variable {levels : List (WithBot ℚ)} {threshold : WithBot ℚ}

/-- **What is said of a run** in milliseconds. -/
structure Refined (levels : List (WithBot ℚ)) (threshold : WithBot ℚ) (run : SpeechRun) :
    Prop where
  nonneg : 0 ≤ run.startMs
  lt : run.startMs < run.endMs
  start : StartEdge levels threshold run.vadStartMs run.startMs
  stop : EndEdge levels threshold run.vadEndMs run.endMs
  startSigma : max SIGMA_FLOOR_MS |run.vadStartMs - run.startMs| ≤ run.startSigmaMs
  endSigma : max SIGMA_FLOOR_MS |run.vadEndMs - run.endMs| ≤ run.endSigmaMs

/-- Runs longer than two windows, and further apart than two. -/
structure Spaced (runs : List (ℤ × ℤ)) : Prop where
  nonneg : ∀ run ∈ runs, 0 ≤ run.1
  long : ∀ run ∈ runs, 2 * REFINE_WINDOW_MS < run.2 - run.1
  apart : runs.Pairwise fun a b => 2 * REFINE_WINDOW_MS < b.1 - a.2

theorem StartEdge.nonneg {vad edge : ℤ} (h : StartEdge levels threshold vad edge)
    (hvad : 0 ≤ vad) : 0 ≤ edge := by
  by_cases hloud : ∃ i : ℕ, Loud levels threshold i ∧ InWindow vad (i * REFINE_FRAME_MS)
  · obtain ⟨i, hi, hwindow⟩ := hloud
    obtain ⟨-, j, -, rfl⟩ := h.first i hi hwindow
    unfold REFINE_FRAME_MS
    omega
  · rw [h.none fun i hi hwindow => hloud ⟨i, hi, hwindow⟩]
    exact hvad

/-- **A long run does not turn around.** -/
theorem refineRun_spec {run : ℤ × ℤ} (hnonneg : 0 ≤ run.1)
    (hlong : 2 * REFINE_WINDOW_MS < run.2 - run.1) :
    Refined levels threshold (refineRun levels threshold run) ∧
      (refineRun levels threshold run).vadStartMs = run.1 ∧
      (refineRun levels threshold run).vadEndMs = run.2 := by
  have hstart : StartEdge levels threshold run.1 _ := refinedStart_spec run.1
  have hstop : EndEdge levels threshold run.2 _ := refinedEnd_spec run.2
  have hs := inWindow_iff.mp hstart.window
  have he := inWindow_iff.mp hstop.window
  have hlt : (refinedStart levels threshold run.1).getD run.1 <
      (refinedEnd levels threshold run.2).getD run.2 := by
    unfold REFINE_WINDOW_MS at hlong
    omega
  unfold refineRun
  dsimp only
  rw [if_neg (not_le.mpr hlt)]
  exact ⟨⟨hstart.nonneg hnonneg, hlt, hstart, hstop, le_sigma _ _, le_sigma _ _⟩, rfl, rfl⟩

/-- Runs that do not meet are kept as they are. -/
theorem keepApart_eq {runs : List SpeechRun}
    (h : runs.Pairwise fun a b => a.endMs < b.startMs) : keepApart runs = runs := by
  induction runs with
  | nil => rfl
  | cons current rest ih =>
    obtain ⟨hcurrent, hrest⟩ := List.pairwise_cons.mp h
    cases rest with
    | nil => rfl
    | cons following rest =>
      rw [keepApart, ih hrest, if_neg (not_lt.mpr (hcurrent following List.mem_cons_self).le)]

/-- **Refining keeps the runs**, their order, and what lies between them. -/
theorem refine_spec {runs : List (ℤ × ℤ)} (h : Spaced runs) :
    (refine runs levels threshold).map (fun run => (run.vadStartMs, run.vadEndMs)) = runs ∧
      ((refine runs levels threshold).Pairwise fun a b => a.endMs < b.startMs) ∧
      ∀ run ∈ refine runs levels threshold, Refined levels threshold run := by
  have hrefined : ∀ run ∈ runs, Refined levels threshold (refineRun levels threshold run) ∧
      (refineRun levels threshold run).vadStartMs = run.1 ∧
      (refineRun levels threshold run).vadEndMs = run.2 :=
    fun run hrun => refineRun_spec (h.nonneg run hrun) (h.long run hrun)
  have hapart : (runs.map (refineRun levels threshold)).Pairwise
      fun a b => a.endMs < b.startMs := by
    rw [List.pairwise_map]
    refine h.apart.imp_of_mem fun {a b} ha hb hab => ?_
    obtain ⟨hra, -, hea⟩ := hrefined a ha
    obtain ⟨hrb, hsb, -⟩ := hrefined b hb
    have he := inWindow_iff.mp hra.stop.window
    have hs := inWindow_iff.mp hrb.start.window
    unfold REFINE_WINDOW_MS at hab
    omega
  unfold refine
  rw [keepApart_eq hapart]
  refine ⟨?_, hapart, fun run hrun => ?_⟩
  · rw [List.map_map]
    refine (List.map_congr_left fun run hrun => ?_).trans (List.map_id runs)
    obtain ⟨-, hs, he⟩ := hrefined run hrun
    exact Prod.ext hs he
  · obtain ⟨vad, hvad, rfl⟩ := List.mem_map.mp hrun
    exact (hrefined vad hvad).1

end Runs

/-! ## A channel's runs -/

section Channel

variable {rate : Rate} {p : List ℚ} {totalSamples : ℕ}

theorem ms_mono {x y : ℕ} (h : x ≤ y) : ms rate x ≤ ms rate y :=
  Nat.div_le_div_right (by omega)

/-- So many milliseconds later. -/
theorem ms_add (rate : Rate) (x k : ℕ) : ms rate (x + rate.hz / 1000 * k) = ms rate x + k := by
  cases rate with
  | hz8000 =>
    show ((x + 8000 / 1000 * k) * 2000 + 8000) / (2 * 8000) = (x * 2000 + 8000) / (2 * 8000) + k
    omega
  | hz16000 =>
    show ((x + 16000 / 1000 * k) * 2000 + 16000) / (2 * 16000) = (x * 2000 + 16000) / (2 * 16000) + k
    omega

/-- The runs of a track start with its frames, from one on. -/
theorem Segments.starts {ends : ℕ → Prop} {i : ℕ} {runs : List (ℕ × ℕ)}
    (h : Segments rate p totalSamples ends i runs) :
    ∀ run ∈ runs, ∃ s, i ≤ s ∧ On p s ∧ run.1 = s * rate.frame := by
  induction h with
  | silent => rintro _ ⟨⟩
  | last his hon => exact fun run hrun => ⟨_, his, hon, by rw [List.mem_singleton.mp hrun]⟩
  | run his hon _ hlt _ _ _ ih =>
    intro run hrun
    rcases List.mem_cons.mp hrun with rfl | hrest
    · exact ⟨_, his, hon, rfl⟩
    · obtain ⟨s, hs, hons, hrun⟩ := ih run hrest
      exact ⟨s, by omega, hons, hrun⟩

/-- **Runs are apart**, by more than the least silence. -/
theorem Segments.apart {i : ℕ} {runs : List (ℕ × ℕ)}
    (h : Segments rate p totalSamples (Ends rate p) i runs) :
    runs.Pairwise fun a b => a.2 + rate.minSilence + rate.frame ≤ b.1 := by
  induction h with
  | silent => exact List.Pairwise.nil
  | last => exact List.pairwise_singleton _ _
  | @run i s e rest his hon _ hlt hend _ hrest ih =>
    refine List.Pairwise.cons (fun later hlater => ?_) ih
    obtain ⟨s', hes', hon', hstart⟩ := hrest.starts later hlater
    obtain ⟨-, f, hef, hofff, hlong, hquiet⟩ := hend
    have hlt' : f < s' := by
      rcases Nat.lt_trichotomy f s' with hlt' | rfl | hlt'
      · exact hlt'
      · exact absurd hon' (not_on_of_off hofff)
      · exact absurd hon' (hquiet s' hes' hlt')
    have hsucc : (f + 1) * rate.frame ≤ s' * rate.frame := Nat.mul_le_mul_right _ hlt'
    rw [hstart]
    dsimp only
    rw [Nat.sub_mul] at hlong
    rw [Nat.add_mul, Nat.one_mul] at hsucc
    have hle : e * rate.frame ≤ f * rate.frame := Nat.mul_le_mul_right _ hef
    omega

/-- `vad_runs` of `_channel` -/
def vadRuns (rate : Rate) (p : List ℚ) (totalSamples : ℕ) : List (ℤ × ℤ) :=
  (segment rate p totalSamples).map fun run => ((ms rate run.1 : ℤ), (ms rate run.2 : ℤ))

/-- **The runs of a channel are spaced for refining.** -/
theorem spaced_vadRuns (rate : Rate) (p : List ℚ) (totalSamples : ℕ) :
    Spaced (vadRuns rate p totalSamples) := by
  obtain ⟨found, hfound, heq⟩ := segment_eq rate p totalSamples
  unfold vadRuns
  rw [heq]
  refine ⟨fun run hrun => ?_, fun run hrun => ?_, ?_⟩
  · obtain ⟨r, -, rfl⟩ := List.mem_map.mp hrun
    exact Int.natCast_nonneg _
  · obtain ⟨r, hr, rfl⟩ := List.mem_map.mp hrun
    have hlong := of_decide_eq_true (List.mem_filter.mp hr).2
    have hms : ms rate (r.1 + rate.hz / 1000 * 250) ≤ ms rate r.2 := by
      refine ms_mono ?_
      have : rate.minSpeech = rate.hz / 1000 * 250 := by cases rate <;> rfl
      omega
    rw [ms_add] at hms
    unfold REFINE_WINDOW_MS
    dsimp only
    omega
  · rw [List.pairwise_map]
    refine (hfound.apart.filter _).imp fun {a b} hab => ?_
    have hms : ms rate (a.2 + rate.hz / 1000 * 201) ≤ ms rate b.1 := by
      refine ms_mono ?_
      have : rate.hz / 1000 * 201 ≤ rate.minSilence + rate.frame := by cases rate <;> decide
      omega
    rw [ms_add] at hms
    unfold REFINE_WINDOW_MS
    dsimp only
    omega

/-- **A channel's runs are faithful to the model's probabilities.** They are the
runs the definition gives, the short ones left out; and in milliseconds each
is refined to a run of its own, apart from the others, whose edges are the
loud frames' of its windows and whose uncertainties cover what they moved
by. -/
theorem channel_runs (rate : Rate) (p : List ℚ) (totalSamples : ℕ) (levels : List (WithBot ℚ))
    (threshold : WithBot ℚ) :
    (∃ found, Segments rate p totalSamples (Ends rate p) 0 found ∧
        (∀ found', Segments rate p totalSamples (Ends rate p) 0 found' → found' = found) ∧
        segment rate p totalSamples = longRuns rate found) ∧
      (refine (vadRuns rate p totalSamples) levels threshold).map
          (fun run => (run.vadStartMs, run.vadEndMs)) = vadRuns rate p totalSamples ∧
      ((refine (vadRuns rate p totalSamples) levels threshold).Pairwise
        fun a b => a.endMs < b.startMs) ∧
      ∀ run ∈ refine (vadRuns rate p totalSamples) levels threshold,
        Refined levels threshold run := by
  obtain ⟨found, hfound, heq⟩ := segment_eq rate p totalSamples
  exact ⟨⟨found, hfound, fun _ h => h.unique hfound, heq⟩,
    refine_spec (spaced_vadRuns rate p totalSamples)⟩

/-! ## Quiet that is not confirmed -/

/-- Where a run could end if quiet needed no second frame below the lower
threshold: the frames that follow, for the least silence or more, are not at
or above the upper one. -/
def EndsUnconfirmed (rate : Rate) (p : List ℚ) (e : ℕ) : Prop :=
  Off p e ∧ ∃ g, g ≤ p.length ∧ rate.minSilence ≤ (g - e) * rate.frame ∧ QuietBetween p e g

/-- Speech, one quiet frame, seven frames between the thresholds, and speech. -/
def unconfirmed : List ℚ :=
  List.replicate 8 (9 / 10) ++ [1 / 10] ++ List.replicate 7 (4 / 10) ++ [9 / 10]

/-- **Such quiet does not end a run**: 224 ms pass between the two thresholds, and
the run goes on to the end of the track. -/
theorem not_endsUnconfirmed :
    ¬ ∃ found, Segments .hz16000 unconfirmed 8704 (EndsUnconfirmed .hz16000 unconfirmed) 0 found ∧
      segment .hz16000 unconfirmed 8704 = longRuns .hz16000 found := by
  have hon : On unconfirmed 0 := ⟨9 / 10, rfl, by norm_num [ON_THRESHOLD]⟩
  have hsegment : segment .hz16000 unconfirmed 8704 = [(0, 8704)] := by decide +kernel
  have hend : EndsUnconfirmed .hz16000 unconfirmed 8 := by
    refine ⟨⟨1 / 10, rfl, by norm_num [OFF_THRESHOLD]⟩, 16, by decide, by decide, ?_⟩
    have hlow : ∀ j : Fin 8, unconfirmed[8 + j.val]?.all (· < ON_THRESHOLD) = true := by
      decide +kernel
    rintro k hk hlt ⟨x, hx, hxon⟩
    have hall := hlow ⟨k - 8, by omega⟩
    rw [Option.mem_def] at hx
    rw [show 8 + (k - 8) = k by omega, hx] at hall
    exact absurd (of_decide_eq_true hall) (not_lt.mpr hxon)
  have hnot : ∀ e, 0 < e → e < 8 → ¬ EndsUnconfirmed .hz16000 unconfirmed e := by
    have hhigh : ∀ j : Fin 8, unconfirmed[j.val]?.all (ON_THRESHOLD ≤ ·) = true := by
      decide +kernel
    rintro e hpos hlt ⟨⟨x, hx, hoff⟩, -⟩
    have hall := hhigh ⟨e, hlt⟩
    rw [Option.mem_def] at hx
    rw [hx] at hall
    exact absurd (of_decide_eq_true hall) (not_le.mpr (lt_on_of_lt_off hoff))
  rintro ⟨found, hfound, heq⟩
  cases hfound with
  | silent h => exact h 0 (Nat.le_refl 0) hon
  | @last _ s _ hons hbefore hends =>
    obtain rfl : s = 0 := by
      by_contra hne
      exact hbefore 0 (Nat.le_refl 0) (by omega) hon
    exact hends 8 (by decide) hend
  | @run _ s e rest _ hons hbefore hlt hends hfirst _ =>
    obtain rfl : s = 0 := by
      by_contra hne
      exact hbefore 0 (Nat.le_refl 0) (by omega) hon
    obtain rfl : e = 8 := by
      rcases Nat.lt_trichotomy e 8 with hless | heq' | hmore
      · exact absurd hends (hnot e hlt hless)
      · exact heq'
      · exact absurd hend (hfirst 8 (by decide) hmore)
    rw [hsegment, longRuns_cons] at heq
    exact absurd heq (by rintro ⟨⟩)

end Channel

end Earshot.Signals
