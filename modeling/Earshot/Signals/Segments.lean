import Mathlib.Data.Rat.Defs
import Mathlib.Algebra.Order.Ring.Rat
import Mathlib.Tactic.Linarith
import Mathlib.Tactic.NormNum
/-!
# Speech runs

Where speech starts and ends, from a voice-activity model's probability for
each frame. The scan keeps a flag and two positions. What it finds is
defined without them (`Segments`): a run starts at the first frame at or
above the upper threshold, and ends at the first frame below the lower one
that some later frame below it confirms, with nothing at or above the upper
threshold between the two.

A frame between the thresholds neither ends a run nor keeps it going, so
quiet that no second frame below the lower threshold confirms does not end
one, however long it lasts.
-/

namespace Earshot.Signals

/-- The rates the model runs at. -/
inductive Rate where
  | hz8000
  | hz16000
  deriving DecidableEq

def Rate.hz : Rate → ℕ
  | .hz8000 => 8000
  | .hz16000 => 16000

/-- `FRAME_SAMPLES` -/
def Rate.frame : Rate → ℕ
  | .hz8000 => 256
  | .hz16000 => 512

def ON_THRESHOLD : ℚ := 1 / 2
def OFF_THRESHOLD : ℚ := 35 / 100
def MIN_SPEECH_MS : ℕ := 250
def MIN_SILENCE_MS : ℕ := 200

namespace Rate

def minSpeech (rate : Rate) : ℕ := rate.hz * MIN_SPEECH_MS / 1000
def minSilence (rate : Rate) : ℕ := rate.hz * MIN_SILENCE_MS / 1000

theorem frame_pos (rate : Rate) : 0 < rate.frame := by cases rate <;> decide

theorem minSilence_pos (rate : Rate) : 0 < rate.minSilence := by cases rate <;> decide

end Rate

/-! ## The scan -/

/-- The variables of `segment`'s loop. -/
structure SegmentState where
  runs : List (ℕ × ℕ)
  triggered : Bool
  start : ℕ
  quietFrom : ℕ

/-- A frame at or above the upper threshold ends the quiet: a `quiet_from` of
zero is none. -/
def clearQuiet (quietFrom : ℕ) (probability : ℚ) : ℕ :=
  if ON_THRESHOLD ≤ probability ∧ quietFrom ≠ 0 then 0 else quietFrom

/-- One frame. -/
def SegmentState.step (rate : Rate) (s : SegmentState) (index : ℕ) (probability : ℚ) :
    SegmentState :=
  let position := index * rate.frame
  let quietFrom := clearQuiet s.quietFrom probability
  if ON_THRESHOLD ≤ probability ∧ s.triggered = false then ⟨s.runs, true, position, quietFrom⟩
  else if probability < OFF_THRESHOLD ∧ s.triggered = true then
    let quietFrom := if quietFrom = 0 then position else quietFrom
    if position - quietFrom < rate.minSilence then ⟨s.runs, s.triggered, s.start, quietFrom⟩
    else
      ⟨if rate.minSpeech < quietFrom - s.start then s.runs ++ [(s.start, quietFrom)] else s.runs,
        false, s.start, 0⟩
  else ⟨s.runs, s.triggered, s.start, quietFrom⟩

/-- The loop, from frame `index` on. -/
def segmentFrom (rate : Rate) : SegmentState → ℕ → List ℚ → SegmentState
  | s, _, [] => s
  | s, index, probability :: rest =>
    segmentFrom rate (s.step rate index probability) (index + 1) rest

/-- The run that reaches the end of the track. -/
def SegmentState.finish (rate : Rate) (totalSamples : ℕ) (s : SegmentState) : List (ℕ × ℕ) :=
  if s.triggered = true ∧ rate.minSpeech < totalSamples - s.start then
    s.runs ++ [(s.start, totalSamples)]
  else s.runs

/-- `segment` -/
def segment (rate : Rate) (probabilities : List ℚ) (totalSamples : ℕ) : List (ℕ × ℕ) :=
  (segmentFrom rate ⟨[], false, 0, 0⟩ 0 probabilities).finish rate totalSamples

/-! ## The runs, by definition -/

/-- A frame at or above the upper threshold. -/
def On (p : List ℚ) (k : ℕ) : Prop := ∃ x ∈ p[k]?, ON_THRESHOLD ≤ x

/-- A frame below the lower one. -/
def Off (p : List ℚ) (k : ℕ) : Prop := ∃ x ∈ p[k]?, x < OFF_THRESHOLD

/-- No frame from `e` up to `f` is at or above the upper threshold. -/
def QuietBetween (p : List ℚ) (e f : ℕ) : Prop := ∀ k, e ≤ k → k < f → ¬ On p k

/-- **Where a run can end**: at a frame below the lower threshold that another,
the least silence later or more, confirms. -/
def Ends (rate : Rate) (p : List ℚ) (e : ℕ) : Prop :=
  Off p e ∧ ∃ f, e ≤ f ∧ Off p f ∧ rate.minSilence ≤ (f - e) * rate.frame ∧ QuietBetween p e f

/-- The runs from a frame on where nobody speaks, in samples, with a given
notion of where a run can end. -/
inductive Segments (rate : Rate) (p : List ℚ) (totalSamples : ℕ) (ends : ℕ → Prop) :
    ℕ → List (ℕ × ℕ) → Prop
  /-- Nobody speaks any more. -/
  | silent {i : ℕ} : (∀ k, i ≤ k → ¬ On p k) → Segments rate p totalSamples ends i []
  /-- A run that nothing ends reaches the end of the track. -/
  | last {i s : ℕ} : i ≤ s → On p s → QuietBetween p i s → (∀ e, s < e → ¬ ends e) →
      Segments rate p totalSamples ends i [(s * rate.frame, totalSamples)]
  /-- A run ends where one first can. -/
  | run {i s e : ℕ} {rest : List (ℕ × ℕ)} : i ≤ s → On p s → QuietBetween p i s →
      s < e → ends e → (∀ e', s < e' → e' < e → ¬ ends e') →
      Segments rate p totalSamples ends e rest →
      Segments rate p totalSamples ends i ((s * rate.frame, e * rate.frame) :: rest)

/-- The runs that are long enough. -/
def longRuns (rate : Rate) (runs : List (ℕ × ℕ)) : List (ℕ × ℕ) :=
  runs.filter fun run => rate.minSpeech < run.2 - run.1

section Definition

variable {rate : Rate} {p : List ℚ} {totalSamples : ℕ} {ends : ℕ → Prop} {i j : ℕ}
  {runs runs' : List (ℕ × ℕ)}

theorem not_on_of_off (h : Off p i) : ¬ On p i := by
  rintro ⟨x, hx, hon⟩
  obtain ⟨y, hy, hoff⟩ := h
  rw [Option.mem_def] at hx hy
  obtain rfl := Option.some.inj (hx.symm.trans hy)
  unfold ON_THRESHOLD at hon
  unfold OFF_THRESHOLD at hoff
  linarith

/-- Frames before a run starts do not matter. -/
theorem Segments.extend (h : Segments rate p totalSamples ends i runs) (hle : j ≤ i)
    (hquiet : QuietBetween p j i) : Segments rate p totalSamples ends j runs := by
  have hjoin : ∀ s, QuietBetween p i s → QuietBetween p j s := by
    intro s hs k hk hks
    rcases Nat.lt_or_ge k i with hlt | hge
    · exact hquiet k hk hlt
    · exact hs k hge hks
  cases h with
  | silent hsilent =>
    refine .silent fun k hk => ?_
    rcases Nat.lt_or_ge k i with hlt | hge
    · exact hquiet k hk hlt
    · exact hsilent k hge
  | last his hon hbefore hends => exact .last (hle.trans his) hon (hjoin _ hbefore) hends
  | run his hon hbefore hlt hend hfirst hrest =>
    exact .run (hle.trans his) hon (hjoin _ hbefore) hlt hend hfirst hrest

/-- The first frame at or above the upper threshold is one frame. -/
theorem eq_of_first {s s' : ℕ} (his : i ≤ s) (his' : i ≤ s') (hon : On p s) (hon' : On p s')
    (h : QuietBetween p i s) (h' : QuietBetween p i s') : s = s' := by
  rcases Nat.lt_trichotomy s s' with hlt | heq | hlt
  · exact absurd hon (h' s his hlt)
  · exact heq
  · exact absurd hon' (h s' his' hlt)

/-- **The definition gives one list of runs.** -/
theorem Segments.unique (h : Segments rate p totalSamples ends i runs)
    (h' : Segments rate p totalSamples ends i runs') : runs = runs' := by
  induction h generalizing runs' with
  | silent hsilent =>
    cases h' with
    | silent => rfl
    | last his hon => exact absurd hon (hsilent _ his)
    | run his hon => exact absurd hon (hsilent _ his)
  | last his hon hbefore hends =>
    cases h' with
    | silent hsilent => exact absurd hon (hsilent _ his)
    | last his' hon' hbefore' => rw [eq_of_first his his' hon hon' hbefore hbefore']
    | run his' hon' hbefore' hlt hend =>
      obtain rfl := eq_of_first his his' hon hon' hbefore hbefore'
      exact absurd hend (hends _ hlt)
  | @run i s e rest his hon hbefore hlt hend hfirst _ ih =>
    cases h' with
    | silent hsilent => exact absurd hon (hsilent _ his)
    | last his' hon' hbefore' hends' =>
      obtain rfl := eq_of_first his his' hon hon' hbefore hbefore'
      exact absurd hend (hends' _ hlt)
    | @run _ s' e' rest' his' hon' hbefore' hlt' hend' hfirst' hrest' =>
      obtain rfl := eq_of_first his his' hon hon' hbefore hbefore'
      rcases Nat.lt_trichotomy e e' with hless | rfl | hless
      · exact absurd hend (hfirst' _ hlt hless)
      · rw [ih hrest']
      · exact absurd hend' (hfirst _ hlt' hless)

end Definition

/-! ## The scan finds them -/

section Scan

variable {rate : Rate} {p : List ℚ} {totalSamples : ℕ}

/-- What the scan knows of the quiet since a run's start: `quiet` is the first
frame below the lower threshold since the last one at or above the upper. -/
structure Quiet (rate : Rate) (p : List ℚ) (s i : ℕ) (quiet : Option ℕ) : Prop where
  /-- The run has not ended. -/
  goes : ∀ e f, s < e → e ≤ f → f < i → Off p e → Off p f → QuietBetween p e f →
    (f - e) * rate.frame < rate.minSilence
  off : ∀ e ∈ quiet, s < e ∧ e < i ∧ Off p e ∧ QuietBetween p e i
  first : ∀ e, s < e → e < i → Off p e → QuietBetween p e i → ∃ q ∈ quiet, q ≤ e

/-- `quiet_from`, of a frame. -/
def quietOf (rate : Rate) (quiet : Option ℕ) : ℕ := (quiet.map (· * rate.frame)).getD 0

theorem Quiet.new (rate : Rate) (p : List ℚ) (s : ℕ) : Quiet rate p s (s + 1) none where
  goes e f hse hef hf := by omega
  off := by rintro _ ⟨⟩
  first e hse he := by omega

/-- A frame at or above the upper threshold ends the quiet. -/
theorem Quiet.on {s i : ℕ} {quiet : Option ℕ} (h : Quiet rate p s i quiet) (hon : On p i) :
    Quiet rate p s (i + 1) none where
  goes e f hse hef hf hoffe hofff hquiet := by
    have hne : f ≠ i := by
      rintro rfl
      exact not_on_of_off hofff hon
    exact h.goes e f hse hef (by omega) hoffe hofff hquiet
  off := by rintro _ ⟨⟩
  first e hse he hoff hquiet := absurd hon (hquiet i (by omega) (Nat.lt_succ_self i))

/-- A frame between the thresholds changes nothing. -/
theorem Quiet.between {s i : ℕ} {quiet : Option ℕ} (h : Quiet rate p s i quiet)
    (hon : ¬ On p i) (hoff : ¬ Off p i) : Quiet rate p s (i + 1) quiet where
  goes e f hse hef hf hoffe hofff hquiet := by
    have hne : f ≠ i := by
      rintro rfl
      exact hoff hofff
    exact h.goes e f hse hef (by omega) hoffe hofff hquiet
  off e he := by
    obtain ⟨hse, hei, hoffe, hquiet⟩ := h.off e he
    refine ⟨hse, by omega, hoffe, fun k hek hk => ?_⟩
    rcases Nat.lt_succ_iff_lt_or_eq.mp hk with hlt | rfl
    · exact hquiet k hek hlt
    · exact hon
  first e hse he hoffe hquiet := by
    have hne : e ≠ i := by
      rintro rfl
      exact hoff hoffe
    exact h.first e hse (by omega) hoffe fun k hek hk => hquiet k hek (by omega)

/-- A frame below the lower threshold starts the quiet, or goes on with it. -/
theorem Quiet.below {s i : ℕ} {quiet : Option ℕ} (h : Quiet rate p s i quiet) (hsi : s < i)
    (hoff : Off p i) (hshort : (i - quiet.getD i) * rate.frame < rate.minSilence) :
    Quiet rate p s (i + 1) (some (quiet.getD i)) where
  goes e f hse hef hf hoffe hofff hquiet := by
    by_cases hlt : f < i
    · exact h.goes e f hse hef hlt hoffe hofff hquiet
    obtain rfl : f = i := by omega
    rcases Nat.lt_or_eq_of_le hef with hlt | rfl
    · obtain ⟨q, hq, hqe⟩ := h.first e hse hlt hoffe hquiet
      rw [Option.mem_def] at hq
      rw [hq, Option.getD_some] at hshort
      exact lt_of_le_of_lt (Nat.mul_le_mul_right _ (by omega)) hshort
    · rw [Nat.sub_self, Nat.zero_mul]
      exact rate.minSilence_pos
  off e he := by
    obtain rfl := Option.some.inj (Option.mem_def.mp he)
    cases quiet with
    | none =>
      refine ⟨hsi, Nat.lt_succ_self i, hoff, fun k hik hk => ?_⟩
      obtain rfl : k = i := Nat.le_antisymm (Nat.lt_succ_iff.mp hk) hik
      exact not_on_of_off hoff
    | some q =>
      obtain ⟨hsq, hqi, hoffq, hquiet⟩ := h.off q rfl
      refine ⟨hsq, Nat.lt_succ_of_lt hqi, hoffq, fun k hqk hk => ?_⟩
      rcases Nat.lt_succ_iff_lt_or_eq.mp hk with hlt | rfl
      · exact hquiet k hqk hlt
      · exact not_on_of_off hoff
  first e hse he hoffe hquiet := by
    refine ⟨_, rfl, ?_⟩
    cases quiet with
    | none =>
      rcases Nat.lt_succ_iff_lt_or_eq.mp he with hlt | rfl
      · obtain ⟨_, ⟨⟩, _⟩ := h.first e hse hlt hoffe fun k hek hk => hquiet k hek (by omega)
      · exact Nat.le_refl _
    | some q =>
      obtain ⟨-, hqi, -, -⟩ := h.off q rfl
      rcases Nat.lt_succ_iff_lt_or_eq.mp he with hlt | rfl
      · obtain ⟨q', hq', hle⟩ := h.first e hse hlt hoffe fun k hek hk => hquiet k hek (by omega)
        obtain rfl := Option.some.inj (Option.mem_def.mp hq')
        exact hle
      · exact hqi.le

/-- **The frame that confirms the quiet** ends the run where it first can end. -/
theorem Quiet.ends {s i : ℕ} {quiet : Option ℕ} (h : Quiet rate p s i quiet) (hsi : s < i)
    (hoff : Off p i) (hlong : rate.minSilence ≤ (i - quiet.getD i) * rate.frame) :
    ∃ q, quiet = some q ∧ s < q ∧ q < i ∧ Ends rate p q ∧ QuietBetween p q (i + 1) ∧
      ∀ e, s < e → e < q → ¬ Ends rate p e := by
  cases quiet with
  | none =>
    rw [Option.getD_none, Nat.sub_self, Nat.zero_mul] at hlong
    exact absurd hlong (Nat.not_le.mpr rate.minSilence_pos)
  | some q =>
    rw [Option.getD_some] at hlong
    obtain ⟨hsq, hqi, hoffq, hquiet⟩ := h.off q rfl
    refine ⟨q, rfl, hsq, hqi, ⟨hoffq, i, hqi.le, hoff, hlong, hquiet⟩, fun k hqk hk => ?_, ?_⟩
    · rcases Nat.lt_succ_iff_lt_or_eq.mp hk with hlt | rfl
      · exact hquiet k hqk hlt
      · exact not_on_of_off hoff
    · rintro e hse heq ⟨hoffe, f, hef, hofff, hlongf, hquietf⟩
      by_cases hfi : f < i
      · exact absurd (h.goes e f hse hef hfi hoffe hofff hquietf) (Nat.not_lt.mpr hlongf)
      · obtain ⟨q', hq', hle⟩ := h.first e hse (by omega) hoffe
          fun k hek hk => hquietf k hek (by omega)
        obtain rfl := Option.some.inj (Option.mem_def.mp hq')
        omega

/-! ## One frame -/

section Step

variable {runs : List (ℕ × ℕ)} {start s i : ℕ} {x : ℚ} {quiet : Option ℕ}

theorem lt_on_of_lt_off (h : x < OFF_THRESHOLD) : x < ON_THRESHOLD := by
  unfold OFF_THRESHOLD at h
  unfold ON_THRESHOLD
  linarith

theorem clearQuiet_on (quietFrom : ℕ) (h : ON_THRESHOLD ≤ x) : clearQuiet quietFrom x = 0 := by
  unfold clearQuiet
  split
  · rfl
  · rename_i hne
    by_contra hquiet
    exact hne ⟨h, hquiet⟩

theorem clearQuiet_of_not (quietFrom : ℕ) (h : ¬ ON_THRESHOLD ≤ x) :
    clearQuiet quietFrom x = quietFrom :=
  if_neg fun hon => h hon.1

theorem step_silent_on (h : ON_THRESHOLD ≤ x) :
    SegmentState.step rate ⟨runs, false, start, 0⟩ i x = ⟨runs, true, i * rate.frame, 0⟩ := by
  unfold SegmentState.step
  dsimp only
  rw [clearQuiet_on 0 h, if_pos ⟨h, rfl⟩]

theorem step_silent (h : ¬ ON_THRESHOLD ≤ x) :
    SegmentState.step rate ⟨runs, false, start, 0⟩ i x = ⟨runs, false, start, 0⟩ := by
  unfold SegmentState.step
  dsimp only
  rw [clearQuiet_of_not 0 h, if_neg (fun hon => h hon.1),
    if_neg (fun htriggered => Bool.false_ne_true htriggered.2)]

theorem step_speech_on {quietFrom : ℕ} (h : ON_THRESHOLD ≤ x) :
    SegmentState.step rate ⟨runs, true, start, quietFrom⟩ i x = ⟨runs, true, start, 0⟩ := by
  unfold SegmentState.step
  dsimp only
  rw [clearQuiet_on quietFrom h, if_neg (fun hfalse => Bool.false_ne_true hfalse.2.symm),
    if_neg (fun hlow => absurd (lt_on_of_lt_off hlow.1) (not_lt.mpr h))]

theorem step_speech_between {quietFrom : ℕ} (hon : ¬ ON_THRESHOLD ≤ x)
    (hoff : ¬ x < OFF_THRESHOLD) :
    SegmentState.step rate ⟨runs, true, start, quietFrom⟩ i x =
      ⟨runs, true, start, quietFrom⟩ := by
  unfold SegmentState.step
  dsimp only
  rw [clearQuiet_of_not quietFrom hon, if_neg (fun h => hon h.1), if_neg (fun h => hoff h.1)]

/-- A frame below the lower threshold: its position, or where the quiet began. -/
theorem step_speech_off (hoff : x < OFF_THRESHOLD) (hquiet : ∀ q ∈ quiet, 0 < q) :
    SegmentState.step rate ⟨runs, true, start, quietOf rate quiet⟩ i x =
      if (i - quiet.getD i) * rate.frame < rate.minSilence then
        ⟨runs, true, start, quietOf rate (some (quiet.getD i))⟩
      else
        ⟨if rate.minSpeech < quiet.getD i * rate.frame - start then
          runs ++ [(start, quiet.getD i * rate.frame)] else runs, false, start, 0⟩ := by
  have hon : ¬ ON_THRESHOLD ≤ x := not_le.mpr (lt_on_of_lt_off hoff)
  have hfrom : (if quietOf rate quiet = 0 then i * rate.frame else quietOf rate quiet) =
      quiet.getD i * rate.frame := by
    cases quiet with
    | none => rfl
    | some q => exact if_neg (Nat.mul_pos (hquiet q rfl) rate.frame_pos).ne'
  unfold SegmentState.step
  dsimp only
  rw [clearQuiet_of_not _ hon, if_neg (fun h => hon h.1), if_pos ⟨hoff, rfl⟩, hfrom, ← Nat.sub_mul]
  rfl

end Step

/-! ## All frames -/

theorem longRuns_cons (run : ℕ × ℕ) (rest : List (ℕ × ℕ)) :
    longRuns rate (run :: rest) =
      (if rate.minSpeech < run.2 - run.1 then [run] else []) ++ longRuns rate rest := by
  unfold longRuns
  rw [List.filter_cons]
  by_cases h : rate.minSpeech < run.2 - run.1
  · rw [if_pos (decide_eq_true h), if_pos h]
    rfl
  · rw [if_neg (by rwa [decide_eq_true_iff]), if_neg h]
    rfl

/-- **The loop finds the runs of the frames it is given**, from silence and
from speech. -/
theorem segmentFrom_spec (i : ℕ) (rest : List ℚ) (hrest : ∀ j, p[i + j]? = rest[j]?) :
    (∀ runs start, ∃ found, Segments rate p totalSamples (Ends rate p) i found ∧
      (segmentFrom rate ⟨runs, false, start, 0⟩ i rest).finish rate totalSamples =
        runs ++ longRuns rate found) ∧
      ∀ runs s quiet, On p s → s < i → Quiet rate p s i quiet →
        ∃ found, Segments rate p totalSamples (Ends rate p) s found ∧
          (segmentFrom rate ⟨runs, true, s * rate.frame, quietOf rate quiet⟩ i rest).finish rate
            totalSamples = runs ++ longRuns rate found := by
  induction rest generalizing i with
  | nil =>
    -- no frame is left: speech that goes on ends with the samples
    have hnone : ∀ k, i ≤ k → p[k]? = none := by
      intro k hk
      have := hrest (k - i)
      rwa [Nat.add_sub_cancel' hk] at this
    refine ⟨fun runs start => ⟨[], .silent fun k hk => ?_, (List.append_nil _).symm⟩,
      fun runs s quiet hon hsi hquiet => ⟨_, .last (Nat.le_refl s) hon ?_ ?_, ?_⟩⟩
    · rintro ⟨x, hx, -⟩
      rw [Option.mem_def, hnone k hk] at hx
      cases hx
    · intro k hk hks
      omega
    · rintro e hse ⟨hoff, f, hef, hofff, hlong, hbetween⟩
      have hlt : ∀ {k : ℕ}, Off p k → k < i := by
        rintro k ⟨x, hx, -⟩
        by_contra hge
        rw [Option.mem_def, hnone k (Nat.le_of_not_lt hge)] at hx
        cases hx
      exact absurd (hquiet.goes e f hse hef (hlt hofff) hoff hofff hbetween) (Nat.not_lt.mpr hlong)
    · rw [longRuns_cons, segmentFrom, SegmentState.finish]
      dsimp only
      by_cases hlong : rate.minSpeech < totalSamples - s * rate.frame
      · rw [if_pos ⟨rfl, hlong⟩, if_pos hlong]
        rfl
      · rw [if_neg (fun h => hlong h.2), if_neg hlong]
        exact (List.append_nil _).symm
  | cons x rest ih =>
    have hx : p[i]? = some x := hrest 0
    -- one frame, from silence or from speech, and then the rest
    obtain ⟨hsilent, hspeech⟩ := ih (i + 1) fun j => by
      have := hrest (j + 1)
      rwa [show i + (j + 1) = i + 1 + j by omega, List.getElem?_cons_succ] at this
    have hon_iff : On p i ↔ ON_THRESHOLD ≤ x := by
      unfold On
      rw [hx]
      exact ⟨fun ⟨y, hy, hon⟩ => Option.some.inj hy ▸ hon, fun hon => ⟨x, rfl, hon⟩⟩
    have hoff_iff : Off p i ↔ x < OFF_THRESHOLD := by
      unfold Off
      rw [hx]
      exact ⟨fun ⟨y, hy, hoff⟩ => Option.some.inj hy ▸ hoff, fun hoff => ⟨x, rfl, hoff⟩⟩
    refine ⟨fun runs start => ?_, fun runs s quiet hon hsi hquiet => ?_⟩
    · by_cases hon : ON_THRESHOLD ≤ x
      · rw [segmentFrom, step_silent_on hon]
        exact hspeech runs i none (hon_iff.mpr hon) (Nat.lt_succ_self i) (Quiet.new rate p i)
      · rw [segmentFrom, step_silent hon]
        obtain ⟨found, hfound, heq⟩ := hsilent runs start
        refine ⟨found, hfound.extend (Nat.le_succ i) fun k hk hki => ?_, heq⟩
        obtain rfl : k = i := by omega
        exact fun h => hon (hon_iff.mp h)
    · by_cases honx : ON_THRESHOLD ≤ x
      · rw [segmentFrom, step_speech_on honx]
        exact hspeech runs s none hon (by omega) (hquiet.on (hon_iff.mpr honx))
      · by_cases hoffx : x < OFF_THRESHOLD
        · have hoff := hoff_iff.mpr hoffx
          have hpos : ∀ q ∈ quiet, 0 < q := by
            intro q hq
            have := (hquiet.off q hq).1
            omega
          rw [segmentFrom, step_speech_off hoffx hpos]
          by_cases hshort : (i - quiet.getD i) * rate.frame < rate.minSilence
          · rw [if_pos hshort]
            exact hspeech runs s _ hon (by omega) (hquiet.below hsi hoff hshort)
          · -- the quiet has lasted: the run ended where it began
            rw [if_neg hshort]
            obtain ⟨q, rfl, hsq, hqi, hends, hbetween, hfirst⟩ :=
              hquiet.ends hsi hoff (Nat.not_lt.mp hshort)
            obtain ⟨found, hfound, heq⟩ := hsilent
              (if rate.minSpeech < q * rate.frame - s * rate.frame then
                runs ++ [(s * rate.frame, q * rate.frame)] else runs) (s * rate.frame)
            refine ⟨_, .run (Nat.le_refl s) hon ?_ hsq hends hfirst
              (hfound.extend (by omega) hbetween), heq.trans ?_⟩
            · intro k hk hks
              omega
            · rw [longRuns_cons]
              dsimp only
              split
              · exact List.append_assoc _ _ _
              · rfl
        · rw [segmentFrom, step_speech_between honx hoffx]
          exact hspeech runs s quiet hon (by omega)
            (hquiet.between (fun h => honx (hon_iff.mp h)) fun h => hoffx (hoff_iff.mp h))

/-- **The runs found are the runs defined**, those of the least length or less
left out. -/
theorem segment_eq (rate : Rate) (p : List ℚ) (totalSamples : ℕ) :
    ∃ found, Segments rate p totalSamples (Ends rate p) 0 found ∧
      segment rate p totalSamples = longRuns rate found :=
  (segmentFrom_spec 0 p fun j => by rw [Nat.zero_add]).1 [] 0

end Scan

end Earshot.Signals
