import Mathlib.Analysis.Real.Sqrt
import Earshot.Timeline.Gap
/-!
# The pairing rule

The rule a turn's gap is documented by speaks of all runs: the agent run
nearest to the audio A-on, the user run that is active when it starts, the
last user run that ended before. The code answers each with one probe into
sorted runs. Two of the probes answer for all runs whatever they are; the one
for a talk-over answers for the last user run that started, and so for all of
them when that one is active whenever any is (`documented_audibleGap_iff`).
-/

namespace Earshot.CallTimeline

open Bisect

/-! ## The rule -/

section Rule

variable (fl : ℚ → ℚ) (t : Timeline) (anchors : TurnAnchorsMs)

/-- Where the agent's audio starts, if the turn has an anchor for it. -/
def audioOn : Option ℤ :=
  anchors.agentOnUnixNano.bind fun agentOn => (audioAgentOn fl t (t.naiveMs fl agentOn)).1

/-- The agent run is the one nearest to the audio A-on, within the window,
and of two as near the one that starts earlier. -/
structure IsPairedAgent (a : Run) : Prop where
  mem : a ∈ t.agentRuns
  nearest : ∃ on, audioOn fl t anchors = some on ∧
    ((|a.startMs - on| : ℤ) : ℚ) ≤ PAIRING_WINDOW_MS ∧
    ∀ b ∈ t.agentRuns, |a.startMs - on| < |b.startMs - on| ∨
      |a.startMs - on| = |b.startMs - on| ∧ a.startMs ≤ b.startMs

/-- A user run is active, strictly inside, when the agent run starts. -/
def SpokenOver (a : Run) : Prop := ∃ u ∈ t.userRuns, u.startMs < a.startMs ∧ a.startMs < u.endMs

/-- The user run is the last that ended by the agent run's start, and no
agent run starts strictly in between. -/
structure IsPairedUser (a u : Run) : Prop where
  mem : u ∈ t.userRuns
  ended : u.endMs ≤ a.startMs
  last : ∀ v ∈ t.userRuns, v.endMs ≤ a.startMs →
    v.endMs < u.endMs ∨ v.endMs = u.endMs ∧ v.startMs ≤ u.startMs
  clear : ∀ b ∈ t.agentRuns, ¬ (u.endMs < b.startMs ∧ b.startMs < a.startMs)

/-- `sqrt(sigma_u^2 + sigma_a^2)` -/
noncomputable def uncertainty (user agent : Run) : ℝ :=
  √((user.endSigmaMs : ℝ) ^ 2 + (agent.startSigmaMs : ℝ) ^ 2)

/-- **The documented rule.** -/
structure Documented (g : Gap) : Prop where
  /-- The run is paired … -/
  agent : ∀ a, g.agentRun = some a → IsPairedAgent fl t anchors a
  /-- … and is missing only if there is none to pair. -/
  noAgent : g.agentRun = none →
    g = notMeasurable .noAgentAudio ∧ ∀ a, ¬ IsPairedAgent fl t anchors a
  talkOver : g.status = .talkOver ↔ ∃ a, g.agentRun = some a ∧ SpokenOver t a
  unpaired : g.reason = some .noClearPairing ↔
    ∃ a, g.agentRun = some a ∧ ¬ SpokenOver t a ∧ ∀ u, ¬ IsPairedUser t a u
  /-- A gap has edges when a user run is paired, and they are the runs'. -/
  edges : ∀ userEnd, g.userEndMs = some userEnd → ∃ a u, g.agentRun = some a ∧
    ¬ SpokenOver t a ∧ IsPairedUser t a u ∧ userEnd = u.endMs ∧
      ∃ r, g.uncertaintyMs = some r ∧ |uncertainty u a - r| < 1 / 2
  /-- A value is a measured one, from the user run's end to the agent run's
  start, and its uncertainty is within the limit. -/
  value : ∀ v, g.valueMs = some v → ∃ a u, g.agentRun = some a ∧ ¬ SpokenOver t a ∧
    IsPairedUser t a u ∧ v = a.startMs - u.endMs ∧ 0 ≤ v ∧ g.userEndMs = some u.endMs ∧
      g.agentStartMs = some a.startMs ∧ uncertainty u a ≤ MAX_MEASURABLE_GAP_UNCERTAINTY_MS
  measured : g.status = .measured ↔ g.valueMs.isSome = true
  /-- What is neither measured nor a talk-over has a reason. -/
  reason : g.status = .notMeasurable ↔ g.reason.isSome = true

end Rule

variable {fl : ℚ → ℚ} {t : Timeline} {anchors : TurnAnchorsMs} {a b u : Run}

/-! ## The agent run -/

theorem nearestPoint_id (points : List ℤ) (target : ℤ) (window : ℚ)
    (h : points.Pairwise (· ≤ ·)) :
    (∀ point, nearestPoint id points target window = some point → point ∈ points ∧
      ((|point - target| : ℤ) : ℚ) ≤ window ∧
      ∀ other ∈ points, |point - target| < |other - target| ∨
        |point - target| = |other - target| ∧ point ≤ other) ∧
    (nearestPoint id points target window = none →
      ∀ point ∈ points, ¬ ((|point - target| : ℤ) : ℚ) ≤ window) := by
  have hdistance : (fun point : ℤ => |id ((point : ℚ) - (target : ℚ))|) =
      fun point : ℤ => ((|point - target| : ℤ) : ℚ) := by
    funext point
    rw [id, Int.cast_abs, Int.cast_sub]
  have hplace : bisectLeft (points.map fun point : ℤ => (point : ℚ)) (target : ℚ) =
      (points.takeWhile (· < target)).length := by
    rw [bisectLeft_map]
    simp only [Int.cast_lt]
  have hmin : ∀ point, nearest (fun point : ℤ => ((|point - target| : ℤ) : ℚ)) points
      (points.takeWhile (· < target)).length = some point → point ∈ points ∧
        ∀ other ∈ points, |point - target| < |other - target| ∨
          |point - target| = |other - target| ∧ point ≤ other := by
    intro point hpoint
    have hfalls : ∀ x y : ℤ, x < y → decide (y < target) = true →
        ((|y - target| : ℤ) : ℚ) < ((|x - target| : ℤ) : ℚ) := by
      intro x y hxy hy
      have hy := of_decide_eq_true hy
      rw [Int.cast_lt, abs_of_neg (by omega), abs_of_neg (by omega)]
      omega
    have hgrows : ∀ x y : ℤ, x ≤ y → decide (x < target) = false →
        ((|x - target| : ℤ) : ℚ) ≤ ((|y - target| : ℤ) : ℚ) := by
      intro x y hxy hx
      have hx := of_decide_eq_false hx
      rw [Int.cast_le, abs_of_nonneg (by omega), abs_of_nonneg (by omega)]
      omega
    obtain ⟨hmem, hle⟩ := nearest_le h (fun x _ y _ => hfalls x y)
      (fun x _ y _ => hgrows x y) hpoint
    refine ⟨hmem, fun other hother => ?_⟩
    rcases Prod.Lex.toLex_le_toLex.mp (hle other hother) with hlt | ⟨heq, hle⟩
    · exact Or.inl (Int.cast_lt.mp hlt)
    · exact Or.inr ⟨Int.cast_inj.mp heq, hle⟩
  rw [nearestPoint, hdistance, hplace]
  constructor
  · intro point hpoint
    obtain ⟨hpoint, hwindow⟩ := Option.filter_eq_some_iff.mp hpoint
    obtain ⟨hmem, hle⟩ := hmin point hpoint
    refine ⟨hmem, ?_, hle⟩
    have hwithin := of_decide_eq_true hwindow
    rwa [id, ← Int.cast_sub, ← Int.cast_abs] at hwithin
  · intro hnone point hpoint hwindow
    cases hbest : nearest (fun point : ℤ => ((|point - target| : ℤ) : ℚ)) points
        (points.takeWhile (· < target)).length with
    | none =>
      rw [nearest_eq_none] at hbest
      rw [hbest] at hpoint
      exact absurd hpoint List.not_mem_nil
    | some best =>
      have hfar := Option.filter_eq_none_iff.mp hnone best hbest
      refine hfar (decide_eq_true ?_)
      rw [id, ← Int.cast_sub, ← Int.cast_abs]
      refine le_trans (Int.cast_le.mpr ?_) hwindow
      rcases (hmin best hbest).2 point hpoint with hlt | ⟨heq, -⟩
      · exact hlt.le
      · exact heq.le

/-- **The probe finds the nearest agent run**, or there is none within the
window. -/
theorem nearestRun_agent (on : ℤ) :
    (∀ a, nearestRun t.agentRunsByStart t.agentStarts on PAIRING_WINDOW_MS = some a →
      a ∈ t.agentRuns ∧ ((|a.startMs - on| : ℤ) : ℚ) ≤ PAIRING_WINDOW_MS ∧
      ∀ b ∈ t.agentRuns, |a.startMs - on| < |b.startMs - on| ∨
        |a.startMs - on| = |b.startMs - on| ∧ a.startMs ≤ b.startMs) ∧
    (nearestRun t.agentRunsByStart t.agentStarts on PAIRING_WINDOW_MS = none →
      ∀ a ∈ t.agentRuns, ¬ ((|a.startMs - on| : ℤ) : ℚ) ≤ PAIRING_WINDOW_MS) := by
  have hstarts : ∀ a ∈ t.agentRuns, a.startMs ∈ t.agentStarts := fun a ha =>
    List.mem_map_of_mem (mem_sortedBy.mpr ha)
  obtain ⟨hsome, hnone⟩ := nearestPoint_id t.agentStarts on PAIRING_WINDOW_MS
    pairwise_map_sortedBy
  unfold nearestRun
  cases hpoint : nearestPoint id t.agentStarts on PAIRING_WINDOW_MS with
  | none =>
    refine ⟨fun a ha => (by cases ha), fun _ a ha => hnone hpoint _ (hstarts a ha)⟩
  | some point =>
    obtain ⟨hmem, hwindow, hle⟩ := hsome point hpoint
    obtain ⟨a, ha, hat, hstart⟩ := getElem?_bisectLeft
      (pairwise_sortedBy Run.startMs t.agentRuns) hmem
    have hrun : (some point).bind (fun start => t.agentRunsByStart[bisectLeft t.agentStarts
        start]?) = some a := hat
    rw [hrun]
    refine ⟨fun a' ha' => ?_, fun hno => (by cases hno)⟩
    obtain rfl := Option.some.inj ha'
    rw [hstart]
    exact ⟨mem_sortedBy.mp ha, hwindow, fun b hb => hle _ (hstarts b hb)⟩

/-- The agent runs that may be paired start together. -/
theorem IsPairedAgent.startMs_eq (h : IsPairedAgent fl t anchors a)
    (h' : IsPairedAgent fl t anchors b) : a.startMs = b.startMs := by
  obtain ⟨on, hon, -, hle⟩ := h.nearest
  obtain ⟨on', hon', -, hle'⟩ := h'.nearest
  obtain rfl := Option.some.inj (hon.symm.trans hon')
  rcases hle b h'.mem with hlt | ⟨heq, hab⟩
  · rcases hle' a h.mem with hlt' | ⟨heq', -⟩
    · exact absurd hlt' (not_lt.mpr hlt.le)
    · exact absurd heq' (ne_of_gt hlt)
  · rcases hle' a h.mem with hlt' | ⟨-, hba⟩
    · exact absurd heq (ne_of_gt hlt')
    · exact le_antisymm hab hba

/-! ## The user runs -/

theorem probedUser_eq_some : probedUser t a = some u ↔
    IsLastAt Run.startMs t.userRuns a.startMs u := lastAt_eq_some_iff

theorem activeAt_iff {time : ℤ} : u.activeAt time = true ↔ u.startMs < time ∧ time < u.endMs := by
  rw [Run.activeAt, Bool.and_eq_true, decide_eq_true_eq, decide_eq_true_eq]

theorem endKey_le_iff {time : ℤ} : u.endKey ≤ toLex (time, ⊤) ↔ u.endMs ≤ time := by
  have htop : (u.startMs : WithTop ℤ) ≤ ⊤ := le_top
  rw [Run.endKey, Prod.Lex.toLex_le_toLex]
  exact (or_congr_right (and_iff_left htop)).trans le_iff_lt_or_eq.symm

theorem endKey_le_endKey {v : Run} : v.endKey ≤ u.endKey ↔
    v.endMs < u.endMs ∨ v.endMs = u.endMs ∧ v.startMs ≤ u.startMs := by
  rw [Run.endKey, Run.endKey, Prod.Lex.toLex_le_toLex]
  simp only [WithTop.coe_le_coe]

/-- **The probe by end finds the paired user run**, or there is none. -/
theorem pairedUser_spec (a : Run) :
    (∀ u, pairedUser t a = some u → IsPairedUser t a u) ∧
      (pairedUser t a = none → ∀ u, ¬ IsPairedUser t a u) := by
  have hlast : before? t.userRunsByEnd (bisectRight t.userEndKeys (toLex (a.startMs, ⊤))) =
      lastAt Run.endKey t.userRuns (toLex (a.startMs, ⊤)) := rfl
  have hbetween : ∀ time, bisectRight t.agentStarts time < bisectLeft t.agentStarts a.startMs ↔
      ∃ b ∈ t.agentRuns, time < b.startMs ∧ b.startMs < a.startMs := by
    intro time
    refine (bisectRight_lt_bisectLeft_iff pairwise_map_sortedBy).trans ?_
    constructor
    · rintro ⟨start, hstart, hlt⟩
      obtain ⟨b, hb, rfl⟩ := List.mem_map.mp hstart
      exact ⟨b, mem_sortedBy.mp hb, hlt⟩
    · rintro ⟨b, hb, hlt⟩
      exact ⟨b.startMs, List.mem_map_of_mem (mem_sortedBy.mpr hb), hlt⟩
  rw [pairedUser, hlast]
  constructor
  · intro u hu
    obtain ⟨hu, hclear⟩ := Option.filter_eq_some_iff.mp hu
    obtain ⟨hmem, hended, hle⟩ := mem_lastAt hu
    refine ⟨hmem, endKey_le_iff.mp hended, fun v hv hve => endKey_le_endKey.mp
      (hle v hv (endKey_le_iff.mpr hve)), fun b hb hno => ?_⟩
    rw [Bool.not_eq_true', decide_eq_false_iff_not, hbetween] at hclear
    exact hclear ⟨b, hb, hno⟩
  · intro hnone u hu
    cases hprobe : lastAt Run.endKey t.userRuns (toLex (a.startMs, ⊤)) with
    | none =>
      exact not_le.mpr (lastAt_eq_none.mp hprobe u hu.mem) (endKey_le_iff.mpr hu.ended)
    | some v =>
      obtain ⟨hv, hve, hle⟩ := mem_lastAt hprobe
      have hsame : v.endMs = u.endMs := by
        rcases hu.last v hv (endKey_le_iff.mp hve) with hlt | ⟨heq, -⟩
        · have huv := endKey_le_endKey.mp (hle u hu.mem (endKey_le_iff.mpr hu.ended))
          omega
        · exact heq
      have hcut := Option.filter_eq_none_iff.mp hnone v hprobe
      rw [Bool.not_eq_true', decide_eq_false_iff_not, not_not, hbetween, hsame] at hcut
      obtain ⟨b, hb, hlt⟩ := hcut
      exact hu.clear b hb hlt

/-! ## Uncertainties -/

theorem uncertaintySq_cast (user agent : Run) : ((uncertaintySq user agent : ℕ) : ℝ) =
    (user.endSigmaMs : ℝ) ^ 2 + (agent.startSigmaMs : ℝ) ^ 2 := by
  have hsq : ∀ x : ℤ, ((x.natAbs : ℝ)) ^ 2 = (x : ℝ) ^ 2 := fun x => by
    rw [Nat.cast_natAbs, Int.cast_abs, sq_abs]
  rw [uncertaintySq, Nat.cast_add, Nat.cast_pow, Nat.cast_pow, hsq, hsq]

/-- **A rounded root** is the integer nearest to it. -/
theorem abs_sqrt_sub_roundSqrt (n : ℕ) : |√(n : ℝ) - roundSqrt n| < 1 / 2 := by
  have hlow : n.sqrt * n.sqrt ≤ n := Nat.sqrt_le n
  have hhigh : n < (n.sqrt + 1) * (n.sqrt + 1) := Nat.lt_succ_sqrt n
  have hfloor : (n.sqrt : ℝ) ≤ √(n : ℝ) := Real.le_sqrt_of_sq_le (by
    rw [sq]
    exact_mod_cast hlow)
  have hceil : √(n : ℝ) < n.sqrt + 1 := by
    rw [Real.sqrt_lt' (by positivity), sq]
    exact_mod_cast hhigh
  rw [roundSqrt]
  split
  · rename_i habove
    have hhalf : (n.sqrt : ℝ) + 1 / 2 < √(n : ℝ) := by
      refine Real.lt_sqrt_of_sq_lt ?_
      have hcast : (n.sqrt : ℝ) * n.sqrt + n.sqrt + 1 ≤ n := by exact_mod_cast habove
      nlinarith only [hcast]
    rw [abs_lt]
    push_cast
    constructor <;> linarith
  · rename_i hbelow
    have hhalf : √(n : ℝ) < (n.sqrt : ℝ) + 1 / 2 := by
      rw [Real.sqrt_lt' (by positivity)]
      have hcast : (n : ℝ) ≤ n.sqrt * n.sqrt + n.sqrt := by exact_mod_cast not_lt.mp hbelow
      nlinarith only [hcast]
    rw [abs_lt]
    constructor <;> linarith

theorem uncertainty_eq (user agent : Run) :
    uncertainty user agent = √(uncertaintySq user agent : ℝ) := by
  rw [uncertainty, uncertaintySq_cast]

theorem uncertainty_le {user agent : Run}
    (h : ¬ MAX_MEASURABLE_GAP_UNCERTAINTY_MS ^ 2 < uncertaintySq user agent) :
    uncertainty user agent ≤ MAX_MEASURABLE_GAP_UNCERTAINTY_MS := by
  rw [uncertainty_eq, Real.sqrt_le_left (by positivity)]
  exact_mod_cast not_lt.mp h

/-! ## The result -/

/-- What a measurement of a paired gap says. -/
theorem measure_spec {offsets : List ℚ} {oA : ℚ} {anchored : Bool} {g : Gap}
    (h : measure fl t anchors offsets oA anchored u a = g) :
    g.agentRun = some a ∧ g.agentStartMs = some a.startMs ∧ g.userEndMs = some u.endMs ∧
      g.uncertaintyMs = some (roundSqrt (uncertaintySq u a)) ∧
      ((g.status = .measured ∧ g.valueMs = some (a.startMs - u.endMs) ∧ g.reason = none ∧
          uncertainty u a ≤ MAX_MEASURABLE_GAP_UNCERTAINTY_MS) ∨
        (g.status = .notMeasurable ∧ g.valueMs = none ∧
          (g.reason = some .recorderTimelineDiscontinuity ∨
            g.reason = some .boundaryUncertaintyTooHigh))) := by
  subst h
  unfold measure
  dsimp only
  generalize Option.map (fun userOff => fl (u.endMs - t.naiveMs fl userOff)) _ = offUser
  split
  · exact ⟨rfl, rfl, rfl, rfl, Or.inr ⟨rfl, rfl, Or.inl rfl⟩⟩
  · split
    · exact ⟨rfl, rfl, rfl, rfl, Or.inr ⟨rfl, rfl, Or.inr rfl⟩⟩
    · rename_i hlimit
      exact ⟨rfl, rfl, rfl, rfl, Or.inl ⟨rfl, rfl, rfl, uncertainty_le hlimit⟩⟩

/-- The rule for a turn with a paired user run. -/
theorem documented_measure {offsets : List ℚ} {oA : ℚ} {anchored : Bool} {g : Gap}
    (ha : IsPairedAgent fl t anchors a) (hnot : ¬ SpokenOver t a) (hu : IsPairedUser t a u)
    (hg : measure fl t anchors offsets oA anchored u a = g) : Documented fl t anchors g := by
  obtain ⟨hrun, hstart, hend, hsigma, hcases⟩ := measure_spec hg
  have hstatus : g.status ≠ .talkOver := by
    rcases hcases with ⟨hstatus, -⟩ | ⟨hstatus, -⟩ <;> rw [hstatus] <;> decide
  have hreason : g.reason ≠ some .noClearPairing := by
    rcases hcases with ⟨-, -, hreason, -⟩ | ⟨-, -, hreason | hreason⟩ <;> rw [hreason] <;> decide
  exact
    { agent := fun a' ha' => Option.some.inj (hrun.symm.trans ha') ▸ ha
      noAgent := fun hno => by
        rw [hrun] at hno
        cases hno
      talkOver := by
        refine ⟨fun hno => absurd hno hstatus, ?_⟩
        rintro ⟨a', ha', hspoken⟩
        obtain rfl := Option.some.inj (hrun.symm.trans ha')
        exact absurd hspoken hnot
      unpaired := by
        refine ⟨fun hno => absurd hno hreason, ?_⟩
        rintro ⟨a', ha', -, hno⟩
        obtain rfl := Option.some.inj (hrun.symm.trans ha')
        exact absurd hu (hno u)
      edges := fun userEnd huser => ⟨a, u, hrun, hnot, hu,
        (Option.some.inj (hend.symm.trans huser)).symm, _, hsigma, by
          rw [uncertainty_eq]
          exact abs_sqrt_sub_roundSqrt _⟩
      value := fun v hv => by
        rcases hcases with ⟨-, hvalue, -, hlimit⟩ | ⟨-, hvalue, -⟩
        · obtain rfl := Option.some.inj (hvalue.symm.trans hv)
          exact ⟨a, u, hrun, hnot, hu, rfl, sub_nonneg.mpr hu.ended, hend, hstart, hlimit⟩
        · rw [hvalue] at hv
          cases hv
      measured := by
        rcases hcases with ⟨hstatus, hvalue, -⟩ | ⟨hstatus, hvalue, -⟩ <;> rw [hstatus, hvalue] <;>
          simp
      reason := by
        rcases hcases with ⟨hstatus, -, hreason, -⟩ | ⟨hstatus, -, hreason | hreason⟩ <;>
          rw [hstatus, hreason] <;> simp }

/-- The rule for a turn whose paired agent run is known. -/
theorem documented_gapAt {naiveOn : ℚ} {on : ℤ} {anchored : Bool}
    (ha : IsPairedAgent fl t anchors a) :
    Documented fl t anchors (gapAt fl t anchors naiveOn on anchored a) ↔
      ((probedUser t a).any (·.activeAt a.startMs) = true ↔ SpokenOver t a) := by
  unfold gapAt
  dsimp only
  cases hprobe : (probedUser t a).any (·.activeAt a.startMs) with
  | true =>
    rw [if_pos rfl]
    constructor
    · intro h
      obtain ⟨a', ha', hspoken⟩ := h.talkOver.mp rfl
      obtain rfl := Option.some.inj ha'
      exact ⟨fun _ => hspoken, fun _ => rfl⟩
    · intro h
      have hspoken := h.mp rfl
      exact
        { agent := fun a' ha' => Option.some.inj ha' ▸ ha
          noAgent := fun hno => (by cases hno)
          talkOver := ⟨fun _ => ⟨a, rfl, hspoken⟩, fun _ => rfl⟩
          unpaired := by
            refine ⟨fun hno => (by cases hno), ?_⟩
            rintro ⟨a', ha', hnot, -⟩
            obtain rfl := Option.some.inj ha'
            exact absurd hspoken hnot
          edges := fun _ hno => (by cases hno)
          value := fun _ hno => (by cases hno)
          measured := ⟨fun hno => (by cases hno), fun hno => (by cases hno)⟩
          reason := ⟨fun hno => (by cases hno), fun hno => (by cases hno)⟩ }
  | false =>
    rw [if_neg Bool.false_ne_true]
    obtain ⟨hpaired, hnone⟩ := pairedUser_spec (t := t) a
    constructor
    · intro h
      refine ⟨fun hno => absurd hno Bool.false_ne_true, fun hspoken => ?_⟩
      -- a paired run makes no talk-over, nor does its absence
      have hover := h.talkOver.mpr
      cases hpair : pairedUser t a with
      | none =>
        rw [hpair] at hover
        have hstatus := hover ⟨a, rfl, hspoken⟩
        cases hstatus
      | some u =>
        rw [hpair] at hover
        obtain ⟨hrun, -, -, -, ⟨hstatus, -⟩ | ⟨hstatus, -⟩⟩ := @measure_spec fl t anchors
          a u _ _ _ _ rfl
        · exact absurd (hstatus.symm.trans (hover ⟨a, hrun, hspoken⟩)) (by decide)
        · exact absurd (hstatus.symm.trans (hover ⟨a, hrun, hspoken⟩)) (by decide)
    · intro h
      have hnot : ¬ SpokenOver t a := fun hspoken => absurd (h.mpr hspoken) Bool.false_ne_true
      cases hpair : pairedUser t a with
      | none =>
        exact
          { agent := fun a' ha' => Option.some.inj ha' ▸ ha
            noAgent := fun hno => (by cases hno)
            talkOver := by
              refine ⟨fun hno => (by cases hno), ?_⟩
              rintro ⟨a', ha', hspoken⟩
              obtain rfl := Option.some.inj ha'
              exact absurd hspoken hnot
            unpaired := ⟨fun _ => ⟨a, rfl, hnot, hnone hpair⟩, fun _ => rfl⟩
            edges := fun _ hno => (by cases hno)
            value := fun _ hno => (by cases hno)
            measured := ⟨fun hno => (by cases hno), fun hno => (by cases hno)⟩
            reason := ⟨fun _ => rfl, fun _ => rfl⟩ }
      | some u =>
        exact documented_measure ha hnot (hpaired u hpair) rfl

theorem documented_notMeasurable (h : ∀ a, ¬ IsPairedAgent fl t anchors a) :
    Documented fl t anchors (notMeasurable .noAgentAudio) where
  agent _ hno := by cases hno
  noAgent _ := ⟨rfl, h⟩
  talkOver := ⟨fun hno => (by cases hno), fun ⟨_, hno, _⟩ => (by cases hno)⟩
  unpaired := ⟨fun hno => (by cases hno), fun ⟨_, hno, _⟩ => (by cases hno)⟩
  edges _ hno := by cases hno
  value _ hno := by cases hno
  measured := ⟨fun hno => (by cases hno), fun hno => (by cases hno)⟩
  reason := ⟨fun _ => rfl, fun _ => rfl⟩

/-- Where `audible_gap` ends: without an agent run to pair, or at one. -/
theorem audibleGap_cases (fl : ℚ → ℚ) (t : Timeline) (anchors : TurnAnchorsMs) :
    (audibleGap fl t anchors = notMeasurable .noAgentAudio ∧
      ∀ a, ¬ IsPairedAgent fl t anchors a) ∨
    ∃ a naiveOn on anchored, IsPairedAgent fl t anchors a ∧
      audibleGap fl t anchors = gapAt fl t anchors naiveOn on anchored a := by
  unfold audibleGap
  cases hagent : anchors.agentOnUnixNano with
  | none =>
    refine Or.inl ⟨rfl, fun a ha => ?_⟩
    obtain ⟨on, hon, -⟩ := ha.nearest
    rw [audioOn, hagent] at hon
    cases hon
  | some agentOn =>
    have haudio : audioOn fl t anchors = (audioAgentOn fl t (t.naiveMs fl agentOn)).1 := by
      rw [audioOn, hagent]
      rfl
    dsimp only
    rcases hon : audioAgentOn fl t (t.naiveMs fl agentOn) with ⟨on?, anchored⟩
    rw [hon] at haudio
    cases on? with
    | none =>
      refine Or.inl ⟨rfl, fun a ha => ?_⟩
      obtain ⟨on, hno, -⟩ := ha.nearest
      rw [haudio] at hno
      cases hno
    | some on =>
      obtain ⟨hsome, hnone⟩ := nearestRun_agent (t := t) on
      dsimp only
      cases hrun : nearestRun t.agentRunsByStart t.agentStarts on PAIRING_WINDOW_MS with
      | none =>
        refine Or.inl ⟨rfl, fun a ha => ?_⟩
        obtain ⟨on', hon', hwindow, -⟩ := ha.nearest
        obtain rfl := Option.some.inj (haudio.symm.trans hon')
        exact hnone hrun a ha.mem hwindow
      | some a =>
        obtain ⟨hmem, hwindow, hle⟩ := hsome a hrun
        exact Or.inr ⟨a, t.naiveMs fl agentOn, on, anchored, ⟨hmem, on, haudio, hwindow, hle⟩, rfl⟩

/-- **The gap of a turn follows the documented rule exactly when** the last
user run to start by the paired agent run's start is active there if any is. -/
theorem documented_audibleGap_iff (fl : ℚ → ℚ) (t : Timeline) (anchors : TurnAnchorsMs) :
    Documented fl t anchors (audibleGap fl t anchors) ↔
      ∀ a, IsPairedAgent fl t anchors a → SpokenOver t a →
        ∀ u, IsLastAt Run.startMs t.userRuns a.startMs u →
          u.startMs < a.startMs ∧ a.startMs < u.endMs := by
  have hprobe : ∀ a, ((probedUser t a).any (·.activeAt a.startMs) = true ↔ SpokenOver t a) ↔
      (SpokenOver t a → ∀ u, IsLastAt Run.startMs t.userRuns a.startMs u →
        u.startMs < a.startMs ∧ a.startMs < u.endMs) := by
    intro a
    constructor
    · intro h hspoken u hu
      have hactive := h.mpr hspoken
      rw [probedUser_eq_some.mpr hu] at hactive
      exact activeAt_iff.mp hactive
    · intro h
      constructor
      · intro hany
        obtain ⟨u, hu, hactive⟩ := (Option.any_eq_true _ _).mp hany
        obtain ⟨hmem, -, -⟩ := mem_lastAt (show lastAt Run.startMs t.userRuns a.startMs = some u
          from hu)
        exact ⟨u, hmem, activeAt_iff.mp hactive⟩
      · intro hspoken
        obtain ⟨v, hv, hstart, -⟩ := id hspoken
        cases hu : probedUser t a with
        | none =>
          have hlater := lastAt_eq_none.mp (show lastAt Run.startMs t.userRuns a.startMs = none
            from hu) v hv
          omega
        | some u => exact activeAt_iff.mpr (h hspoken u (probedUser_eq_some.mp hu))
  rcases audibleGap_cases fl t anchors with ⟨heq, hnone⟩ | ⟨a, naiveOn, on, anchored, ha, heq⟩
  · rw [heq]
    exact ⟨fun _ a ha => absurd ha (hnone a), fun _ => documented_notMeasurable hnone⟩
  · rw [heq, documented_gapAt ha, hprobe]
    constructor
    · intro h a' ha' hspoken
      have hstart := ha'.startMs_eq ha
      rw [hstart]
      refine h ?_
      obtain ⟨v, hv, hactive⟩ := hspoken
      exact ⟨v, hv, hstart ▸ hactive⟩
    · exact fun h => h a ha

/-! ## A run that is missed -/

/-- The user speaks on while a short run of theirs starts and ends. -/
def nestedTimeline : Timeline where
  startedAtUnixNano := 0
  durationMs := none
  userRuns := [⟨0, 5000, 10, 10⟩, ⟨1000, 1200, 10, 10⟩]
  agentRuns := [⟨3000, 4000, 10, 10⟩]
  agentZeroRuns := []
  insertOnly := false

def nestedAnchors : TurnAnchorsMs := ⟨[], none, some 3000000000⟩

/-- The agent talks over the user, and a gap is measured. -/
theorem not_documented_nested :
    ¬ Documented id nestedTimeline nestedAnchors (audibleGap id nestedTimeline nestedAnchors) := by
  intro h
  have hgap : (audibleGap id nestedTimeline nestedAnchors).status = .measured ∧
      (audibleGap id nestedTimeline nestedAnchors).agentRun = some ⟨3000, 4000, 10, 10⟩ := by
    decide +kernel
  have hover := h.talkOver.mpr ⟨_, hgap.2, ⟨0, 5000, 10, 10⟩, List.mem_cons_self, by decide⟩
  rw [hgap.1] at hover
  cases hover

end Earshot.CallTimeline
