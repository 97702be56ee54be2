import Earshot.Clocks.Aligner
import Mathlib.Tactic.Linarith
import Mathlib.Tactic.FieldSimp
import Mathlib.Tactic.Ring
/-!
# Calibrated latencies

A relation is truthful when its affine map is within its bound of the wall
time of the other domain, at every instant of its window. A latency that is
derived through truthful relations is an interval around the true one when the
relation that is used fits the end point: forward, the window holds all that
the point's bound leaves open, and the drift does not stretch that bound; in
reverse, there is no window, and the slope does not stretch the bounds. The
declared map is exact; what floats lose of it counts with the stretch.
-/

namespace Earshot

namespace Clocks

/-! ## The affine map -/

namespace ClockRelation

variable (relation : ClockRelation)

/-- The drift, as a rate. -/
def drift : ℚ := relation.driftPpm.getD 0 / 1000000

/-- The slope of the affine map. -/
def slope : ℚ := 1 + relation.drift

/-- What the drift is measured from. -/
def reference : ℚ := (relation.referenceUnixNano.getD 0 : ℕ)

/-- What the drift adds at a wall time of the domain that is mapped. -/
def correction (wall : ℚ) : ℚ := relation.drift * (wall - relation.reference)

/-- How far from the reference a wall time of the other domain comes from. -/
def mapped (wall : ℚ) : ℚ := (wall - relation.offsetNano - relation.reference) / relation.slope

/-- The declared calibration. -/
def affine (wall : ℚ) : ℚ := wall + relation.offsetNano + relation.correction wall

/-- Its inverse. -/
def inverse (wall : ℚ) : ℚ := relation.reference + relation.mapped wall

/-- The relation's own bound. -/
def bound : ℕ := relation.uncertaintyNano.getD 0

/-- What floats, and the rounding to a nanosecond, lose of the correction. -/
def correctionError (wall : ℤ) : ℚ :=
  if relation.driftPpm.getD 0 = 0 then 0
  else |relation.correction wall - ((relation.correction64 wall).getD 0 : ℤ)|

/-- What they lose of the distance from the reference. -/
def mappedError (wall : ℤ) : ℚ :=
  if relation.driftPpm.getD 0 = 0 then 0
  else |relation.mapped wall - ((relation.slope64.bind (relation.mapped64 wall)).getD 0 : ℤ)|

end ClockRelation

/-! ## The truth -/

section Truth

variable {Instant : Type} (wall : String → Instant → ℚ)

/-- At every instant of the window, the map is within the bound of the truth. -/
def Truthful (relation : ClockRelation) : Prop :=
  ∀ instant, relation.inWindow (wall relation.fromClockDomainId instant) →
    ∀ bound ∈ relation.uncertaintyNano,
      |wall relation.toClockDomainId instant -
        relation.affine (wall relation.fromClockDomainId instant)| ≤ bound

/-- The point's source time is within its bound of the truth. -/
def Reads (instant : Instant) (point : TimePoint) : Prop :=
  ∀ domain ∈ point.clockDomainId, ∀ source ∈ point.sourceTimeUnixNano,
    |wall domain instant - source| ≤ point.bound

end Truth

/-- What is derived for two points of different domains is an interval around
the true latency, up to a nanosecond. -/
def Sound (relations : List ClockRelation) (start stop : TimePoint) : Prop :=
  ∀ (Instant : Type) (wall : String → Instant → ℚ) (first last : Instant),
    (∀ relation ∈ relations, Truthful wall relation) →
    Reads wall first start → Reads wall last stop →
    start.clockDomainId ≠ stop.clockDomainId →
    ∀ domain ∈ start.clockDomainId,
    ∀ value ∈ (comparableDelta relations start stop).nanoseconds,
    ∀ uncertainty ∈ (comparableDelta relations start stop).uncertainty,
      |wall domain last - wall domain first - value| ≤ uncertainty + 1

/-! ## The relation that is used -/

/-- The relation whose coordinate is taken, and its direction. -/
def used (relations : List ClockRelation) (domain target : String) (wall : ℤ) :
    Option (ClockRelation × Bool) :=
  let items := reaching relations domain target
  let least := ((items.filterMap (candidateOf wall)).insertionSort fun a b =>
    a.order ≤ b.order).head?
  items.find? fun item => (candidateOf wall item).isSome ∧ candidateOf wall item = least

/-- Forward, the window holds everything that the bound leaves open and the
drift, with what floats lose of it, does not stretch the bound. In reverse there
is no window, and the slope, likewise, does not stretch the bounds. -/
def ClockRelation.Fits (relation : ClockRelation) (forward : Bool) (wall bound : ℕ) : Prop :=
  if forward then
    relation.inWindow (wall - bound) ∧ relation.inWindow (wall + bound) ∧
      relation.drift * bound + relation.correctionError wall ≤ 1
  else
    relation.validFromUnixNano = none ∧ relation.validToUnixNano = none ∧
      (bound + relation.bound) / relation.slope + relation.mappedError wall ≤
        bound + relation.bound + 1

/-- The relation that aligns the end point fits it. -/
def Fits (relations : List ClockRelation) (start stop : TimePoint) : Prop :=
  ∀ domain ∈ start.clockDomainId, ∀ other ∈ stop.clockDomainId,
    ∀ wall ∈ stop.sourceTimeUnixNano, ∀ item ∈ used relations other domain wall,
      item.1.Fits item.2 wall stop.bound

/-! ## The map -/

theorem eq_of_representableNano {value aligned : ℤ}
    (h : representableNano value = .ok aligned) : aligned = value := by
  rw [representableNano] at h
  split at h
  · exact (Except.ok.inj h).symm
  · cases h

namespace ClockRelation

variable (relation : ClockRelation)

theorem drift_bounds : -1 < relation.drift ∧ relation.drift < 1 := by
  rw [drift]
  rcases hppm : relation.driftPpm with _ | ppm
  · norm_num
  · obtain ⟨hlow, hhigh⟩ := relation.bounded ppm hppm
    rw [MAX_CLOCK_DRIFT_PPM] at hlow hhigh
    rw [Option.getD_some, lt_div_iff₀ (by norm_num), div_lt_iff₀ (by norm_num)]
    constructor <;> linarith

theorem slope_pos : 0 < relation.slope := by
  have := relation.drift_bounds.1
  rw [slope]
  linarith

/-- A relation that drifts has a reference. -/
theorem reference_of_drift (hdrift : relation.driftPpm.getD 0 ≠ 0) (wall : ℤ) :
    (relation.referenceFor wall : ℚ) = relation.reference := by
  rcases hppm : relation.driftPpm with _ | ppm
  · exact absurd (by rw [hppm]; rfl) hdrift
  · have hne : ppm ≠ 0 := by
      rintro rfl
      exact hdrift (by rw [hppm]; rfl)
    obtain ⟨reference, href⟩ := Option.isSome_iff_exists.mp (relation.anchored ppm hppm hne)
    rw [referenceFor, ClockRelation.reference, href]
    simp

/-- A relation without a drift adds its offset only. -/
theorem drift_of_none (hdrift : relation.driftPpm.getD 0 = 0) : relation.drift = 0 := by
  rw [drift, hdrift, zero_div]

/-- The map has slope `1 + drift`. -/
theorem affine_add (wall change : ℚ) :
    relation.affine (wall + change) = relation.affine wall + relation.slope * change := by
  rw [affine, affine, correction, correction, slope]
  ring

theorem inverse_add (wall change : ℚ) :
    relation.inverse (wall + change) = relation.inverse wall + change / relation.slope := by
  rw [inverse, inverse, mapped, mapped]
  ring

theorem affine_inverse (wall : ℚ) : relation.affine (relation.inverse wall) = wall := by
  have hslope := relation.slope_pos.ne'
  have hmul : relation.slope * relation.mapped wall =
      wall - relation.offsetNano - relation.reference := by
    rw [mapped, mul_div_cancel₀ _ hslope]
  rw [slope] at hmul
  rw [affine, inverse, correction]
  linarith

theorem inverse_affine (wall : ℚ) : relation.inverse (relation.affine wall) = wall := by
  have hslope := relation.slope_pos.ne'
  rw [inverse, mapped, affine, correction, ← eq_sub_iff_add_eq', div_eq_iff hslope, slope]
  ring

/-- A coordinate given forward is off the declared map by what floats lose. -/
theorem abs_affine_sub_of_mapWall {wall aligned : ℤ}
    (hmap : relation.mapWall wall true = .ok aligned) :
    |relation.affine wall - aligned| = relation.correctionError wall := by
  rw [mapWall] at hmap
  rw [correctionError]
  split at hmap
  · next hdrift =>
    have hzero : relation.correction wall = 0 := by
      rw [correction, relation.drift_of_none hdrift, zero_mul]
    rw [if_pos hdrift, eq_of_representableNano hmap, affine, hzero]
    simp
  · next hdrift =>
    rw [if_neg hdrift]
    split at hmap
    · cases hmap
    · split at hmap
      · cases hmap
      · simp only [if_true] at hmap
        split at hmap
        · cases hmap
        · next correction hcorrection =>
          rw [hcorrection, eq_of_representableNano hmap, affine, Option.getD_some]
          congr 1
          push_cast
          ring

/-- A coordinate given in reverse is off the inverse by what they lose. -/
theorem abs_inverse_sub_of_mapWall {wall aligned : ℤ}
    (hmap : relation.mapWall wall false = .ok aligned) :
    |relation.inverse wall - aligned| = relation.mappedError wall := by
  rw [mapWall] at hmap
  rw [mappedError]
  split at hmap
  · next hdrift =>
    rw [if_pos hdrift, eq_of_representableNano hmap, inverse, mapped, slope,
      relation.drift_of_none hdrift]
    simp
  · next hdrift =>
    rw [if_neg hdrift]
    split at hmap
    · cases hmap
    · next slope hslope =>
      split at hmap
      · cases hmap
      · simp only [Bool.false_eq_true, if_false] at hmap
        split at hmap
        · cases hmap
        · next mapped hmapped =>
          rw [hslope, Option.bind_some, hmapped, eq_of_representableNano hmap, inverse,
            ← relation.reference_of_drift hdrift wall, Option.getD_some]
          congr 1
          push_cast
          ring

/-- What is given in a direction comes from the map. -/
theorem mapWall_of_apply {wall aligned : ℤ} {forward : Bool}
    (happly : relation.apply wall forward = some (.ok aligned)) :
    relation.mapWall wall forward = .ok aligned := by
  rw [apply] at happly
  split at happly
  · cases happly
  · split at happly
    · cases happly
    · next hmap =>
      rw [hmap]
      split at happly
      · cases happly
      · rw [Except.ok.inj (Option.some.inj happly)]

/-! ## One relation -/

section Truth

variable {Instant : Type} {wall : String → Instant → ℚ} {relation}

/-- The window holds what is between two of its coordinates. -/
theorem inWindow_between {low high x : ℚ} (hlow : relation.inWindow low)
    (hhigh : relation.inWindow high) (hlx : low ≤ x) (hxh : x ≤ high) : relation.inWindow x :=
  ⟨fun least hleast => (hlow.1 least hleast).trans hlx,
    fun most hmost => hxh.trans (hhigh.2 most hmost)⟩

/-- **Forward.** What is aligned is within the bounds of the truth. -/
theorem forward_within {source aligned : ℤ} {point : ℕ} {instant : Instant} {own : ℕ}
    (htrue : Truthful wall relation) (hown : relation.uncertaintyNano = some own)
    (hlow : relation.inWindow (source - point)) (hhigh : relation.inWindow (source + point))
    (hfits : relation.drift * point + relation.correctionError source ≤ 1)
    (hmap : relation.mapWall source true = .ok aligned)
    (hreads : |wall relation.fromClockDomainId instant - source| ≤ point) :
    |wall relation.toClockDomainId instant - aligned| ≤ point + own + 1 := by
  obtain ⟨hleast, hmost⟩ := abs_le.mp hreads
  have hwin : relation.inWindow (wall relation.fromClockDomainId instant) :=
    inWindow_between hlow hhigh (by linarith) (by linarith)
  have hown := htrue instant hwin own hown
  have hstretch : |relation.affine (wall relation.fromClockDomainId instant) -
      relation.affine source| ≤ relation.slope * point := by
    have heq := relation.affine_add source (wall relation.fromClockDomainId instant - source)
    rw [add_sub_cancel] at heq
    rw [heq, add_sub_cancel_left, abs_mul, abs_of_pos relation.slope_pos]
    exact mul_le_mul_of_nonneg_left hreads relation.slope_pos.le
  have hround := relation.abs_affine_sub_of_mapWall hmap
  have hslope : relation.slope * point = point + relation.drift * point := by
    rw [slope]
    ring
  calc |wall relation.toClockDomainId instant - aligned|
      ≤ |wall relation.toClockDomainId instant -
            relation.affine (wall relation.fromClockDomainId instant)| +
          |relation.affine (wall relation.fromClockDomainId instant) - aligned| :=
        abs_sub_le _ _ _
    _ ≤ own + (relation.slope * point + relation.correctionError source) := by
        refine add_le_add hown ((abs_sub_le _ (relation.affine source) _).trans ?_)
        rw [hround]
        exact add_le_add hstretch le_rfl
    _ ≤ point + own + 1 := by linarith

/-- **In reverse.** What is aligned is within the bounds of the truth. -/
theorem reverse_within {source aligned : ℤ} {point : ℕ} {instant : Instant} {own : ℕ}
    (htrue : Truthful wall relation) (hown : relation.uncertaintyNano = some own)
    (hfrom : relation.validFromUnixNano = none) (hto : relation.validToUnixNano = none)
    (hfits : (point + own) / relation.slope + relation.mappedError source ≤ point + own + 1)
    (hmap : relation.mapWall source false = .ok aligned)
    (hreads : |wall relation.toClockDomainId instant - source| ≤ point) :
    |wall relation.fromClockDomainId instant - aligned| ≤ point + own + 1 := by
  have hwin : relation.inWindow (wall relation.fromClockDomainId instant) := by
    refine ⟨?_, ?_⟩
    · rw [hfrom]
      exact fun _ h => (Option.not_mem_none _ h).elim
    · rw [hto]
      exact fun _ h => (Option.not_mem_none _ h).elim
  have hown := htrue instant hwin own hown
  have hfar : |relation.affine (wall relation.fromClockDomainId instant) - source| ≤
      point + own := by
    have := abs_sub_le (relation.affine (wall relation.fromClockDomainId instant))
      (wall relation.toClockDomainId instant) source
    rw [abs_sub_comm] at hown
    linarith
  have hstretch : |wall relation.fromClockDomainId instant - relation.inverse source| ≤
      (point + own) / relation.slope := by
    have heq := relation.inverse_add source
      (relation.affine (wall relation.fromClockDomainId instant) - source)
    rw [add_sub_cancel, relation.inverse_affine] at heq
    rw [heq, add_sub_cancel_left, abs_div, abs_of_pos relation.slope_pos]
    exact div_le_div_of_nonneg_right hfar relation.slope_pos.le
  have hround := relation.abs_inverse_sub_of_mapWall hmap
  calc |wall relation.fromClockDomainId instant - aligned|
      ≤ |wall relation.fromClockDomainId instant - relation.inverse source| +
          |relation.inverse source - aligned| := abs_sub_le _ _ _
    _ ≤ (point + own) / relation.slope + relation.mappedError source := by
        rw [hround]
        exact add_le_add hstretch le_rfl
    _ ≤ point + own + 1 := hfits

end Truth

end ClockRelation

end Clocks

end Earshot
