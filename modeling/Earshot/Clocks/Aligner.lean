import Earshot.Common.Binary64
import Mathlib.Data.List.Sort
import Mathlib.Data.Prod.Lex
import Mathlib.Data.String.Basic
/-!
# Comparing clocks

Two time points of one clock domain are subtracted. Points of different
domains are compared only through a declared calibration between the domains,
applied forward, or by its affine inverse. What a drift comes to is computed in
floats, each operation rounding (`Binary64.round`).
-/

namespace Earshot

namespace Clocks

open Binary64 (roundHalfEven)

def UINT64_MAX : ℤ := 2 ^ 64 - 1

def MAX_CLOCK_DRIFT_PPM : ℚ := 1000000

/-! ## The evidence -/

structure TimePoint where
  sourceTimeUnixNano : Option ℕ
  observedTimeUnixNano : Option ℕ
  monotonicTimeNano : Option ℕ
  clockDomainId : Option String
  uncertaintyNano : Option ℕ
  named : clockDomainId ≠ some ""

/-- A declared calibration between two different domains: its drift is a float,
leaves the slope positive and bounded, and has a reference it is measured from,
and its window does not end before it begins. -/
structure ClockRelation where
  relationId : String
  fromClockDomainId : String
  toClockDomainId : String
  offsetNano : ℤ
  driftPpm : Option ℚ
  uncertaintyNano : Option ℕ
  referenceUnixNano : Option ℕ
  validFromUnixNano : Option ℕ
  validToUnixNano : Option ℕ
  distinct : fromClockDomainId ≠ toClockDomainId
  ordered : ∀ least ∈ validFromUnixNano, ∀ most ∈ validToUnixNano, least ≤ most
  float : ∀ ppm, driftPpm = some ppm → Binary64.round ppm = some ppm
  bounded : ∀ ppm, driftPpm = some ppm → -MAX_CLOCK_DRIFT_PPM < ppm ∧ ppm < MAX_CLOCK_DRIFT_PPM
  anchored : ∀ ppm, driftPpm = some ppm → ppm ≠ 0 → referenceUnixNano.isSome = true

/-- The point's own bound: none declared counts as zero. -/
def TimePoint.bound (point : TimePoint) : ℕ := point.uncertaintyNano.getD 0

/-! ## Applying a relation -/

/-- Why a declared calibration cannot be trusted. -/
inductive RefusedAlignment where
  | ambiguous
  | degenerate
  | unrepresentable
  deriving DecidableEq

/-- `_representable_nano` -/
def representableNano (value : ℤ) : Except RefusedAlignment ℤ :=
  if 0 ≤ value ∧ value ≤ UINT64_MAX then .ok value else .error .unrepresentable

namespace ClockRelation

variable (relation : ClockRelation)

/-- `drift`: an operation gives none where its result is not finite. -/
def drift64 : Option ℚ := Binary64.round (relation.driftPpm.getD 0 / 1000000)

/-- `slope` -/
def slope64 : Option ℚ := relation.drift64.bind fun drift => Binary64.round (1 + drift)

/-- `reference` -/
def referenceFor (wall : ℤ) : ℤ := (relation.referenceUnixNano.map Int.ofNat).getD wall

/-- `round(correction)` -/
def correction64 (wall : ℤ) : Option ℤ :=
  relation.drift64.bind fun drift =>
    (Binary64.round (wall - relation.referenceFor wall : ℤ)).bind fun distance =>
      (Binary64.round (drift * distance)).map roundHalfEven

/-- `round(mapped)` -/
def mapped64 (wall : ℤ) (slope : ℚ) : Option ℤ :=
  (Binary64.round (wall - relation.offsetNano - relation.referenceFor wall : ℤ)).bind
    fun distance => (Binary64.round (distance / slope)).map roundHalfEven

/-- `_in_window` -/
def inWindow (coordinate : ℚ) : Prop :=
  (∀ least ∈ relation.validFromUnixNano, (least : ℚ) ≤ coordinate) ∧
    ∀ most ∈ relation.validToUnixNano, coordinate ≤ (most : ℚ)

instance (coordinate : ℚ) : Decidable (relation.inWindow coordinate) :=
  inferInstanceAs (Decidable (_ ∧ _))

/-- `_map_wall` -/
def mapWall (wall : ℤ) (forward : Bool) : Except RefusedAlignment ℤ :=
  if relation.driftPpm.getD 0 = 0 then
    representableNano (if forward then wall + relation.offsetNano else wall - relation.offsetNano)
  else
    match relation.slope64 with
    | none => .error .degenerate
    | some slope =>
      if slope ≤ 0 then .error .degenerate
      else if forward then
        match relation.correction64 wall with
        | none => .error .unrepresentable
        | some correction => representableNano (wall + relation.offsetNano + correction)
      else
        match relation.mapped64 wall slope with
        | none => .error .unrepresentable
        | some mapped => representableNano (relation.referenceFor wall + mapped)

/-- `_apply`: none outside of the window. -/
def apply (wall : ℤ) (forward : Bool) : Option (Except RefusedAlignment ℤ) :=
  if forward = true ∧ ¬ relation.inWindow wall then none
  else
    match relation.mapWall wall forward with
    | .error refused => some (.error refused)
    | .ok aligned =>
        if forward = false ∧ ¬ relation.inWindow aligned then none else some (.ok aligned)

end ClockRelation

/-! ## Aligning -/

/-- A coordinate that a relation gives, with the relation's own bound. -/
structure Candidate where
  value : ℤ
  uncertainty : Option ℕ
  relationId : String
  deriving DecidableEq

/-- The order of candidates: by a known bound, the bound, the value, the
relation's ID. -/
def Candidate.order (candidate : Candidate) : ℕ ×ₗ ℕ ×ₗ ℤ ×ₗ String :=
  toLex (if candidate.uncertainty.isSome then 0 else 1,
    toLex (candidate.uncertainty.getD 0, toLex (candidate.value, candidate.relationId)))

/-- Two candidates that no pair of bounds reconciles. -/
def Candidate.conflicts (a b : Candidate) : Bool :=
  if a.value = b.value then false
  else
    match a.uncertainty, b.uncertainty with
    | some u, some v => decide (u + v < (a.value - b.value).natAbs)
    | _, _ => true

/-- Whether any two candidates conflict. -/
def anyConflict : List Candidate → Bool
  | [] => false
  | a :: rest => rest.any a.conflicts || anyConflict rest

/-- `_reconcile` -/
def reconcile (candidates : List Candidate) : Option (Except RefusedAlignment (ℤ × Option ℕ)) :=
  match candidates.insertionSort fun a b => a.order ≤ b.order with
  | [] => none
  | least :: rest =>
      if anyConflict (least :: rest) then some (.error .ambiguous)
      else some (.ok (least.value, least.uncertainty))

/-- The relations from one domain to another, by their IDs. -/
def byPair (relations : List ClockRelation) (source target : String) : List ClockRelation :=
  (relations.insertionSort fun a b => a.relationId ≤ b.relationId).filter fun relation =>
    relation.fromClockDomainId = source ∧ relation.toClockDomainId = target

/-- Every relation between two domains, with the direction it is applied in. -/
def reaching (relations : List ClockRelation) (domain target : String) :
    List (ClockRelation × Bool) :=
  (byPair relations domain target).map (·, true) ++ (byPair relations target domain).map (·, false)

/-- What a relation gives, if it gives a coordinate. -/
def candidateOf (wall : ℤ) (item : ClockRelation × Bool) : Option Candidate :=
  match item.1.apply wall item.2 with
  | some (.ok value) => some ⟨value, item.1.uncertaintyNano, item.1.relationId⟩
  | _ => none

def refusalOf (wall : ℤ) (item : ClockRelation × Bool) : Option RefusedAlignment :=
  match item.1.apply wall item.2 with
  | some (.error refused) => some refused
  | _ => none

/-- The first refusal, by the text of its limitation. -/
def leastRefusal (refusals : List RefusedAlignment) : Option RefusedAlignment :=
  if refusals.contains .ambiguous then some .ambiguous
  else if refusals.contains .degenerate then some .degenerate
  else if refusals.contains .unrepresentable then some .unrepresentable
  else none

/-- `align` -/
def align (relations : List ClockRelation) (point : TimePoint) (target : String) :
    Option (Except RefusedAlignment (ℤ × Option ℕ)) :=
  match point.clockDomainId, point.sourceTimeUnixNano with
  | some domain, some wall =>
      if target = "" ∨ domain = target then none
      else
        match reconcile ((reaching relations domain target).filterMap (candidateOf wall)) with
        | some reconciled => some reconciled
        | none =>
            (leastRefusal ((reaching relations domain target).filterMap (refusalOf wall))).map
              .error
  | _, _ => none

/-! ## Subtracting -/

inductive Availability where
  | available
  | inconsistent
  | unavailable
  deriving DecidableEq

inductive Basis where
  | monotonic
  | sourceWall
  | observedWall
  | clockDomain
  | crossClockCalibrated
  deriving DecidableEq

inductive Confidence where
  | measured
  | estimated
  | unavailable
  deriving DecidableEq

inductive Limitation where
  | sameDomainTimeReversed
  | timestampRepresentationUnavailable
  | refused (refusal : RefusedAlignment)
  | calibratedTimeReversed
  | calibrationUncertaintyUnknown
  | crossClockDomain
  deriving DecidableEq

/-- One derived interval, or the reason there is none. -/
structure Delta where
  availability : Availability
  nanoseconds : Option ℤ
  basis : Basis
  confidence : Confidence
  limitation : Option Limitation
  uncertainty : Option ℕ
  deriving DecidableEq

/-- The deltas of what both points have. -/
def sharedTimeDeltas (start stop : TimePoint) : List (Basis × ℤ) :=
  let delta (basis : Basis) (first last : Option ℕ) : List (Basis × ℤ) :=
    match first, last with
    | some a, some b => [(basis, (b : ℤ) - a)]
    | _, _ => []
  delta .monotonic start.monotonicTimeNano stop.monotonicTimeNano ++
    delta .sourceWall start.sourceTimeUnixNano stop.sourceTimeUnixNano ++
    delta .observedWall start.observedTimeUnixNano stop.observedTimeUnixNano

/-- `comparable_delta`, within one clock domain. -/
def sameDomainDelta (start stop : TimePoint) : Delta :=
  let shared := sharedTimeDeltas start stop
  match shared.find? fun item => decide (item.2 < 0) with
  | some (basis, _) =>
      ⟨.inconsistent, none, basis, .unavailable, some .sameDomainTimeReversed, none⟩
  | none =>
      match shared.find? fun item => item.1 = .monotonic ∨ item.1 = .sourceWall with
      | none =>
          ⟨.unavailable, none, .clockDomain, .unavailable,
            some .timestampRepresentationUnavailable, none⟩
      | some (basis, value) =>
          let uncertainty := start.bound + stop.bound
          ⟨.available, some value, basis, if uncertainty = 0 then .measured else .estimated,
            none, some uncertainty⟩

/-- No calibration relates the points. -/
def crossClockDomain : Delta :=
  ⟨.unavailable, none, .clockDomain, .unavailable, some .crossClockDomain, none⟩

/-- `comparable_delta`, across domains: `stop` is aligned to the domain of
`start`. -/
def calibratedDelta (relations : List ClockRelation) (start stop : TimePoint)
    (domain : String) (wall : ℕ) : Delta :=
  match align relations stop domain with
  | none => crossClockDomain
  | some (.error refused) =>
      ⟨.unavailable, none, .crossClockCalibrated, .unavailable, some (.refused refused), none⟩
  | some (.ok (alignedEnd, added)) =>
      let value := alignedEnd - wall
      if value < 0 then
        ⟨.inconsistent, none, .crossClockCalibrated, .unavailable,
          some .calibratedTimeReversed, none⟩
      else
        ⟨.available, some value, .crossClockCalibrated, .estimated,
          if added.isSome then none else some .calibrationUncertaintyUnknown,
          added.map (start.bound + stop.bound + ·)⟩

/-- `comparable_delta` -/
def comparableDelta (relations : List ClockRelation) (start stop : TimePoint) : Delta :=
  match start.clockDomainId, stop.clockDomainId with
  | some domain, some other =>
      if domain ≠ "" ∧ domain = other then sameDomainDelta start stop
      else if domain = "" ∨ other = "" then crossClockDomain
      else
        match start.sourceTimeUnixNano, stop.sourceTimeUnixNano with
        | some wall, some _ => calibratedDelta relations start stop domain wall
        | _, _ => crossClockDomain
  | _, _ => crossClockDomain

end Clocks

end Earshot
