import Earshot.Clocks.Aligner
import Earshot.Common.Bisect
import Earshot.Common.Buckets
/-!
# The episodes of a turn

A turn's interruptions divide its evidence. Each trigger that opens an episode
is an anchor; an event belongs to the episode of the last anchor at or before
it, and an operation or a quality sample, which is an interval, to the one
whose span it overlaps. Two points are compared only within one clock domain,
by their monotonic readings or else by their source wall readings; the order
of the anchors puts those with a monotonic reading first.
-/

namespace Earshot.Analysis

open Clocks Bisect

/-! ## The evidence -/

/-- What is known of a record's boundary. -/
structure Evidence where
  availability : String
  confidence : String
  deriving DecidableEq

structure Event where
  eventId : String
  eventName : String
  time : TimePoint
  evidence : Option Evidence
  /-- `earshot.analysis.synthetic_projection` -/
  synthetic : Bool

structure CausalLink where
  relationship : String
  targetOperationId : Option String
  traceId : Option String
  spanId : Option String
  deriving DecidableEq

structure Operation where
  operationId : String
  operationName : String
  status : String
  startedAt : TimePoint
  endedAt : Option TimePoint
  traceId : Option String
  spanId : Option String
  links : List CausalLink

structure Measurement where
  name : String
  /-- Its value is `True`. -/
  isTrue : Bool
  deriving DecidableEq

structure QualitySample where
  sampleId : String
  windowStart : TimePoint
  windowEnd : TimePoint
  measurements : List Measurement

/-- An operation that has not ended ends where it started. -/
def Operation.stop (operation : Operation) : TimePoint :=
  operation.endedAt.getD operation.startedAt

/-! ## The order of presentation -/

/-- `_comparable_coordinate`: the domain, the basis and the reading. -/
def comparableCoordinate (point : TimePoint) : Option (String × String × ℕ) :=
  point.clockDomainId.bind fun domain =>
    match point.monotonicTimeNano, point.sourceTimeUnixNano, point.observedTimeUnixNano with
    | some value, _, _ => some (domain, "monotonic", value)
    | none, some value, _ => some (domain, "source_wall", value)
    | none, none, some value => some (domain, "observed_wall", value)
    | none, none, none => none

/-- `presentation_key` -/
def presentationKey (point : TimePoint) (identity : String) :
    ℕ ×ₗ String ×ₗ String ×ₗ ℕ ×ₗ String :=
  match comparableCoordinate point with
  | none => toLex (1, toLex ("", toLex ("", toLex (0, identity))))
  | some (domain, basis, value) => toLex (0, toLex (domain, toLex (basis, toLex (value, identity))))

def Event.presentationKey (event : Event) : ℕ ×ₗ String ×ₗ String ×ₗ ℕ ×ₗ String :=
  Analysis.presentationKey event.time event.eventId

/-! ## Comparing points -/

/-- `_point_at_or_after`: none where the points do not compare. -/
def pointAtOrAfter (candidate reference : TimePoint) : Option Bool :=
  if candidate.clockDomainId = none ∨ candidate.clockDomainId ≠ reference.clockDomainId then none
  else
    match candidate.monotonicTimeNano, reference.monotonicTimeNano with
    | some value, some least => some (decide (least ≤ value))
    | _, _ =>
        match candidate.sourceTimeUnixNano, reference.sourceTimeUnixNano with
        | some value, some least => some (decide (least ≤ value))
        | _, _ => none

/-! ## Anchors -/

def OVERLAP_EVENT_NAMES : List String :=
  ["earshot.interruption.detected", "earshot.interruption.overlapping_speech"]

def ACCEPTED_EVENT_NAME : String := "earshot.interruption.accepted"

def IGNORED_EVENT_NAME : String := "earshot.interruption.ignored"

def CLASSIFIED_EVENT_NAMES : List String := [ACCEPTED_EVENT_NAME, IGNORED_EVENT_NAME]

/-- The event's name is one of some names. -/
def Event.named (names : List String) (event : Event) : Bool :=
  names.any fun name => decide (event.eventName = name)

/-- The triggers of a turn, in the order of presentation. -/
def triggers (events : List Event) : List Event :=
  sortedBy Event.presentationKey (events.filter fun event =>
    event.named OVERLAP_EVENT_NAMES || event.named CLASSIFIED_EVENT_NAMES)

/-- The anchors found up to a trigger, and what the open episode has. -/
structure Anchoring where
  anchors : List Event
  openIsOverlap : Bool
  openHasClassification : Bool

/-- One trigger of `_segment_interruption_episodes`. -/
def Anchoring.step (state : Anchoring) (trigger : Event) : Anchoring :=
  if trigger.named OVERLAP_EVENT_NAMES then ⟨state.anchors ++ [trigger], true, false⟩
  else if !state.anchors.isEmpty && state.openIsOverlap && !state.openHasClassification then
    { state with openHasClassification := true }
  else ⟨state.anchors ++ [trigger], false, true⟩

/-- The events that open an episode. -/
def anchorsOf (events : List Event) : List Event :=
  ((triggers events).foldl Anchoring.step ⟨[], false, false⟩).anchors

/-! ## Where a record belongs -/

/-- `_latest_anchor_at_or_before`, from an anchor on. -/
def latestFrom (point : TimePoint) : List Event → ℕ → Option ℕ → Option ℕ
  | [], _, assigned => assigned
  | anchor :: anchors, index, assigned =>
      match pointAtOrAfter point anchor.time with
      | some true => latestFrom point anchors (index + 1) (some index)
      | some false => assigned
      | none => latestFrom point anchors (index + 1) assigned

/-- `_latest_anchor_at_or_before` -/
def latestAnchorAtOrBefore (anchors : List Event) (point : TimePoint) : Option ℕ :=
  latestFrom point anchors 0 none

/-- `_interval_within_episode`: none where it cannot be told. -/
def intervalWithinEpisode (start stop : TimePoint) (anchor : Event) (nextAnchor : Option Event) :
    Option Bool :=
  let endsAtOrAfter := pointAtOrAfter stop anchor.time
  let startsInALaterEpisode := nextAnchor.bind fun next => pointAtOrAfter start next.time
  if endsAtOrAfter = some false then some false
  else if startsInALaterEpisode = some true then some false
  else if endsAtOrAfter = none ∨ (nextAnchor.isSome ∧ startsInALaterEpisode = none) then none
  else some true

/-- Whether an interval is within each episode. -/
def memberships (start stop : TimePoint) : List Event → List (Option Bool)
  | [] => []
  | anchor :: anchors =>
      intervalWithinEpisode start stop anchor anchors.head? :: memberships start stop anchors

/-- It cannot be told of some episode, or it is within two. -/
def unattributable (found : List (Option Bool)) : Bool :=
  found.any (fun membership => decide (membership = none)) ||
    decide (1 < found.countP fun membership => decide (membership = some true))

/-- The one episode it is within. -/
def ownEpisode (found : List (Option Bool)) : Option ℕ :=
  if unattributable found then none
  else found.findIdx? fun membership => decide (membership = some true)

section BucketIntervals

variable {α : Type*} (anchors : List Event) (start stop : α → TimePoint) (items : List α)

/-- `_bucket_intervals`: the items of each episode. -/
def bucketIntervals : List (List α) :=
  Buckets.distribute (fun item => ownEpisode (memberships (start item) (stop item) anchors))
    anchors.length items

/-- `_bucket_intervals`: the items that are of none, and why is known. -/
def unattributableIntervals : List α :=
  items.filter fun item => unattributable (memberships (start item) (stop item) anchors)

end BucketIntervals

/-- The events of each episode. -/
def bucketEvents (anchors events : List Event) : List (List Event) :=
  Buckets.distribute (fun event => latestAnchorAtOrBefore anchors event.time) anchors.length events

/-! ## Episodes -/

/-- `_InterruptionEpisode` -/
structure InterruptionEpisode where
  events : List Event
  operations : List Operation
  qualitySamples : List QualitySample
  unattributableOperations : List Operation
  unattributableQualitySamples : List QualitySample
  turnOperations : List Operation

/-- `_segment_interruption_episodes` -/
def segmentInterruptionEpisodes (events : List Event) (operations : List Operation)
    (qualitySamples : List QualitySample) : List InterruptionEpisode :=
  let anchors := anchorsOf events
  if (triggers events).isEmpty then []
  else if anchors.length = 1 then [⟨events, operations, qualitySamples, [], [], operations⟩]
  else
    let eventBuckets := bucketEvents anchors events
    let operationBuckets := bucketIntervals anchors Operation.startedAt Operation.stop operations
    let sampleBuckets :=
      bucketIntervals anchors QualitySample.windowStart QualitySample.windowEnd qualitySamples
    (List.range anchors.length).map fun index =>
      { events := eventBuckets.getD index []
        operations := operationBuckets.getD index []
        qualitySamples := sampleBuckets.getD index []
        unattributableOperations :=
          unattributableIntervals anchors Operation.startedAt Operation.stop operations
        unattributableQualitySamples :=
          unattributableIntervals anchors QualitySample.windowStart QualitySample.windowEnd
            qualitySamples
        turnOperations := operations }

/-! ## What the walk over the anchors finds -/

/-- The point is before the other, where they compare. -/
def Precedes (point other : TimePoint) : Prop := pointAtOrAfter point other = some false

/-- The point is at the other or after it, where they compare. -/
def AtOrAfter (point other : TimePoint) : Prop := pointAtOrAfter point other = some true

instance decidablePrecedes (point other : TimePoint) : Decidable (Precedes point other) :=
  inferInstanceAs (Decidable (_ = _))

instance decidableAtOrAfter (point other : TimePoint) : Decidable (AtOrAfter point other) :=
  inferInstanceAs (Decidable (_ = _))

/-- The point compares with every anchor. -/
def Comparable (anchors : List Event) (point : TimePoint) : Prop :=
  ∀ anchor ∈ anchors, AtOrAfter point anchor.time ∨ Precedes point anchor.time

/-- Of the anchors the point is at or after every one up to `anchor`, and the
next one it precedes. -/
def StopsAt (anchors : List Event) (point : TimePoint) (anchor : Event) (index : ℕ) : Prop :=
  ∃ before rest, anchors = before ++ anchor :: rest ∧ before.length = index ∧
    (∀ earlier ∈ before, AtOrAfter point earlier.time) ∧ AtOrAfter point anchor.time ∧
    ∀ next ∈ rest.head?, Precedes point next.time

variable {anchors : List Event} {point : TimePoint}

theorem not_precedes_of_atOrAfter {other : TimePoint} (h : AtOrAfter point other) :
    ¬ Precedes point other := by
  intro hbefore
  have hboth := h.symm.trans hbefore
  cases hboth

theorem latestFrom_eq (h : Comparable anchors point) (index : ℕ) (assigned : Option ℕ) :
    (latestFrom point anchors index assigned = assigned ∧
        ∀ anchor ∈ anchors.head?, Precedes point anchor.time) ∨
      ∃ anchor place, StopsAt anchors point anchor place ∧
        latestFrom point anchors index assigned = some (index + place) := by
  induction anchors generalizing index assigned with
  | nil =>
    exact Or.inl ⟨rfl, fun _ hnone => absurd hnone (Option.not_mem_none _)⟩
  | cons anchor anchors ih =>
    rw [latestFrom]
    rcases h anchor List.mem_cons_self with hafter | hbefore
    · have hafter' : pointAtOrAfter point anchor.time = some true := hafter
      rw [hafter']
      refine Or.inr ?_
      dsimp only
      rcases ih (fun other hother => h other (List.mem_cons_of_mem _ hother)) (index + 1)
        (some index) with ⟨heq, hnext⟩ | ⟨found, place, hstops, heq⟩
      · exact ⟨anchor, 0, ⟨[], anchors, rfl, rfl, fun _ hnil => absurd hnil List.not_mem_nil,
          hafter, hnext⟩, heq⟩
      · obtain ⟨before, rest, rfl, rfl, hall, hfound, hnext⟩ := hstops
        refine ⟨found, before.length + 1, ⟨anchor :: before, rest, rfl, rfl, ?_, hfound, hnext⟩, ?_⟩
        · intro earlier hearlier
          rcases List.mem_cons.mp hearlier with rfl | hearlier
          · exact hafter
          · exact hall earlier hearlier
        · rw [heq]
          exact congrArg some (by omega)
    · have hbefore' : pointAtOrAfter point anchor.time = some false := hbefore
      rw [hbefore']
      refine Or.inl ⟨rfl, fun other hother => ?_⟩
      obtain rfl := Option.some.inj hother
      exact hbefore

/-- The walk stops at one anchor only. -/
theorem StopsAt.unique {anchor other : Event} {index place : ℕ}
    (h : StopsAt anchors point anchor index) (h' : StopsAt anchors point other place) :
    anchor = other ∧ index = place := by
  obtain ⟨before, rest, heq, hindex, hall, hafter, hnext⟩ := h
  obtain ⟨before', rest', heq', hplace, hall', hafter', hnext'⟩ := h'
  have hlt : ∀ {b r b' r' : List Event} {x y : Event}, anchors = b ++ x :: r →
      anchors = b' ++ y :: r' → (∀ next ∈ r.head?, Precedes point next.time) →
      (∀ earlier ∈ b', AtOrAfter point earlier.time) → AtOrAfter point y.time →
      b'.length ≤ b.length := by
    intro b r b' r' x y hb hb' hnext hall hafter
    by_contra hlong
    have hget : anchors[b.length + 1]? = r.head? := by
      rw [hb, List.getElem?_append_right (by omega), Nat.add_sub_cancel_left]
      cases r <;> rfl
    rw [hb'] at hget
    by_cases hlast : b.length + 1 = b'.length
    · rw [hlast, List.getElem?_append_right le_rfl, Nat.sub_self] at hget
      exact not_precedes_of_atOrAfter hafter (hnext y hget.symm)
    · rw [List.getElem?_append_left (by omega), List.getElem?_eq_getElem (by omega)] at hget
      exact not_precedes_of_atOrAfter (hall _ (List.getElem_mem _)) (hnext _ hget.symm)
  have hlength : before.length = before'.length :=
    le_antisymm (hlt heq' heq hnext' hall hafter) (hlt heq heq' hnext hall' hafter')
  refine ⟨?_, by omega⟩
  rw [heq] at heq'
  exact (List.cons.inj (List.append_inj heq' hlength).2).1

/-- **What the walk finds**, of a point that compares with every anchor: where
it stops, and nothing where the point precedes the first. -/
theorem latestAnchorAtOrBefore_iff (h : Comparable anchors point) (index : ℕ) :
    latestAnchorAtOrBefore anchors point = some index ↔
      ∃ anchor, StopsAt anchors point anchor index := by
  rcases latestFrom_eq h 0 none with ⟨heq, hnext⟩ | ⟨anchor, place, hstops, heq⟩
  · rw [latestAnchorAtOrBefore, heq]
    constructor
    · intro hnone
      cases hnone
    · rintro ⟨anchor, before, rest, rfl, -, hall, hafter, -⟩
      cases before with
      | nil => exact absurd (hnext anchor rfl) (not_precedes_of_atOrAfter hafter)
      | cons first before =>
        exact absurd (hnext first rfl) (not_precedes_of_atOrAfter (hall _ List.mem_cons_self))
  · rw [latestAnchorAtOrBefore, heq, Nat.zero_add]
    constructor
    · intro hsome
      obtain rfl := Option.some.inj hsome
      exact ⟨anchor, hstops⟩
    · rintro ⟨other, hother⟩
      rw [(hstops.unique hother).2]

theorem latestAnchorAtOrBefore_lt {index : ℕ}
    (h : latestAnchorAtOrBefore anchors point = some index) : index < anchors.length := by
  have hbound : ∀ (anchors : List Event) (start : ℕ) (assigned : Option ℕ),
      (∀ i ∈ assigned, i < start) → ∀ i ∈ latestFrom point anchors start assigned,
        i < start + anchors.length := by
    intro anchors
    induction anchors with
    | nil => exact fun start assigned hlt i hi => hlt i hi
    | cons anchor anchors ih =>
      intro start assigned hlt i hi
      rw [latestFrom] at hi
      rw [List.length_cons]
      split at hi
      · have hi := ih (start + 1) (some start) (fun j hj => by
          obtain rfl := Option.some.inj hj
          omega) i hi
        omega
      · have hi := hlt i hi
        omega
      · have hi := ih (start + 1) assigned (fun j hj => by
          have hj := hlt j hj
          omega) i hi
        omega
  have hlt := hbound anchors 0 none (fun _ hnone => absurd hnone (Option.not_mem_none _)) index h
  omega

end Earshot.Analysis
