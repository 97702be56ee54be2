import Earshot.Analysis.Chains
/-!
# What an episode holds

The episodes of a turn divide its records: no record is in two. An event that
compares with every anchor is to be in the episode of the latest anchor that
is not after it, an interval in the one episode whose span it overlaps, and a
stage is to cite a record of its own episode that no other of the stage
precedes.

The walk over the anchors ends at the first one an event precedes, and the
first event of a stage is that of the order of presentation. Both put the
monotonic readings first, and so the division is the right one when the wall
readings do not turn that order around (`partitioned_iff`).
-/

namespace Earshot.Analysis

open Clocks Bisect

variable {events : List Event} {operations : List Operation} {qualitySamples : List QualitySample}
  {anchors : List Event} {start stop : TimePoint}

/-! ## Spans -/

/-- An interval overlaps the span from an anchor up to before the next. -/
def Overlaps (anchors : List Event) (start stop : TimePoint) (index : ℕ) : Prop :=
  ∃ anchor, anchors[index]? = some anchor ∧ AtOrAfter stop anchor.time ∧
    ∀ next ∈ anchors[index + 1]?, Precedes start next.time

/-- It overlaps this span, and no other. -/
def OverlapsOnly (anchors : List Event) (start stop : TimePoint) (index : ℕ) : Prop :=
  Overlaps anchors start stop index ∧ ∀ other, Overlaps anchors start stop other → other = index

/-- It overlaps two. -/
def OverlapsTwo (anchors : List Event) (start stop : TimePoint) : Prop :=
  ∃ index other, index < other ∧ Overlaps anchors start stop index ∧
    Overlaps anchors start stop other

/-- One anchor: it can be told, and is told rightly. -/
theorem intervalWithinEpisode_eq {anchor : Event} {next : Option Event}
    (hstop : AtOrAfter stop anchor.time ∨ Precedes stop anchor.time)
    (hstart : ∀ other ∈ next, AtOrAfter start other.time ∨ Precedes start other.time) :
    ∃ within, intervalWithinEpisode start stop anchor next = some within ∧
      (within = true ↔ AtOrAfter stop anchor.time ∧
        ∀ other ∈ next, Precedes start other.time) := by
  unfold intervalWithinEpisode
  rcases hstop with hstop | hstop
  · have hends : pointAtOrAfter stop anchor.time = some true := hstop
    cases next with
    | none => exact ⟨true, by simp [hends], by simp [hstop]⟩
    | some other =>
      rcases hstart other rfl with hafter | hbefore
      · have hstarts : pointAtOrAfter start other.time = some true := hafter
        refine ⟨false, by simp [hends, hstarts], ?_⟩
        simp only [Bool.false_eq_true, Option.mem_def, Option.some.injEq, forall_eq', false_iff]
        exact fun h => not_precedes_of_atOrAfter hafter h.2
      · have hstarts : pointAtOrAfter start other.time = some false := hbefore
        refine ⟨true, by simp [hends, hstarts], ?_⟩
        simp only [Option.mem_def, Option.some.injEq, forall_eq', true_iff]
        exact ⟨hstop, hbefore⟩
  · have hends : pointAtOrAfter stop anchor.time = some false := hstop
    refine ⟨false, by simp [hends], ?_⟩
    simp only [Bool.false_eq_true, false_iff]
    exact fun h => not_precedes_of_atOrAfter h.1 hstop

/-- **All anchors**: what is found of each is whether the interval overlaps its
span. -/
theorem memberships_spec (hstart : Comparable anchors start) (hstop : Comparable anchors stop) :
    none ∉ memberships start stop anchors ∧
      ∀ index, (memberships start stop anchors)[index]? = some (some true) ↔
        Overlaps anchors start stop index := by
  induction anchors with
  | nil =>
    refine ⟨List.not_mem_nil, fun index => ?_⟩
    constructor
    · intro h
      cases h
    · rintro ⟨anchor, h, -⟩
      cases h
  | cons anchor anchors ih =>
    obtain ⟨hnone, hall⟩ := ih (fun other hother => hstart other (List.mem_cons_of_mem _ hother))
      (fun other hother => hstop other (List.mem_cons_of_mem _ hother))
    obtain ⟨within, heq, hwithin⟩ := intervalWithinEpisode_eq (hstop anchor List.mem_cons_self)
      fun other (hother : other ∈ anchors.head?) =>
        hstart other (List.mem_cons_of_mem _ (List.mem_of_head? hother))
    rw [memberships, heq]
    constructor
    · intro h
      rcases List.mem_cons.mp h with h | h
      · cases h
      · exact hnone h
    · intro index
      cases index with
      | zero =>
        rw [List.getElem?_cons_zero, Option.some.injEq, Option.some.injEq, hwithin]
        constructor
        · rintro ⟨hafter, hnext⟩
          refine ⟨anchor, rfl, hafter, ?_⟩
          rw [List.getElem?_cons_succ, ← List.head?_eq_getElem?]
          exact hnext
        · rintro ⟨other, hother, hafter, hnext⟩
          obtain rfl := Option.some.inj hother
          rw [List.getElem?_cons_succ, ← List.head?_eq_getElem?] at hnext
          exact ⟨hafter, hnext⟩
      | succ index => exact hall index

/-- What is counted more than once stands in two places. -/
theorem one_lt_countP_iff {α : Type*} {p : α → Bool} {l : List α} : 1 < l.countP p ↔
    ∃ i j : ℕ, i < j ∧ (∃ a, l[i]? = some a ∧ p a = true) ∧ ∃ a, l[j]? = some a ∧ p a = true := by
  have hpos : ∀ l : List α, 0 < l.countP p ↔ ∃ (j : ℕ) (a : α), l[j]? = some a ∧ p a = true := by
    intro l
    rw [List.countP_pos_iff]
    constructor
    · rintro ⟨a, ha, hpa⟩
      obtain ⟨j, hj⟩ := List.mem_iff_getElem?.mp ha
      exact ⟨j, a, hj, hpa⟩
    · rintro ⟨j, a, hj, hpa⟩
      exact ⟨a, List.mem_of_getElem? hj, hpa⟩
  induction l with
  | nil =>
    constructor
    · exact fun h => absurd h (Nat.not_lt_zero 1)
    · rintro ⟨i, j, -, ⟨a, ha, -⟩, -⟩
      cases ha
  | cons b l ih =>
    rw [List.countP_cons]
    constructor
    · intro h
      by_cases hb : p b = true
      · rw [if_pos hb] at h
        obtain ⟨j, a, hj, hpa⟩ := (hpos l).mp (by omega)
        exact ⟨0, j + 1, by omega, ⟨b, rfl, hb⟩, a, hj, hpa⟩
      · rw [if_neg hb] at h
        obtain ⟨i, j, hlt, hi, hj⟩ := ih.mp h
        exact ⟨i + 1, j + 1, by omega, hi, hj⟩
    · rintro ⟨i, j, hlt, hi, hj⟩
      obtain ⟨j, rfl⟩ : ∃ k, j = k + 1 := ⟨j - 1, by omega⟩
      cases i with
      | zero =>
        obtain ⟨a, ha, hpa⟩ := hi
        obtain rfl := Option.some.inj ha
        have := (hpos l).mpr ⟨j, hj⟩
        rw [if_pos hpa]
        omega
      | succ i =>
        have := ih.mpr ⟨i, j, by omega, hi, hj⟩
        omega

/-- **An interval that compares with every anchor** is unattributable when it
overlaps two spans. -/
theorem unattributable_iff (hstart : Comparable anchors start) (hstop : Comparable anchors stop) :
    unattributable (memberships start stop anchors) = true ↔ OverlapsTwo anchors start stop := by
  obtain ⟨hnone, hall⟩ := memberships_spec hstart hstop
  have hany : (memberships start stop anchors).any
      (fun membership => decide (membership = none)) = false := by
    rw [List.any_eq_false]
    intro membership hmem hm
    rw [of_decide_eq_true hm] at hmem
    exact hnone hmem
  rw [unattributable, hany, Bool.false_or, decide_eq_true_eq, one_lt_countP_iff]
  simp only [decide_eq_true_eq, exists_eq_right, hall]
  rfl

/-- **It is in the one episode whose span it overlaps.** -/
theorem ownEpisode_iff (hstart : Comparable anchors start) (hstop : Comparable anchors stop)
    (index : ℕ) : ownEpisode (memberships start stop anchors) = some index ↔
      OverlapsOnly anchors start stop index := by
  obtain ⟨-, hall⟩ := memberships_spec hstart hstop
  rw [ownEpisode]
  split
  · rename_i htwo
    obtain ⟨i, j, hlt, hi, hj⟩ := (unattributable_iff hstart hstop).mp htwo
    constructor
    · intro h
      cases h
    · rintro ⟨-, honly⟩
      have := honly i hi
      have := honly j hj
      omega
  · rename_i htwo
    rw [unattributable_iff hstart hstop] at htwo
    have honly : ∀ i j, Overlaps anchors start stop i → Overlaps anchors start stop j → j = i := by
      intro i j hi hj
      rcases lt_trichotomy i j with hlt | heq | hlt
      · exact absurd ⟨i, j, hlt, hi, hj⟩ htwo
      · exact heq.symm
      · exact absurd ⟨j, i, hlt, hj, hi⟩ htwo
    constructor
    · intro h
      obtain ⟨hlt, hfound, -⟩ := List.findIdx?_eq_some_iff_getElem.mp h
      have hindex : Overlaps anchors start stop index := by
        rw [← hall, List.getElem?_eq_getElem hlt, of_decide_eq_true hfound]
      exact ⟨hindex, fun other hother => honly _ _ hindex hother⟩
    · rintro ⟨hindex, -⟩
      cases hfound : (memberships start stop anchors).findIdx? fun membership =>
          decide (membership = some true) with
      | none =>
        have hnone := List.findIdx?_eq_none_iff.mp hfound _
          (List.mem_of_getElem? ((hall index).mpr hindex))
        exact absurd rfl (of_decide_eq_false hnone)
      | some place =>
        obtain ⟨hlt, hplace, -⟩ := List.findIdx?_eq_some_iff_getElem.mp hfound
        have hother : Overlaps anchors start stop place := by
          rw [← hall, List.getElem?_eq_getElem hlt, of_decide_eq_true hplace]
        rw [honly _ _ hindex hother]

/-! ## What is in each episode -/

/-- The events that the walk puts at an anchor. -/
def ownEvents (events : List Event) (index : ℕ) : List Event :=
  events.filter fun event =>
    decide (latestAnchorAtOrBefore (anchorsOf events) event.time = some index)

/-- A turn with several anchors has an episode for each, of the records whose
place it is. -/
def episodeAt (events : List Event) (operations : List Operation)
    (qualitySamples : List QualitySample) (index : ℕ) : InterruptionEpisode where
  events := ownEvents events index
  operations := operations.filter fun operation => decide (ownEpisode
    (memberships operation.startedAt operation.stop (anchorsOf events)) = some index)
  qualitySamples := qualitySamples.filter fun sample => decide (ownEpisode
    (memberships sample.windowStart sample.windowEnd (anchorsOf events)) = some index)
  unattributableOperations :=
    unattributableIntervals (anchorsOf events) Operation.startedAt Operation.stop operations
  unattributableQualitySamples := unattributableIntervals (anchorsOf events)
    QualitySample.windowStart QualitySample.windowEnd qualitySamples
  turnOperations := operations

/-- **The episodes of a turn** with several anchors. -/
theorem segment_eq (h : 2 ≤ (anchorsOf events).length) :
    segmentInterruptionEpisodes events operations qualitySamples =
      (List.range (anchorsOf events).length).map
        (episodeAt events operations qualitySamples) := by
  have hsome : (triggers events).isEmpty = false := by
    cases htriggers : triggers events with
    | nil =>
      rw [anchorsOf, htriggers] at h
      exact absurd h (by decide)
    | cons trigger rest => rfl
  rw [segmentInterruptionEpisodes, hsome, if_neg Bool.false_ne_true, if_neg (by omega)]
  refine List.map_congr_left fun index hindex => ?_
  have hlt := List.mem_range.mp hindex
  rw [bucketEvents, bucketIntervals, bucketIntervals, List.getD_eq_getElem?_getD,
    List.getD_eq_getElem?_getD, List.getD_eq_getElem?_getD, Buckets.getElem?_distribute hlt,
    Buckets.getElem?_distribute hlt, Buckets.getElem?_distribute hlt]
  rfl

/-- An episode of a turn with several anchors. -/
theorem getElem?_segment (h : 2 ≤ (anchorsOf events).length) {index : ℕ}
    {episode : InterruptionEpisode} :
    (segmentInterruptionEpisodes events operations qualitySamples)[index]? = some episode ↔
      index < (anchorsOf events).length ∧
        episode = episodeAt events operations qualitySamples index := by
  rw [segment_eq h, List.getElem?_map, Option.map_eq_some_iff]
  constructor
  · rintro ⟨place, hplace, rfl⟩
    obtain ⟨hlt, rfl⟩ := List.getElem?_eq_some_iff.mp hplace
    rw [List.length_range] at hlt
    rw [List.getElem_range]
    exact ⟨hlt, rfl⟩
  · rintro ⟨hlt, rfl⟩
    exact ⟨index, List.getElem?_range hlt, rfl⟩

theorem mem_segment (h : 2 ≤ (anchorsOf events).length) {episode : InterruptionEpisode} :
    episode ∈ segmentInterruptionEpisodes events operations qualitySamples ↔
      ∃ index < (anchorsOf events).length,
        episode = episodeAt events operations qualitySamples index := by
  rw [List.mem_iff_getElem?]
  simp only [getElem?_segment h]

theorem mem_ownEvents {index : ℕ} {event : Event} : event ∈ ownEvents events index ↔
    event ∈ events ∧ latestAnchorAtOrBefore (anchorsOf events) event.time = some index := by
  rw [ownEvents, List.mem_filter, decide_eq_true_eq]

/-! ## Events and anchors -/

/-- The latest anchor that is not after a point: no other such anchor is after
it. -/
structure IsLatest (anchors : List Event) (point : TimePoint) (anchor : Event) : Prop where
  mem : anchor ∈ anchors
  atOrAfter : AtOrAfter point anchor.time
  latest : ∀ other ∈ anchors, AtOrAfter point other.time → ¬ Precedes anchor.time other.time

/-- An event that is at some anchor or after it is so up to the first it
precedes, and none of these anchors is after the one that ends them. -/
def EndsAtLatest (anchors : List Event) (point : TimePoint) : Prop :=
  ∀ other ∈ anchors, AtOrAfter point other.time →
    ∃ anchor index, StopsAt anchors point anchor index ∧ ¬ Precedes anchor.time other.time

theorem StopsAt.getElem? {point : TimePoint} {anchor : Event} {index : ℕ}
    (h : StopsAt anchors point anchor index) : anchors[index]? = some anchor := by
  obtain ⟨before, rest, rfl, rfl, -⟩ := h
  rw [List.getElem?_append_right le_rfl, Nat.sub_self]
  rfl

theorem StopsAt.atOrAfter {point : TimePoint} {anchor : Event} {index : ℕ}
    (h : StopsAt anchors point anchor index) : AtOrAfter point anchor.time := by
  obtain ⟨before, rest, -, -, -, hafter, -⟩ := h
  exact hafter

/-- **One event** is in the episode of the latest anchor not after it, and in
none where it precedes them all, exactly if the walk ends at such an anchor. -/
theorem latestAnchor_spec_iff {point : TimePoint} (h : Comparable anchors point) :
    ((∀ index, latestAnchorAtOrBefore anchors point = some index →
        ∃ anchor, anchors[index]? = some anchor ∧ IsLatest anchors point anchor) ∧
      (latestAnchorAtOrBefore anchors point = none ↔
        ∀ anchor ∈ anchors, Precedes point anchor.time)) ↔ EndsAtLatest anchors point := by
  constructor
  · rintro ⟨hlatest, hnone⟩ other hother hafter
    cases hfound : latestAnchorAtOrBefore anchors point with
    | none => exact absurd (hnone.mp hfound other hother) (not_precedes_of_atOrAfter hafter)
    | some index =>
      obtain ⟨anchor, hget, hanchor⟩ := hlatest index hfound
      obtain ⟨stopped, hstops⟩ := (latestAnchorAtOrBefore_iff h index).mp hfound
      obtain rfl := Option.some.inj (hget.symm.trans hstops.getElem?)
      exact ⟨anchor, index, hstops, hanchor.latest other hother hafter⟩
  · intro hends
    constructor
    · intro index hfound
      obtain ⟨anchor, hstops⟩ := (latestAnchorAtOrBefore_iff h index).mp hfound
      refine ⟨anchor, hstops.getElem?, List.mem_of_getElem? hstops.getElem?, hstops.atOrAfter, ?_⟩
      intro other hother hafter
      obtain ⟨stopped, place, hstopped, hnot⟩ := hends other hother hafter
      obtain ⟨rfl, -⟩ := hstops.unique hstopped
      exact hnot
    · constructor
      · intro hnone anchor hanchor
        rcases h anchor hanchor with hafter | hbefore
        · obtain ⟨stopped, place, hstopped, -⟩ := hends anchor hanchor hafter
          have hsome := (latestAnchorAtOrBefore_iff h place).mpr ⟨stopped, hstopped⟩
          rw [hnone] at hsome
          cases hsome
        · exact hbefore
      · intro hall
        cases hfound : latestAnchorAtOrBefore anchors point with
        | none => rfl
        | some index =>
          obtain ⟨anchor, hstops⟩ := (latestAnchorAtOrBefore_iff h index).mp hfound
          exact absurd (hall anchor (List.mem_of_getElem? hstops.getElem?))
            (not_precedes_of_atOrAfter hstops.atOrAfter)

/-! ## Stages -/

/-- The names of the events a stage is observed in. -/
def stageNames (events : List Event) : Stage → List String
  | .overlapObserved => OVERLAP_EVENT_NAMES
  | .classified => CLASSIFIED_EVENT_NAMES
  | .cancellationRequested => CANCELLATION_REQUESTED_EVENT_NAMES
  | .generationStopped =>
      if (firstNamedEvent events GENERATION_STOPPED_EVENT_NAMES).isSome then
        GENERATION_STOPPED_EVENT_NAMES
      else [(MODEL_CANCELLED_EVENT_NAME)]
  | .queuedAudioDiscarded => QUEUED_AUDIO_DISCARDED_EVENT_NAMES
  | .transportStopped => TRANSPORT_STOPPED_EVENT_NAMES
  | .buffersPurged => BUFFERS_PURGED_EVENT_NAMES
  | .renderStopped => RENDER_STOPPED_EVENT_NAMES
  | .resumed => RESUMED_EVENT_NAMES
  | .intent => []
  | .toolOutcome => []

/-- The first event of a stage. -/
def firstOfStage (events : List Event) (stage : Stage) : Option Event :=
  firstNamedEvent events (stageNames events stage)

theorem firstNamedEvent_mem {names : List String} {event : Event}
    (h : firstNamedEvent events names = some event) :
    event ∈ events ∧ event.named names = true :=
  List.mem_filter.mp (head?_sortedBy.mp h).mem

theorem firstNamedEvent_nil : firstNamedEvent events [] = none := by
  cases h : firstNamedEvent events [] with
  | none => rfl
  | some event => exact absurd (firstNamedEvent_mem h).2 (by simp [Event.named])

theorem firstNamedEvent_isSome {names : List String} :
    (firstNamedEvent events names).isSome = true ↔ ∃ event ∈ events, event.named names = true := by
  constructor
  · intro h
    obtain ⟨event, hevent⟩ := Option.isSome_iff_exists.mp h
    exact ⟨event, firstNamedEvent_mem hevent⟩
  · rintro ⟨event, hmem, hnamed⟩
    cases hfirst : firstNamedEvent events names with
    | some first => rfl
    | none =>
      have hin : event ∈ sortedBy Event.presentationKey (events.filter (Event.named names)) :=
        mem_sortedBy.mpr (List.mem_filter.mpr ⟨hmem, hnamed⟩)
      rw [List.head?_eq_none_iff.mp hfirst] at hin
      exact absurd hin List.not_mem_nil

variable {episode : InterruptionEpisode}

/-- What an observed stage cites. -/
inductive CitedBy (episode : InterruptionEpisode) (stage : Stage) : Cited → Prop where
  | event {event : Event} (h : firstOfStage episode.events stage = some event) :
      CitedBy episode stage (.event event)
  | sample {sample : QualitySample} (h : sample ∈ episode.qualitySamples) :
      CitedBy episode stage (.sample sample)
  | operation {operation : Operation} (h : operation ∈ episode.operations) :
      CitedBy episode stage (.operation operation)

theorem cited_eventStage {stage own : Stage} {found : Option Event}
    {coordinate : Option ℕ × Option String × Option String} {cited : Cited}
    {outcome : Option String} (hfound : found = firstOfStage episode.events own)
    (h : StageRecord.observed stage coordinate cited outcome = eventStage own found) :
    coordinate = stageCoordinate cited.point ∧ CitedBy episode stage cited := by
  cases found with
  | none => cases h
  | some event =>
    cases h
    exact ⟨rfl, .event hfound.symm⟩

theorem cited_sampleStage {stage own : Stage} {measurementName : String} {requireTrue : Bool}
    {coordinate : Option ℕ × Option String × Option String} {cited : Cited}
    {outcome : Option String}
    (h : StageRecord.observed stage coordinate cited outcome =
      sampleStage episode own measurementName requireTrue) :
    coordinate = stageCoordinate cited.point ∧ CitedBy episode stage cited := by
  rw [sampleStage] at h
  cases hfound : firstMeasurementSample episode.qualitySamples measurementName requireTrue with
  | none =>
    rw [hfound] at h
    cases h
  | some sample =>
    rw [hfound] at h
    cases h
    exact ⟨rfl, .sample (mem_sortedBy.mp (List.mem_of_find?_eq_some hfound))⟩

theorem cited_toolOutcomeStage {stage : Stage} {overlap : Option Event}
    {coordinate : Option ℕ × Option String × Option String} {cited : Cited}
    {outcome : Option String}
    (h : StageRecord.observed stage coordinate cited outcome = toolOutcomeStage episode overlap) :
    coordinate = stageCoordinate cited.point ∧ CitedBy episode stage cited := by
  unfold toolOutcomeStage at h
  dsimp only at h
  split at h
  · cases h
  · split at h
    · cases h
    · split at h
      · cases h
      · rename_i chosen rest hchosen
        cases h
        have hmem := List.mem_filter.mp (List.mem_filter.mp (hchosen ▸ List.mem_cons_self)).1
        exact ⟨rfl, .operation (List.mem_filter.mp (mem_sortedBy.mp hmem.1)).1⟩

variable {turnId : String} {relations : List ClockRelation} {chain : InterruptionChain}

/-- Generation is stopped by what is named so, or by a model's cancel. -/
theorem generationStopped_eq (events : List Event) :
    generationStoppedEvent events = firstOfStage events .generationStopped := by
  rw [generationStoppedEvent, firstOfStage, stageNames]
  cases hfirst : firstNamedEvent events GENERATION_STOPPED_EVENT_NAMES with
  | none => rfl
  | some event => exact hfirst.symm

/-- The stages of an episode's chain. -/
def stagesOf (episode : InterruptionEpisode) : List StageRecord :=
  [eventStage .overlapObserved (firstOfStage episode.events .overlapObserved),
    sampleStage episode .intent INTERRUPTION_PROBABILITY_MEASUREMENT false,
    eventStage .classified (firstOfStage episode.events .classified),
    eventStage .cancellationRequested (firstOfStage episode.events .cancellationRequested),
    eventStage .generationStopped (firstOfStage episode.events .generationStopped),
    eventStage .queuedAudioDiscarded (firstOfStage episode.events .queuedAudioDiscarded),
    eventStage .transportStopped (firstOfStage episode.events .transportStopped),
    eventStage .buffersPurged (firstOfStage episode.events .buffersPurged),
    eventStage .renderStopped (firstOfStage episode.events .renderStopped),
    resumedStage episode,
    toolOutcomeStage episode (firstOfStage episode.events .overlapObserved)]

/-- The episode observed an interruption. -/
def ObservesInterruption (events : List Event) : Prop :=
  ∃ event ∈ events,
    event.named OVERLAP_EVENT_NAMES = true ∨ event.named CLASSIFIED_EVENT_NAMES = true

/-- **A chain has these stages.** -/
theorem stages_of_build (h : buildInterruptionChain episode turnId relations = some chain) :
    ObservesInterruption episode.events ∧ chain.stages = stagesOf episode := by
  unfold buildInterruptionChain at h
  dsimp only at h
  split at h
  · cases h
  · rename_i hsome
    constructor
    · rw [Bool.and_eq_true, not_and_or, Option.isNone_iff_eq_none, Option.isNone_iff_eq_none,
        ← Ne, ← Ne, Option.ne_none_iff_isSome, Option.ne_none_iff_isSome, firstNamedEvent_isSome,
        firstNamedEvent_isSome] at hsome
      rcases hsome with ⟨event, hmem, hnamed⟩ | ⟨event, hmem, hnamed⟩
      · exact ⟨event, hmem, Or.inl hnamed⟩
      · exact ⟨event, hmem, Or.inr hnamed⟩
    · obtain rfl := Option.some.inj h
      dsimp only
      rw [generationStopped_eq]
      rfl

/-- There is a chain wherever an interruption was observed. -/
theorem exists_build (episode : InterruptionEpisode) (turnId : String)
    (relations : List ClockRelation) (h : ObservesInterruption episode.events) :
    ∃ chain, buildInterruptionChain episode turnId relations = some chain := by
  unfold buildInterruptionChain
  dsimp only
  split
  · rename_i hnone
    rw [Bool.and_eq_true, Option.isNone_iff_eq_none, Option.isNone_iff_eq_none] at hnone
    obtain ⟨event, hmem, hnamed | hnamed⟩ := h
    · have hsome := firstNamedEvent_isSome.mpr ⟨event, hmem, hnamed⟩
      rw [hnone.1] at hsome
      cases hsome
    · have hsome := firstNamedEvent_isSome.mpr ⟨event, hmem, hnamed⟩
      rw [hnone.2] at hsome
      cases hsome
  · exact ⟨_, rfl⟩

/-- **An observed stage cites a record of its episode**, with its reading. -/
theorem cited_of_mem_stages {stage : Stage} {coordinate : Option ℕ × Option String × Option String}
    {cited : Cited} {outcome : Option String}
    (h : StageRecord.observed stage coordinate cited outcome ∈ stagesOf episode) :
    coordinate = stageCoordinate cited.point ∧ CitedBy episode stage cited := by
  simp only [stagesOf, List.mem_cons, List.not_mem_nil, or_false] at h
  rcases h with h | h | h | h | h | h | h | h | h | h | h
  · exact cited_eventStage rfl h
  · exact cited_sampleStage h
  · exact cited_eventStage rfl h
  · exact cited_eventStage rfl h
  · exact cited_eventStage rfl h
  · exact cited_eventStage rfl h
  · exact cited_eventStage rfl h
  · exact cited_eventStage rfl h
  · exact cited_eventStage rfl h
  · unfold resumedStage at h
    split at h
    · rename_i event hresumed
      exact cited_eventStage hresumed.symm h
    · exact cited_sampleStage h
  · exact cited_toolOutcomeStage h

/-- **The first event of a stage is cited.** -/
theorem mem_stages_of_first {stage : Stage} {event : Event}
    (h : firstOfStage episode.events stage = some event) :
    observedStage stage (.event event) none ∈ stagesOf episode := by
  have hcited : observedStage stage (.event event) none = eventStage stage (some event) := rfl
  rw [hcited, ← h]
  cases stage with
  | intent =>
    rw [firstOfStage, stageNames, firstNamedEvent_nil] at h
    cases h
  | toolOutcome =>
    rw [firstOfStage, stageNames, firstNamedEvent_nil] at h
    cases h
  | resumed =>
    have hresumed : resumedStage episode = eventStage .resumed (some event) := by
      rw [resumedStage, show firstNamedEvent episode.events RESUMED_EVENT_NAMES = some event from h]
    rw [h, ← hresumed]
    simp only [stagesOf, List.mem_cons, true_or, or_true]
  | overlapObserved => simp only [stagesOf, List.mem_cons, true_or]
  | classified => simp only [stagesOf, List.mem_cons, true_or, or_true]
  | cancellationRequested => simp only [stagesOf, List.mem_cons, true_or, or_true]
  | generationStopped => simp only [stagesOf, List.mem_cons, true_or, or_true]
  | queuedAudioDiscarded => simp only [stagesOf, List.mem_cons, true_or, or_true]
  | transportStopped => simp only [stagesOf, List.mem_cons, true_or, or_true]
  | buffersPurged | renderStopped => simp only [stagesOf, List.mem_cons, true_or, or_true]

/-! ## The order of presentation -/

/-- An event read in one clock domain, by its monotonic clock or its source's
wall clock or both. -/
structure ReadIn (domain : String) (event : Event) : Prop where
  domain : event.time.clockDomainId = some domain
  reading : event.time.monotonicTimeNano.isSome = true ∨
    event.time.sourceTimeUnixNano.isSome = true

/-- Of the events with a monotonic reading, the first of least reading and then
of least id. -/
def LeadsByMonotonic (events : List Event) (first : Event) : Prop :=
  ∃ pre post value, events = pre ++ first :: post ∧
    first.time.monotonicTimeNano = some value ∧
    (∀ other ∈ pre, ∀ reading ∈ other.time.monotonicTimeNano,
      toLex (value, first.eventId) < toLex (reading, other.eventId)) ∧
    ∀ other ∈ post, ∀ reading ∈ other.time.monotonicTimeNano,
      toLex (value, first.eventId) ≤ toLex (reading, other.eventId)

variable {domain : String} {event other first : Event} {value reading : ℕ}

theorem presentationKey_monotonic (h : ReadIn domain event)
    (hvalue : event.time.monotonicTimeNano = some value) : event.presentationKey =
      toLex (0, toLex (domain, toLex ("monotonic", toLex (value, event.eventId)))) := by
  rw [Event.presentationKey, presentationKey, comparableCoordinate, h.domain, Option.bind_some,
    hvalue]

theorem presentationKey_wall (h : ReadIn domain event)
    (hnone : event.time.monotonicTimeNano = none)
    (hvalue : event.time.sourceTimeUnixNano = some value) : event.presentationKey =
      toLex (0, toLex (domain, toLex ("source_wall", toLex (value, event.eventId)))) := by
  rw [Event.presentationKey, presentationKey, comparableCoordinate, h.domain, Option.bind_some,
    hnone, hvalue]

theorem ReadIn.wall (h : ReadIn domain event) (hnone : event.time.monotonicTimeNano = none) :
    ∃ value, event.time.sourceTimeUnixNano = some value := by
  rcases h.reading with hsome | hsome
  · rw [hnone] at hsome
    cases hsome
  · exact Option.isSome_iff_exists.mp hsome

/-- Keys of one domain and basis are compared by what is left. -/
theorem key_lt_iff {basis : String} {a b : ℕ ×ₗ String} :
    (toLex (0, toLex (domain, toLex (basis, a))) : ℕ ×ₗ String ×ₗ String ×ₗ ℕ ×ₗ String) <
      toLex (0, toLex (domain, toLex (basis, b))) ↔ a < b := by
  simp only [Prod.Lex.toLex_lt_toLex, lt_irrefl, true_and, false_or]

theorem key_le_iff {basis : String} {a b : ℕ ×ₗ String} :
    (toLex (0, toLex (domain, toLex (basis, a))) : ℕ ×ₗ String ×ₗ String ×ₗ ℕ ×ₗ String) ≤
      toLex (0, toLex (domain, toLex (basis, b))) ↔ a ≤ b := by
  rw [← not_lt, key_lt_iff, not_lt]

/-- A monotonic reading is presented before a wall reading. -/
theorem monotonic_lt_wall (a b : ℕ ×ₗ String) :
    (toLex (0, toLex (domain, toLex ("monotonic", a))) : ℕ ×ₗ String ×ₗ String ×ₗ ℕ ×ₗ String) <
      toLex (0, toLex (domain, toLex ("source_wall", b))) := by
  have hbasis : ("monotonic" : String) < "source_wall" := by decide
  simp only [Prod.Lex.toLex_lt_toLex, lt_irrefl, true_and, false_or, hbasis, true_or]

/-- **Who leads by monotonic reading is presented first.** -/
theorem isFirstAt_of_leads (h : ∀ event ∈ events, ReadIn domain event)
    (hleads : LeadsByMonotonic events first) : IsFirstAt Event.presentationKey events first := by
  obtain ⟨pre, post, value, rfl, hvalue, hpre, hpost⟩ := hleads
  have hfirst := presentationKey_monotonic
    (h first (List.mem_append_right _ List.mem_cons_self)) hvalue
  refine ⟨pre, post, rfl, fun other hother => ?_, fun other hother => ?_⟩
  · have hread := h other (List.mem_append_left _ hother)
    rw [hfirst]
    cases hmono : other.time.monotonicTimeNano with
    | some reading =>
      rw [presentationKey_monotonic hread hmono, key_lt_iff]
      exact hpre other hother reading hmono
    | none =>
      obtain ⟨wall, hwall⟩ := hread.wall hmono
      rw [presentationKey_wall hread hmono hwall]
      exact monotonic_lt_wall _ _
  · have hread := h other (List.mem_append_right _ (List.mem_cons_of_mem _ hother))
    rw [hfirst]
    cases hmono : other.time.monotonicTimeNano with
    | some reading =>
      rw [presentationKey_monotonic hread hmono, key_le_iff]
      exact hpost other hother reading hmono
    | none =>
      obtain ⟨wall, hwall⟩ := hread.wall hmono
      rw [presentationKey_wall hread hmono hwall]
      exact le_of_lt (monotonic_lt_wall _ _)

/-- **Who is presented first with a monotonic reading leads by it.** -/
theorem leads_of_isFirstAt (h : ∀ event ∈ events, ReadIn domain event)
    (hfirst : IsFirstAt Event.presentationKey events first)
    (hvalue : first.time.monotonicTimeNano = some value) : LeadsByMonotonic events first := by
  obtain ⟨pre, post, rfl, hpre, hpost⟩ := hfirst
  have hkey := presentationKey_monotonic
    (h first (List.mem_append_right _ List.mem_cons_self)) hvalue
  refine ⟨pre, post, value, rfl, hvalue, fun other hother reading hreading => ?_,
    fun other hother reading hreading => ?_⟩
  · have hlt := hpre other hother
    rw [hkey, presentationKey_monotonic (h other (List.mem_append_left _ hother)) hreading,
      key_lt_iff] at hlt
    exact hlt
  · have hle := hpost other hother
    rw [hkey, presentationKey_monotonic
      (h other (List.mem_append_right _ (List.mem_cons_of_mem _ hother))) hreading,
      key_le_iff] at hle
    exact hle

/-- The reading is no less where the key is not. -/
theorem reading_le {basis : String} {identity identity' : String}
    (h : (toLex (0, toLex (domain, toLex (basis, toLex (value, identity)))) :
      ℕ ×ₗ String ×ₗ String ×ₗ ℕ ×ₗ String) ≤
        toLex (0, toLex (domain, toLex (basis, toLex (reading, identity'))))) :
    value ≤ reading := by
  rw [key_le_iff, Prod.Lex.toLex_le_toLex] at h
  rcases h with hlt | ⟨heq, -⟩
  · exact le_of_lt hlt
  · exact le_of_eq heq

/-- Two points of one domain are compared by their monotonic readings. -/
theorem precedes_monotonic (h : ReadIn domain event) (h' : ReadIn domain other)
    (hvalue : event.time.monotonicTimeNano = some value)
    (hreading : other.time.monotonicTimeNano = some reading) :
    Precedes event.time other.time ↔ value < reading := by
  rw [Precedes, pointAtOrAfter, h.domain, h'.domain, hvalue, hreading]
  simp

/-- Where one of them has none they are compared by their wall readings. -/
theorem precedes_wall (h : ReadIn domain event) (h' : ReadIn domain other)
    (hnone : event.time.monotonicTimeNano = none) :
    Precedes event.time other.time ↔ ∃ wall wall', event.time.sourceTimeUnixNano = some wall ∧
      other.time.sourceTimeUnixNano = some wall' ∧ wall < wall' := by
  rw [Precedes, pointAtOrAfter, h.domain, h'.domain, hnone]
  cases hwall : event.time.sourceTimeUnixNano with
  | none => simp
  | some wall =>
    cases hwall' : other.time.sourceTimeUnixNano with
    | none => simp
    | some wall' => simp

/-- **The event presented first** is one that none precedes, exactly if none
with a wall reading only precedes it where it leads by its monotonic reading. -/
theorem first_unpreceded_iff (h : ∀ event ∈ events, ReadIn domain event)
    (hfirst : IsFirstAt Event.presentationKey events first) :
    (∀ other ∈ events, ¬ Precedes other.time first.time) ↔
      (LeadsByMonotonic events first → ∀ other ∈ events, other.time.monotonicTimeNano = none →
        ∀ wall ∈ first.time.sourceTimeUnixNano, ∀ wall' ∈ other.time.sourceTimeUnixNano,
          wall ≤ wall') := by
  have hread := h first hfirst.mem
  constructor
  · intro hall _ other hother hnone wall hwall wall' hwall'
    by_contra hlt
    exact hall other hother ((precedes_wall (h other hother) hread hnone).mpr
      ⟨wall', wall, hwall', hwall, not_le.mp hlt⟩)
  · intro hwalls other hother hbefore
    have hreadOther := h other hother
    have hle := hfirst.le hother
    cases hmono : first.time.monotonicTimeNano with
    | some value =>
      cases hmonoOther : other.time.monotonicTimeNano with
      | some reading =>
        have hlt := (precedes_monotonic hreadOther hread hmonoOther hmono).mp hbefore
        rw [presentationKey_monotonic hread hmono,
          presentationKey_monotonic hreadOther hmonoOther] at hle
        exact absurd (reading_le hle) (not_le.mpr hlt)
      | none =>
        obtain ⟨wall', wall, hwall', hwall, hlt⟩ :=
          (precedes_wall hreadOther hread hmonoOther).mp hbefore
        have hleads := leads_of_isFirstAt h hfirst hmono
        exact absurd (hwalls hleads other hother hmonoOther wall hwall wall' hwall')
          (not_le.mpr hlt)
    | none =>
      obtain ⟨wall, hwall⟩ := hread.wall hmono
      rw [presentationKey_wall hread hmono hwall] at hle
      cases hmonoOther : other.time.monotonicTimeNano with
      | some reading =>
        rw [presentationKey_monotonic hreadOther hmonoOther] at hle
        exact absurd (monotonic_lt_wall _ _) (not_lt.mpr hle)
      | none =>
        obtain ⟨wall', first', hwall', hfirst', hlt⟩ :=
          (precedes_wall hreadOther hread hmonoOther).mp hbefore
        obtain rfl := Option.some.inj (hwall.symm.trans hfirst')
        rw [presentationKey_wall hreadOther hmonoOther hwall'] at hle
        exact absurd (reading_le hle) (not_le.mpr hlt)

/-! ## The division of a turn -/

/-- No record is in two episodes. -/
structure Disjoint (episode other : InterruptionEpisode) : Prop where
  events : ∀ event ∈ episode.events, event ∉ other.events
  operations : ∀ operation ∈ episode.operations, operation ∉ other.operations
  samples : ∀ sample ∈ episode.qualitySamples, sample ∉ other.qualitySamples

/-- A stage cites a record of the episode, with its reading, and an event that
no event of the stage precedes. -/
structure Cites (episode : InterruptionEpisode) (stage : Stage)
    (coordinate : Option ℕ × Option String × Option String) (cited : Cited) : Prop where
  coordinate : coordinate = stageCoordinate cited.point
  event : ∀ event, cited = .event event → event ∈ episode.events ∧
    event.named (stageNames episode.events stage) = true ∧
    ∀ other ∈ episode.events, other.named (stageNames episode.events stage) = true →
      ¬ Precedes other.time event.time
  sample : ∀ sample, cited = .sample sample → sample ∈ episode.qualitySamples
  operation : ∀ operation, cited = .operation operation → operation ∈ episode.operations

/-- **The episodes divide a turn**: no record is in two; an event that compares
with every anchor is in the episode of the latest anchor not after it, and in
none exactly if it precedes them all; an interval that does is in the one
episode whose span it overlaps, and is unattributable exactly if it overlaps
two; and an observed stage of a chain cites the earliest evidence of the
chain's own episode. -/
structure Partitioned (events : List Event) (operations : List Operation)
    (qualitySamples : List QualitySample) : Prop where
  once : ∀ (i j : ℕ) (episode other : InterruptionEpisode), i ≠ j →
    (segmentInterruptionEpisodes events operations qualitySamples)[i]? = some episode →
    (segmentInterruptionEpisodes events operations qualitySamples)[j]? = some other →
    Disjoint episode other
  latest : ∀ event ∈ events, Comparable (anchorsOf events) event.time →
    ∀ (i : ℕ) (episode : InterruptionEpisode),
      (segmentInterruptionEpisodes events operations qualitySamples)[i]? = some episode →
      event ∈ episode.events → ∃ anchor, (anchorsOf events)[i]? = some anchor ∧
        IsLatest (anchorsOf events) event.time anchor
  nowhere : ∀ event ∈ events, Comparable (anchorsOf events) event.time →
    ((∀ episode ∈ segmentInterruptionEpisodes events operations qualitySamples,
        event ∉ episode.events) ↔
      ∀ anchor ∈ anchorsOf events, Precedes event.time anchor.time)
  spans : ∀ operation ∈ operations, Comparable (anchorsOf events) operation.startedAt →
    Comparable (anchorsOf events) operation.stop →
    ∀ (i : ℕ) (episode : InterruptionEpisode),
      (segmentInterruptionEpisodes events operations qualitySamples)[i]? = some episode →
      (operation ∈ episode.operations ↔
        OverlapsOnly (anchorsOf events) operation.startedAt operation.stop i) ∧
      (operation ∈ episode.unattributableOperations ↔
        OverlapsTwo (anchorsOf events) operation.startedAt operation.stop)
  windows : ∀ sample ∈ qualitySamples, Comparable (anchorsOf events) sample.windowStart →
    Comparable (anchorsOf events) sample.windowEnd →
    ∀ (i : ℕ) (episode : InterruptionEpisode),
      (segmentInterruptionEpisodes events operations qualitySamples)[i]? = some episode →
      (sample ∈ episode.qualitySamples ↔
        OverlapsOnly (anchorsOf events) sample.windowStart sample.windowEnd i) ∧
      (sample ∈ episode.unattributableQualitySamples ↔
        OverlapsTwo (anchorsOf events) sample.windowStart sample.windowEnd)
  stages : ∀ turnId relations,
    ∀ chain ∈ interruptionChains turnId operations events qualitySamples relations,
    ∃ episode ∈ segmentInterruptionEpisodes events operations qualitySamples,
      buildInterruptionChain episode turnId relations = some chain ∧
      ∀ stage coordinate cited outcome,
        StageRecord.observed stage coordinate cited outcome ∈ chain.stages →
        Cites episode stage coordinate cited

/-- **The wall readings do not turn the order around**: of the anchors that an
event is at or after, it is so up to the first one it precedes, and none is
after the one that ends them; and of the events of a stage that are put at one
anchor, where an interruption was observed, the one that leads by its monotonic
reading is not after one that has a wall reading only. -/
structure InOrder (events : List Event) : Prop where
  ends : ∀ event ∈ events, Comparable (anchorsOf events) event.time →
    EndsAtLatest (anchorsOf events) event.time
  leads : ∀ index, ObservesInterruption (ownEvents events index) → ∀ stage first,
    LeadsByMonotonic ((ownEvents events index).filter
      (Event.named (stageNames (ownEvents events index) stage))) first →
    ∀ other ∈ ownEvents events index,
      other.named (stageNames (ownEvents events index) stage) = true →
      other.time.monotonicTimeNano = none →
      ∀ wall ∈ first.time.sourceTimeUnixNano, ∀ wall' ∈ other.time.sourceTimeUnixNano,
        wall ≤ wall'

theorem disjoint_segment (h : 2 ≤ (anchorsOf events).length) {i j : ℕ}
    {episode other : InterruptionEpisode} (hne : i ≠ j)
    (hepisode : (segmentInterruptionEpisodes events operations qualitySamples)[i]? = some episode)
    (hother : (segmentInterruptionEpisodes events operations qualitySamples)[j]? = some other) :
    Disjoint episode other := by
  obtain ⟨-, rfl⟩ := (getElem?_segment h).mp hepisode
  obtain ⟨-, rfl⟩ := (getElem?_segment h).mp hother
  constructor
  · intro event hi hj
    have hi := (mem_ownEvents.mp hi).2
    rw [(mem_ownEvents.mp hj).2] at hi
    exact hne (Option.some.inj hi).symm
  · intro operation hi hj
    have hi := of_decide_eq_true (List.mem_filter.mp hi).2
    rw [of_decide_eq_true (List.mem_filter.mp hj).2] at hi
    exact hne (Option.some.inj hi).symm
  · intro sample hi hj
    have hi := of_decide_eq_true (List.mem_filter.mp hi).2
    rw [of_decide_eq_true (List.mem_filter.mp hj).2] at hi
    exact hne (Option.some.inj hi).symm

/-- The episodes an event is in, and where the walk puts it. -/
theorem forall_not_mem_segment_iff (h : 2 ≤ (anchorsOf events).length) {event : Event}
    (hmem : event ∈ events) :
    (∀ episode ∈ segmentInterruptionEpisodes events operations qualitySamples,
        event ∉ episode.events) ↔
      latestAnchorAtOrBefore (anchorsOf events) event.time = none := by
  constructor
  · intro hnowhere
    cases hfound : latestAnchorAtOrBefore (anchorsOf events) event.time with
    | none => rfl
    | some index =>
      refine absurd (mem_ownEvents.mpr ⟨hmem, hfound⟩) (hnowhere _ ((mem_segment h).mpr
        ⟨index, latestAnchorAtOrBefore_lt hfound, rfl⟩))
  · intro hnone episode hepisode hevent
    obtain ⟨index, -, rfl⟩ := (mem_segment h).mp hepisode
    have hsome := (mem_ownEvents.mp hevent).2
    rw [hnone] at hsome
    cases hsome

/-- **The events are placed rightly** exactly if each walk ends at the latest
anchor. -/
theorem events_placed_iff (h : 2 ≤ (anchorsOf events).length) {event : Event}
    (hmem : event ∈ events) (hcomparable : Comparable (anchorsOf events) event.time) :
    ((∀ (i : ℕ) (episode : InterruptionEpisode),
        (segmentInterruptionEpisodes events operations qualitySamples)[i]? = some episode →
        event ∈ episode.events → ∃ anchor, (anchorsOf events)[i]? = some anchor ∧
          IsLatest (anchorsOf events) event.time anchor) ∧
      ((∀ episode ∈ segmentInterruptionEpisodes events operations qualitySamples,
          event ∉ episode.events) ↔
        ∀ anchor ∈ anchorsOf events, Precedes event.time anchor.time)) ↔
      EndsAtLatest (anchorsOf events) event.time := by
  rw [← latestAnchor_spec_iff hcomparable, forall_not_mem_segment_iff h hmem]
  refine and_congr_left fun _ =>
    ⟨fun hlatest index hfound => ?_, fun hlatest i episode hget hin => ?_⟩
  · exact hlatest index _ ((getElem?_segment h).mpr ⟨latestAnchorAtOrBefore_lt hfound, rfl⟩)
      (mem_ownEvents.mpr ⟨hmem, hfound⟩)
  · obtain ⟨-, rfl⟩ := (getElem?_segment h).mp hget
    exact hlatest i (mem_ownEvents.mp hin).2

/-- **A stage's event is preceded by none** exactly if what leads by monotonic
reading is. -/
theorem stage_cites_iff {domain : String} (hdomain : ∀ event ∈ events, ReadIn domain event)
    (index : ℕ) (stage : Stage) :
    (∀ first, firstOfStage (ownEvents events index) stage = some first →
        ∀ other ∈ ownEvents events index,
          other.named (stageNames (ownEvents events index) stage) = true →
          ¬ Precedes other.time first.time) ↔
      ∀ first, LeadsByMonotonic ((ownEvents events index).filter
          (Event.named (stageNames (ownEvents events index) stage))) first →
        ∀ other ∈ ownEvents events index,
          other.named (stageNames (ownEvents events index) stage) = true →
          other.time.monotonicTimeNano = none →
          ∀ wall ∈ first.time.sourceTimeUnixNano, ∀ wall' ∈ other.time.sourceTimeUnixNano,
            wall ≤ wall' := by
  have hread : ∀ event ∈ (ownEvents events index).filter
      (Event.named (stageNames (ownEvents events index) stage)), ReadIn domain event :=
    fun event hevent => hdomain event (mem_ownEvents.mp (List.mem_filter.mp hevent).1).1
  constructor
  · intro hall first hleads other hother hnamed hnone
    have hfirst := isFirstAt_of_leads hread hleads
    exact (first_unpreceded_iff hread hfirst).mp
      (fun other hother => hall first (head?_sortedBy.mpr hfirst) other
        (List.mem_filter.mp hother).1 (List.mem_filter.mp hother).2) hleads other
      (List.mem_filter.mpr ⟨hother, hnamed⟩) hnone
  · intro hall first hfirst other hother hnamed
    have hfirst := head?_sortedBy.mp hfirst
    exact (first_unpreceded_iff hread hfirst).mpr
      (fun hleads other hother => hall first hleads other (List.mem_filter.mp hother).1
        (List.mem_filter.mp hother).2) other (List.mem_filter.mpr ⟨hother, hnamed⟩)

/-- An interval is in the episode it overlaps alone, and is unattributable
where it overlaps two. -/
theorem interval_placed {α : Type*} (start stop : α → TimePoint) {items : List α} {item : α}
    (hmem : item ∈ items) (hstart : Comparable anchors (start item))
    (hstop : Comparable anchors (stop item)) (index : ℕ) :
    (item ∈ items.filter (fun item => decide (ownEpisode
        (memberships (start item) (stop item) anchors) = some index)) ↔
      OverlapsOnly anchors (start item) (stop item) index) ∧
    (item ∈ unattributableIntervals anchors start stop items ↔
      OverlapsTwo anchors (start item) (stop item)) := by
  constructor
  · rw [List.mem_filter, decide_eq_true_eq, ownEpisode_iff hstart hstop]
    exact and_iff_right hmem
  · rw [unattributableIntervals, List.mem_filter, unattributable_iff hstart hstop]
    exact and_iff_right hmem

/-- A stage that is cited by its first event cites it rightly, where no event
of the stage precedes that one. -/
theorem cites_of_citedBy {stage : Stage} {coordinate : Option ℕ × Option String × Option String}
    {cited : Cited} (hcoordinate : coordinate = stageCoordinate cited.point)
    (hcited : CitedBy episode stage cited)
    (hfirst : ∀ first, firstOfStage episode.events stage = some first →
      ∀ other ∈ episode.events, other.named (stageNames episode.events stage) = true →
        ¬ Precedes other.time first.time) : Cites episode stage coordinate cited := by
  refine ⟨hcoordinate, fun event heq => ?_, fun sample heq => ?_, fun operation heq => ?_⟩
  · subst heq
    cases hcited with
    | event h => exact ⟨(firstNamedEvent_mem h).1, (firstNamedEvent_mem h).2, hfirst event h⟩
  · subst heq
    cases hcited with
    | sample h => exact h
  · subst heq
    cases hcited with
    | operation h => exact h

/-- **The episodes divide a turn exactly if the wall readings do not turn the
order around**, for events of one clock domain that open two episodes or more. -/
theorem partitioned_iff (domain : String) (events : List Event) (operations : List Operation)
    (qualitySamples : List QualitySample) (hdomain : ∀ event ∈ events, ReadIn domain event)
    (hanchors : 2 ≤ (anchorsOf events).length) :
    Partitioned events operations qualitySamples ↔ InOrder events := by
  constructor
  · intro h
    refine ⟨fun event hmem hcomparable => (events_placed_iff hanchors hmem hcomparable).mp
      ⟨h.latest event hmem hcomparable, h.nowhere event hmem hcomparable⟩,
      fun index hobserves stage => (stage_cites_iff hdomain index stage).mp ?_⟩
    intro first hfirst other hother hnamed
    have hobserved := hobserves
    obtain ⟨trigger, htrigger, -⟩ := hobserved
    have hlt := latestAnchorAtOrBefore_lt (mem_ownEvents.mp htrigger).2
    have hepisode : episodeAt events operations qualitySamples index ∈
        segmentInterruptionEpisodes events operations qualitySamples :=
      (mem_segment hanchors).mpr ⟨index, hlt, rfl⟩
    obtain ⟨chain, hchain⟩ := exists_build (episodeAt events operations qualitySamples index) "" []
      hobserves
    have hstage : observedStage stage (.event first) none ∈ chain.stages := by
      rw [(stages_of_build hchain).2]
      exact mem_stages_of_first hfirst
    obtain ⟨own, hown, -, hcites⟩ :=
      h.stages "" [] chain (List.mem_filterMap.mpr ⟨_, hepisode, hchain⟩)
    obtain ⟨index', -, rfl⟩ := (mem_segment hanchors).mp hown
    obtain ⟨hcited, -, hleast⟩ := (hcites _ _ _ _ hstage).event first rfl
    -- the event cited is in one episode only, so this is the chain's own
    obtain rfl : index = index' := Option.some.inj
      ((mem_ownEvents.mp (firstNamedEvent_mem hfirst).1).2.symm.trans (mem_ownEvents.mp hcited).2)
    exact hleast other hother hnamed
  · intro h
    exact {
      once := fun i j episode other hne hi hj => disjoint_segment hanchors hne hi hj
      latest := fun event hmem hcomparable =>
        ((events_placed_iff hanchors hmem hcomparable).mpr (h.ends event hmem hcomparable)).1
      nowhere := fun event hmem hcomparable =>
        ((events_placed_iff hanchors hmem hcomparable).mpr (h.ends event hmem hcomparable)).2
      spans := by
        intro operation hmem hstart hstop i episode hepisode
        obtain ⟨-, rfl⟩ := (getElem?_segment hanchors).mp hepisode
        exact interval_placed Operation.startedAt Operation.stop hmem hstart hstop i
      windows := by
        intro sample hmem hstart hstop i episode hepisode
        obtain ⟨-, rfl⟩ := (getElem?_segment hanchors).mp hepisode
        exact interval_placed QualitySample.windowStart QualitySample.windowEnd hmem hstart hstop i
      stages := by
        intro turnId relations chain hmem
        obtain ⟨episode, hepisode, hchain⟩ := List.mem_filterMap.mp hmem
        refine ⟨episode, hepisode, hchain, fun stage coordinate cited outcome hmem => ?_⟩
        obtain ⟨hobserves, hstages⟩ := stages_of_build hchain
        rw [hstages] at hmem
        obtain ⟨hcoordinate, hcited⟩ := cited_of_mem_stages hmem
        obtain ⟨index, -, rfl⟩ := (mem_segment hanchors).mp hepisode
        refine cites_of_citedBy hcoordinate hcited fun first hfirst => ?_
        exact (stage_cites_iff hdomain index stage).mpr (h.leads index hobserves stage) first
          hfirst }

/-! ## A turn read by two clocks -/

/-- An event of a host's clocks. -/
def hostEvent (eventId eventName : String) (monotonic wall : Option ℕ) : Event where
  eventId := eventId
  eventName := eventName
  time := ⟨wall, none, monotonic, some "host", none, by simp⟩
  evidence := none
  synthetic := false

/-- Two overlaps, the second of them with a wall reading only, and a stop of
rendering that is after the second and before the first. -/
def crossedTurn : List Event :=
  [hostEvent "a1" "earshot.interruption.detected" (some 100) (some 1000),
    hostEvent "a2" "earshot.interruption.detected" none (some 500),
    hostEvent "e" "earshot.audio.render.stopped" none (some 700)]

theorem readIn_crossedTurn : ∀ event ∈ crossedTurn, ReadIn "host" event := by
  simp only [crossedTurn, List.forall_mem_cons, List.not_mem_nil, false_imp_iff, implies_true,
    and_true]
  exact ⟨⟨rfl, Or.inl rfl⟩, ⟨rfl, Or.inr rfl⟩, ⟨rfl, Or.inr rfl⟩⟩

theorem anchorsOf_crossedTurn : anchorsOf crossedTurn =
    [hostEvent "a1" "earshot.interruption.detected" (some 100) (some 1000),
      hostEvent "a2" "earshot.interruption.detected" none (some 500)] := by
  rfl

/-- The stop of rendering is in no episode, though it is after the second
overlap: the walk ends at the first. -/
theorem not_partitioned_crossedTurn : (∀ event ∈ crossedTurn, ReadIn "host" event) ∧
    2 ≤ (anchorsOf crossedTurn).length ∧ ¬ Partitioned crossedTurn [] [] := by
  have hanchors : 2 ≤ (anchorsOf crossedTurn).length := by
    rw [anchorsOf_crossedTurn]
    exact le_rfl
  refine ⟨readIn_crossedTurn, hanchors, fun h => ?_⟩
  have hmem : hostEvent "e" "earshot.audio.render.stopped" none (some 700) ∈ crossedTurn :=
    List.mem_cons_of_mem _ (List.mem_cons_of_mem _ List.mem_cons_self)
  have hcomparable : Comparable (anchorsOf crossedTurn)
      (hostEvent "e" "earshot.audio.render.stopped" none (some 700)).time := by
    rw [anchorsOf_crossedTurn]
    intro anchor hanchor
    rcases List.mem_cons.mp hanchor with rfl | hanchor
    · exact Or.inr (by decide)
    · obtain rfl := List.mem_singleton.mp hanchor
      exact Or.inl (by decide)
  have hnone : latestAnchorAtOrBefore (anchorsOf crossedTurn)
      (hostEvent "e" "earshot.audio.render.stopped" none (some 700)).time = none := by
    rw [anchorsOf_crossedTurn]
    decide
  have hprecedes := (h.nowhere _ hmem hcomparable).mp
    ((forall_not_mem_segment_iff hanchors hmem).mpr hnone)
    (hostEvent "a2" "earshot.interruption.detected" none (some 500)) (by
      rw [anchorsOf_crossedTurn]
      exact List.mem_cons_of_mem _ List.mem_cons_self)
  exact absurd hprecedes (by decide)

/-- The division of this turn, and its order. -/
theorem partitioned_crossedTurn_iff : Partitioned crossedTurn [] [] ↔ InOrder crossedTurn :=
  partitioned_iff "host" crossedTurn [] [] readIn_crossedTurn (by
    rw [anchorsOf_crossedTurn]
    exact le_rfl)

end Earshot.Analysis
