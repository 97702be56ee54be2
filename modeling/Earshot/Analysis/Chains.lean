import Earshot.Analysis.Episodes
/-!
# Interruption chains

An episode that observed an interruption gives a chain of stages. A stage
cites the record it was observed in, with that record's reading, or says why
it was not observed.
-/

namespace Earshot.Analysis

open Clocks Bisect

/-! ## The names a stage is observed by -/

inductive Stage where
  | overlapObserved
  | intent
  | classified
  | cancellationRequested
  | generationStopped
  | queuedAudioDiscarded
  | transportStopped
  | buffersPurged
  | renderStopped
  | resumed
  | toolOutcome
  deriving DecidableEq

def MODEL_CANCELLED_EVENT_NAME : String := "earshot.model.cancelled"

def CANCELLATION_REQUESTED_EVENT_NAMES : List String :=
  [(MODEL_CANCELLED_EVENT_NAME), "earshot.interruption.cancellation_requested"]

def GENERATION_STOPPED_EVENT_NAMES : List String := ["earshot.response.cancelled"]

def QUEUED_AUDIO_DISCARDED_EVENT_NAMES : List String := ["earshot.audio.queued.discarded"]

def TRANSPORT_STOPPED_EVENT_NAMES : List String :=
  ["earshot.transport.stopped", "earshot.audio.send.stopped"]

def BUFFERS_PURGED_EVENT_NAMES : List String := ["earshot.audio.buffer.purged"]

def RENDER_STOPPED_EVENT_NAMES : List String := ["earshot.audio.render.stopped"]

def RESUMED_EVENT_NAMES : List String := ["earshot.interruption.resumed"]

def INTERRUPTION_PROBABILITY_MEASUREMENT : String := "earshot.metric.interruption.probability"

def INTERRUPTION_RESUMED_MEASUREMENT : String := "earshot.metric.interruption.resumed"

def INTERRUPTION_TOOL_RELATIONSHIPS : List String :=
  ["cancelled_by", "canceled_by", "interrupted_by", "aborted_by", "preempted_by"]

/-! ## Finding a record -/

/-- `_first_named_event` -/
def firstNamedEvent (events : List Event) (names : List String) : Option Event :=
  (sortedBy Event.presentationKey (events.filter (Event.named names))).head?

/-- The sample has the measurement, and it is `True` where it is to be. -/
def QualitySample.has (measurementName : String) (requireTrue : Bool) (sample : QualitySample) :
    Bool :=
  sample.measurements.any fun measurement =>
    decide (measurement.name = measurementName) && (!requireTrue || measurement.isTrue)

/-- `_first_measurement_sample` -/
def firstMeasurementSample (samples : List QualitySample) (measurementName : String)
    (requireTrue : Bool) : Option QualitySample :=
  (sortedBy QualitySample.sampleId samples).find? (QualitySample.has measurementName requireTrue)

/-! ## Stages -/

/-- Why a stage is not observed. -/
inductive CoverageReason where
  | stageNotObserved
  | sampleNotAttributableToEpisode
  | toolNotAttributableToEpisode
  | noToolInEpisode
  | noToolInTurn
  | noToolAfterInterruption
  | noCausallyLinkedTool
  deriving DecidableEq

/-- The record a stage is observed in; the stage is written with its id. -/
inductive Cited where
  | event (event : Event)
  | sample (sample : QualitySample)
  | operation (operation : Operation)

def Cited.evidenceId : Cited → String
  | .event found => found.eventId
  | .sample found => found.sampleId
  | .operation found => found.operationId

/-- Where the record is read. -/
def Cited.point : Cited → TimePoint
  | .event found => found.time
  | .sample found => found.windowStart
  | .operation found => found.startedAt

/-- `_stage_coordinate` -/
def stageCoordinate (point : TimePoint) : Option ℕ × Option String × Option String :=
  match point.monotonicTimeNano, point.sourceTimeUnixNano, point.observedTimeUnixNano with
  | some value, _, _ => (some value, point.clockDomainId, some "monotonic")
  | none, some value, _ => (some value, point.clockDomainId, some "source_wall")
  | none, none, some value => (some value, point.clockDomainId, some "observed_wall")
  | none, none, none => (none, point.clockDomainId, none)

inductive StageRecord where
  | observed (stage : Stage) (coordinate : Option ℕ × Option String × Option String)
      (cited : Cited) (outcome : Option String)
  | unobserved (stage : Stage) (reason : CoverageReason)

/-- `_observed_stage` -/
def observedStage (stage : Stage) (cited : Cited) (outcome : Option String) : StageRecord :=
  .observed stage (stageCoordinate cited.point) cited outcome

/-- `_event_stage` -/
def eventStage (stage : Stage) : Option Event → StageRecord
  | none => .unobserved stage .stageNotObserved
  | some event => observedStage stage (.event event) none

variable (episode : InterruptionEpisode)

/-- `_sample_absence_reason` -/
def sampleAbsenceReason (measurementName : String) (requireTrue : Bool) : CoverageReason :=
  if (firstMeasurementSample episode.unattributableQualitySamples measurementName
      requireTrue).isSome then .sampleNotAttributableToEpisode
  else .stageNotObserved

/-! ## The outcome of a tool -/

/-- `_tool_linked_to_interruption` -/
def toolLinkedToInterruption (tool : Operation) : Bool :=
  tool.links.any fun link =>
    INTERRUPTION_TOOL_RELATIONSHIPS.any (fun name => decide (link.relationship = name)) &&
      ((link.targetOperationId.isSome && episode.operations.any fun operation =>
          decide (some operation.operationId = link.targetOperationId)) ||
        (link.traceId.isSome && link.spanId.isSome && episode.operations.any fun operation =>
          decide (operation.traceId = link.traceId ∧ operation.spanId = link.spanId)))

/-- `_tools` -/
def toolsOf (operations : List Operation) : List Operation :=
  sortedBy (fun operation : Operation =>
      presentationKey operation.startedAt operation.operationId)
    (operations.filter fun operation => decide (operation.operationName = "tool"))

/-- The tool did not end before the overlap, as far as the two compare. -/
def stillActive (overlapEvent : Option Event) (tool : Operation) : Bool :=
  overlapEvent.all fun overlap => !decide (pointAtOrAfter tool.stop overlap.time = some false)

/-- `_tool_outcome_stage` -/
def toolOutcomeStage (overlapEvent : Option Event) : StageRecord :=
  let tools := toolsOf episode.operations
  if tools.isEmpty then
    .unobserved .toolOutcome
      (if !(toolsOf episode.unattributableOperations).isEmpty then .toolNotAttributableToEpisode
      else if !(toolsOf episode.turnOperations).isEmpty then .noToolInEpisode
      else .noToolInTurn)
  else
    let temporallyEligible := tools.filter (stillActive overlapEvent)
    if temporallyEligible.isEmpty then .unobserved .toolOutcome .noToolAfterInterruption
    else
      match temporallyEligible.filter (toolLinkedToInterruption episode) with
      | [] => .unobserved .toolOutcome .noCausallyLinkedTool
      | chosen :: _ => observedStage .toolOutcome (.operation chosen) (some chosen.status)

/-! ## Effectiveness -/

/-- The ranks of confidence, the surest first. -/
inductive ConfidenceRank where
  | measured
  | estimated
  | inferred
  | unavailable
  deriving DecidableEq

/-- A confidence that has no rank is unavailable. -/
def ConfidenceRank.of (confidence : String) : ConfidenceRank :=
  if confidence = "measured" then .measured
  else if confidence = "estimated" then .estimated
  else if confidence = "inferred" then .inferred
  else .unavailable

def ConfidenceRank.ofDelta : Confidence → ConfidenceRank
  | .measured => .measured
  | .estimated => .estimated
  | .unavailable => .unavailable

def ConfidenceRank.rank : ConfidenceRank → ℕ
  | .measured => 0
  | .estimated => 1
  | .inferred => 2
  | .unavailable => 3

/-- The less sure of two. -/
def ConfidenceRank.worse (a b : ConfidenceRank) : ConfidenceRank :=
  if a.rank < b.rank then b else a

/-- A boundary's own confidence. -/
def Event.confidence (event : Event) : ConfidenceRank :=
  match event.evidence with
  | none => .unavailable
  | some evidence =>
      if evidence.availability = "available" then .of evidence.confidence else .unavailable

inductive LatencyMetric where
  | turnAnchorNotObserved
  | targetSignalNotObserved (evidenceId : String)
  | compared (delta : Delta) (confidence : ConfidenceRank) (evidenceIds : List String)

/-- `_latency_metric`, with the calibrations of the aligner. -/
def latencyMetric (relations : List ClockRelation) : Option Event → Option Event → LatencyMetric
  | none, _ => .turnAnchorNotObserved
  | some anchor, none => .targetSignalNotObserved anchor.eventId
  | some anchor, some target =>
      let delta := comparableDelta relations anchor.time target.time
      let boundaries := [anchor, target].flatMap fun boundary =>
        (if boundary.synthetic then [ConfidenceRank.estimated] else []) ++ [boundary.confidence]
      .compared delta (boundaries.foldl ConfidenceRank.worse (.ofDelta delta.confidence))
        [anchor.eventId, target.eventId]

/-! ## Chains -/

inductive Classification where
  | accepted
  | falseInterruption
  | ignored
  | unknown
  deriving DecidableEq

structure InterruptionChain where
  turnId : String
  classification : Classification
  stages : List StageRecord
  effectiveness : LatencyMetric

/-- The stage that a sample is read for. -/
def sampleStage (stage : Stage) (measurementName : String) (requireTrue : Bool) : StageRecord :=
  match firstMeasurementSample episode.qualitySamples measurementName requireTrue with
  | some sample => observedStage stage (.sample sample) none
  | none => .unobserved stage (sampleAbsenceReason episode measurementName requireTrue)

/-- Where generation stopped: a model cancel is read as the effective stop too. -/
def generationStoppedEvent (events : List Event) : Option Event :=
  match firstNamedEvent events GENERATION_STOPPED_EVENT_NAMES with
  | some event => some event
  | none => firstNamedEvent events [(MODEL_CANCELLED_EVENT_NAME)]

/-- An event resumes, or else a sample says so. -/
def resumedStage : StageRecord :=
  match firstNamedEvent episode.events RESUMED_EVENT_NAMES with
  | some event => eventStage .resumed (some event)
  | none => sampleStage episode .resumed INTERRUPTION_RESUMED_MEASUREMENT true

/-- `_build_interruption_chain` -/
def buildInterruptionChain (turnId : String) (relations : List ClockRelation) :
    Option InterruptionChain :=
  let events := episode.events
  let overlapEvent := firstNamedEvent events OVERLAP_EVENT_NAMES
  let classifiedEvent := firstNamedEvent events CLASSIFIED_EVENT_NAMES
  if overlapEvent.isNone && classifiedEvent.isNone then none
  else
    let classification :=
      if (firstNamedEvent events [ACCEPTED_EVENT_NAME]).isSome then Classification.accepted
      else if overlapEvent.isSome then .falseInterruption
      else if (firstNamedEvent events [IGNORED_EVENT_NAME]).isSome then .ignored
      else .unknown
    let renderStoppedEvent := firstNamedEvent events RENDER_STOPPED_EVENT_NAMES
    some
      { turnId
        classification
        stages :=
          [eventStage .overlapObserved overlapEvent,
            sampleStage episode .intent INTERRUPTION_PROBABILITY_MEASUREMENT false,
            eventStage .classified classifiedEvent,
            eventStage .cancellationRequested
              (firstNamedEvent events CANCELLATION_REQUESTED_EVENT_NAMES),
            eventStage .generationStopped (generationStoppedEvent events),
            eventStage .queuedAudioDiscarded
              (firstNamedEvent events QUEUED_AUDIO_DISCARDED_EVENT_NAMES),
            eventStage .transportStopped (firstNamedEvent events TRANSPORT_STOPPED_EVENT_NAMES),
            eventStage .buffersPurged (firstNamedEvent events BUFFERS_PURGED_EVENT_NAMES),
            eventStage .renderStopped renderStoppedEvent,
            resumedStage episode,
            toolOutcomeStage episode overlapEvent]
        effectiveness := latencyMetric relations overlapEvent renderStoppedEvent }

/-- `_interruption_chains` -/
def interruptionChains (turnId : String) (operations : List Operation) (events : List Event)
    (qualitySamples : List QualitySample) (relations : List ClockRelation) :
    List InterruptionChain :=
  (segmentInterruptionEpisodes events operations qualitySamples).filterMap fun episode =>
    buildInterruptionChain episode turnId relations

end Earshot.Analysis
