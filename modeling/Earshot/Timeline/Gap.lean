import Mathlib.Data.Nat.Sqrt
import Mathlib.Order.WithBot
import Earshot.Clocks.Aligner
import Earshot.Common.Bisect
/-!
# The audible gap at the agent

A recorder timeline holds the speech runs of its user and its agent, in
milliseconds. A turn's gap is read off it with probes into the runs sorted by
start and by end: the agent run nearest to where the agent's audio starts, and
the user run that ended before it.

Every operation on floats rounds its exact result by `fl`, which may be any
function. A square root is of a sum of squares of integers, and is compared
and rounded as the number it is.
-/

namespace Earshot.CallTimeline

open Bisect

def ZERO_RUN_ANCHOR_MS : ℤ := 50

def ANCHOR_SEARCH_MS : ℚ := 1500

def PAIRING_WINDOW_MS : ℚ := 1000

def DISCONTINUITY_STEP_MS : ℚ := 150

def MAX_MEASURABLE_GAP_UNCERTAINTY_MS : ℕ := 100

/-! ## Timelines -/

/-- A speech run, with each boundary's sigma. -/
structure Run where
  startMs : ℤ
  endMs : ℤ
  startSigmaMs : ℤ
  endSigmaMs : ℤ
  deriving DecidableEq

structure Timeline where
  startedAtUnixNano : ℤ
  durationMs : Option ℤ
  userRuns : List Run
  agentRuns : List Run
  /-- Exact-zero runs on the agent channel, start and end. -/
  agentZeroRuns : List (ℤ × ℤ)
  /-- The recorder only inserts time and zero-pads the agent. -/
  insertOnly : Bool

/-- `(end_ms, start_ms)`, and a pair that is after every run's of its end. -/
def Run.endKey (r : Run) : ℤ ×ₗ WithTop ℤ := toLex (r.endMs, (r.startMs : WithTop ℤ))

namespace Timeline

variable (t : Timeline)

def userRunsByStart : List Run := sortedBy Run.startMs t.userRuns

def userStarts : List ℤ := t.userRunsByStart.map Run.startMs

def agentRunsByStart : List Run := sortedBy Run.startMs t.agentRuns

def agentStarts : List ℤ := t.agentRunsByStart.map Run.startMs

def agentZeroEdges : List ℤ :=
  sortedBy id ((t.agentZeroRuns.filter fun zero =>
    ZERO_RUN_ANCHOR_MS ≤ zero.2 - zero.1 && t.durationMs.all (zero.2 < ·)).map Prod.snd)

def userRunsByEnd : List Run := sortedBy Run.endKey t.userRuns

def userEndKeys : List (ℤ ×ₗ WithTop ℤ) := t.userRunsByEnd.map Run.endKey

def naiveMs (fl : ℚ → ℚ) (unixNano : ℤ) : ℚ := fl ((unixNano - t.startedAtUnixNano : ℤ) / 1000000)

end Timeline

/-- A turn's anchors on the span clock. -/
structure TurnAnchorsMs where
  userOnUnixNano : List ℤ
  userOffUnixNano : Option ℤ
  agentOnUnixNano : Option ℤ

/-! ## Gaps -/

inductive GapStatus where
  | measured
  | talkOver
  | notMeasurable
  deriving DecidableEq

inductive GapReason where
  | noAgentAudio
  | noClearPairing
  | recorderTimelineDiscontinuity
  | boundaryUncertaintyTooHigh
  deriving DecidableEq

inductive GapBasis where
  | anchorsChecked
  | continuousTimelineAssumed
  deriving DecidableEq

structure Gap where
  status : GapStatus
  valueMs : Option ℤ := none
  uncertaintyMs : Option ℕ := none
  boundMs : Option ℤ := none
  userEndMs : Option ℤ := none
  agentStartMs : Option ℤ := none
  reason : Option GapReason := none
  basis : Option GapBasis := none
  /-- Timeline time minus naive-mapped span time. -/
  offsetMs : ℚ := 0
  agentRun : Option Run := none
  deriving DecidableEq

def notMeasurable (reason : GapReason) : Gap := { status := .notMeasurable, reason := some reason }

/-- The square of `_uncertainty`. -/
def uncertaintySq (user agent : Run) : ℕ :=
  user.endSigmaMs.natAbs ^ 2 + agent.startSigmaMs.natAbs ^ 2

/-- `round(math.sqrt(n))`: a root is never halfway between integers. -/
def roundSqrt (n : ℕ) : ℕ := if n.sqrt * n.sqrt + n.sqrt < n then n.sqrt + 1 else n.sqrt

/-! ## Probes -/

/-- `_nearest`; `fl` rounds the subtraction, and is the identity where the
target is an integer. -/
def nearestPoint (fl : ℚ → ℚ) (points : List ℤ) (target window : ℚ) : Option ℤ :=
  (nearest (fun point : ℤ => |fl (point - target)|) points
    (bisectLeft (points.map fun point : ℤ => (point : ℚ)) target)).filter fun best =>
      |fl (best - target)| ≤ window

/-- `_nearest_run`, at an integer. -/
def nearestRun (runs : List Run) (starts : List ℤ) (target : ℤ) (window : ℚ) : Option Run :=
  (nearestPoint id starts target window).bind fun start => runs[bisectLeft starts start]?

variable (fl : ℚ → ℚ) (t : Timeline) (anchors : TurnAnchorsMs)

/-- `_audio_agent_on`: where the agent's audio starts near a mapped A-on, and
whether a zero-run edge anchors it there. -/
def audioAgentOn (naiveAgentOn : ℚ) : Option ℤ × Bool :=
  if t.insertOnly then
    match nearestPoint fl t.agentZeroEdges naiveAgentOn ANCHOR_SEARCH_MS with
    | some edge => (some edge, true)
    | none => (nearestPoint fl t.agentStarts naiveAgentOn ANCHOR_SEARCH_MS, false)
  else (some (Binary64.roundHalfEven naiveAgentOn), false)

/-- `_user_on_offsets` -/
def userOnOffsets : List ℚ :=
  anchors.userOnUnixNano.filterMap fun userOn =>
    (nearestPoint fl t.userStarts (t.naiveMs fl userOn) ANCHOR_SEARCH_MS).map fun onset =>
      fl (onset - t.naiveMs fl userOn)

/-- `statistics.median`, or zero of nothing. -/
def median (offsets : List ℚ) : ℚ :=
  let data := sortedBy id offsets
  if data.length = 0 then 0
  else if data.length % 2 = 1 then data.getD (data.length / 2) 0
  else fl (fl (data.getD (data.length / 2 - 1) 0 + data.getD (data.length / 2) 0) / 2)

/-- The user run probed for a talk-over: the last by start that starts no
later than the agent's run. -/
def probedUser (agent : Run) : Option Run :=
  before? t.userRunsByStart (bisectRight t.userStarts agent.startMs)

/-- A run is going on, strictly inside, at a time. -/
def Run.activeAt (r : Run) (time : ℤ) : Bool := r.startMs < time && time < r.endMs

/-- The user run paired with an agent run: the last that ended by its start,
unless an agent run starts in between. -/
def pairedUser (agent : Run) : Option Run :=
  (before? t.userRunsByEnd (bisectRight t.userEndKeys (toLex (agent.startMs, ⊤)))).filter
    fun user => !(bisectRight t.agentStarts user.endMs < bisectLeft t.agentStarts agent.startMs)

/-- The gap between a user run and the agent run paired with it. -/
def measure (offsets : List ℚ) (oA : ℚ) (anchored : Bool) (user agent : Run) : Gap :=
  let offUser := (if anchored then anchors.userOffUnixNano else none).map fun userOff =>
    fl (user.endMs - t.naiveMs fl userOff)
  let gap : Gap :=
    { status := .notMeasurable
      uncertaintyMs := some (roundSqrt (uncertaintySq user agent))
      userEndMs := some user.endMs
      agentStartMs := some agent.startMs
      basis := some (if offUser.isSome then .anchorsChecked else .continuousTimelineAssumed)
      offsetMs := median fl (offsets ++ offUser.toList)
      agentRun := some agent }
  if offUser.any fun oU => DISCONTINUITY_STEP_MS < |fl (oA - oU)| then
    { gap with
      boundMs := some (agent.startMs - user.endMs)
      reason := some .recorderTimelineDiscontinuity }
  else if MAX_MEASURABLE_GAP_UNCERTAINTY_MS ^ 2 < uncertaintySq user agent then
    { gap with reason := some .boundaryUncertaintyTooHigh }
  else { gap with status := .measured, valueMs := some (agent.startMs - user.endMs) }

/-- The gap of a turn whose audio A-on and agent run are known. -/
def gapAt (naiveOn : ℚ) (audioOn : ℤ) (anchored : Bool) (agent : Run) : Gap :=
  let oA := fl (audioOn - naiveOn)
  let offsets := if t.insertOnly then userOnOffsets fl t anchors ++ [oA] else []
  let gap : Gap :=
    { status := .talkOver
      agentStartMs := some agent.startMs
      offsetMs := median fl offsets
      agentRun := some agent }
  if (probedUser t agent).any (·.activeAt agent.startMs) then gap
  else
    match pairedUser t agent with
    | none => { gap with status := .notMeasurable, reason := some .noClearPairing }
    | some user => measure fl t anchors offsets oA anchored user agent

/-- **`audible_gap`**: one turn's audible gap at the agent. -/
def audibleGap : Gap :=
  match anchors.agentOnUnixNano with
  | none => notMeasurable .noAgentAudio
  | some agentOn =>
      match audioAgentOn fl t (t.naiveMs fl agentOn) with
      | (none, _) => notMeasurable .noAgentAudio
      | (some audioOn, anchored) =>
          match nearestRun t.agentRunsByStart t.agentStarts audioOn PAIRING_WINDOW_MS with
          | none => notMeasurable .noAgentAudio
          | some agent => gapAt fl t anchors (t.naiveMs fl agentOn) audioOn anchored agent

end Earshot.CallTimeline
