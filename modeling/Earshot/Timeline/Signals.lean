import Earshot.Timeline.Gap
/-!
# Signals

What a timeline's two channels say together: each channel's runs coalesced
first, then overlaps by a sweep over both, barge-ins and talk-overs by a probe
into the other channel's starts, and silences between the groups of both.
-/

namespace Earshot.CallTimeline

open Bisect

def MIN_OVERLAP_MS : ℤ := 120

def EDGE_GUARD_MS : ℤ := 100

def BACKCHANNEL_MAX_MS : ℤ := 600

def YIELD_WINDOW_MS : ℤ := 1500

def LONG_SILENCE_MS : ℤ := 2000

def DEAD_AIR_RESPONSE_MS : ℤ := 2000

def DEAD_AIR_IN_TURN_MS : ℤ := 3000

structure Signals where
  talkTimeUserMs : ℤ
  talkTimeAgentMs : ℤ
  overlapMs : ℤ
  bargeInCount : ℕ
  talkOverCount : ℕ
  longSilenceCount : ℕ
  deadAirMs : ℤ

def talkTime (runs : List Run) : ℤ := (runs.map fun run => run.endMs - run.startMs).sum

/-! ## Coalescing -/

/-- One run of `_coalesce`; the last result is first. -/
def coalesceStep : List Run → Run → List Run
  | [], run => [run]
  | previous :: result, run =>
      if previous.endMs < run.startMs then run :: previous :: result
      else if previous.endMs < run.endMs then
        ⟨previous.startMs, run.endMs, previous.startSigmaMs, run.endSigmaMs⟩ :: result
      else previous :: result

def Run.sortKey (run : Run) : ℤ ×ₗ ℤ := toLex (run.startMs, run.endMs)

/-- `_coalesce`: sorted maximal speech runs of one speaker. -/
def coalesce (runs : List Run) : List Run :=
  ((sortedBy Run.sortKey runs).foldl coalesceStep []).reverse

/-! ## Groups -/

inductive Channel where
  | user
  | agent
  deriving DecidableEq

/-- A run of one of the channels. -/
structure Event where
  start : ℤ
  stop : ℤ
  speaker : Channel

/-- Activity of either channel, who spoke last in it and whether an agent
run begins it. -/
structure Group where
  start : ℤ
  stop : ℤ
  last : Channel
  agentAtStart : Bool

def Event.sortKey (event : Event) : ℤ ×ₗ ℤ ×ₗ ℕ :=
  toLex (event.start, toLex (event.stop, if event.speaker = .user then 0 else 1))

def events (user agent : List Run) : List Event :=
  user.map (fun run => ⟨run.startMs, run.endMs, .user⟩) ++
    agent.map fun run => ⟨run.startMs, run.endMs, .agent⟩

/-- An event that a group takes in. -/
def Group.absorb (group : Group) (event : Event) : Group :=
  let group := if event.start = group.start ∧ event.speaker = .agent then
    { group with agentAtStart := true } else group
  if group.stop < event.stop then { group with stop := event.stop, last := event.speaker }
  else if event.stop = group.stop ∧ event.speaker = .user ∧ group.last = .agent then
    { group with last := .user }
  else group

/-- One event of `_speech_groups`; the last group is first. -/
def groupStep : List Group → Event → List Group
  | [], event => [⟨event.start, event.stop, event.speaker, event.speaker = .agent⟩]
  | group :: groups, event =>
      if group.stop < event.start then
        ⟨event.start, event.stop, event.speaker, event.speaker = .agent⟩ :: group :: groups
      else group.absorb event :: groups

/-- `_speech_groups` -/
def speechGroups (user agent : List Run) : List Group :=
  ((sortedBy Event.sortKey (events user agent)).foldl groupStep []).reverse

/-- `itertools.pairwise` -/
def pairwise {α : Type*} (l : List α) : List (α × α) := l.zip l.tail

/-! ## The signals -/

/-- What two runs count as overlap. -/
def overlapOf (u a : Run) : ℤ :=
  let both := min u.endMs a.endMs - max u.startMs a.startMs
  if MIN_OVERLAP_MS ≤ both then both else 0

/-- The sweep over both channels: the run that ends first is left, and both
when they end together. -/
def overlap : List Run → List Run → ℤ
  | u :: user, a :: agent =>
      overlapOf u a +
        if u.endMs < a.endMs then overlap user (a :: agent)
        else if a.endMs < u.endMs then overlap (u :: user) agent
        else overlap user agent
  | _, _ => 0
  termination_by user agent => user.length + agent.length

def backchannel (u a : Run) : Bool :=
  u.endMs - u.startMs < BACKCHANNEL_MAX_MS && u.startMs + YIELD_WINDOW_MS < a.endMs

/-- A user run that starts inside the agent's and is not a backchannel. -/
def bargesIn (u a : Run) : Bool :=
  a.startMs + EDGE_GUARD_MS < u.startMs && u.startMs < a.endMs && !backchannel u a

/-- An agent run that starts inside the user's. -/
def talksOver (u a : Run) : Bool :=
  u.startMs + EDGE_GUARD_MS < a.startMs && a.startMs < u.endMs

/-- The last of sorted runs that starts by a time. -/
def startedBy (runs : List Run) (time : ℤ) : Option Run :=
  before? runs (bisectRight (runs.map Run.startMs) time)

def silence (gap : Group × Group) : ℤ := gap.2.start - gap.1.stop

/-- The silence is the agent's: after the user, or between two runs of its
own. -/
def agentOwns (gap : Group × Group) : Bool :=
  (gap.1.last = .user && gap.2.agentAtStart && DEAD_AIR_RESPONSE_MS ≤ silence gap) ||
    (gap.1.last = .agent && gap.2.agentAtStart && DEAD_AIR_IN_TURN_MS ≤ silence gap)

/-- The silence before an agent-first call's first run, if long. -/
def preGreeting (user agent : List Run) : ℤ :=
  match ((user ++ agent).map Run.startMs).min? with
  | none => 0
  | some firstStart =>
      if (agent.any (·.startMs = firstStart)) && !(user.any (·.startMs = firstStart)) &&
          DEAD_AIR_RESPONSE_MS ≤ firstStart then firstStart
      else 0

/-- **`signals`** -/
def signals (t : Timeline) : Signals :=
  let user := coalesce t.userRuns
  let agent := coalesce t.agentRuns
  let gaps := pairwise (speechGroups user agent)
  { talkTimeUserMs := talkTime user
    talkTimeAgentMs := talkTime agent
    overlapMs := overlap user agent
    bargeInCount := user.countP fun u => (startedBy agent u.startMs).any (bargesIn u)
    talkOverCount := agent.countP fun a => (startedBy user a.startMs).any (talksOver · a)
    longSilenceCount := gaps.countP fun gap => LONG_SILENCE_MS ≤ silence gap
    deadAirMs := ((gaps.filter agentOwns).map silence).sum + preGreeting user agent }

end Earshot.CallTimeline
