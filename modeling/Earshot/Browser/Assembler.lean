import Earshot.Browser.Recorder
/-!
# Assembling a journal

The assembler replays a journal into the lists the recorder held, derives
the omission counters by adding them up again, and where there is a
finalize entry compares both with the totals it carries. A disagreement is
an error unless the caller asked for best effort.

Building the profile from what was replayed is outside the model.
-/

namespace Earshot

/-- `_ReplayState` -/
structure Replay where
  adapters : ℕ
  clockDomains : ℕ
  coverage : List Coverage
  events : List Fact
  qualitySamples : List Fact
  omissions : List Omission
  limits : LimitTotals
  deriving DecidableEq

namespace Replay

def empty : Replay := ⟨0, 0, [], [], [], [], .zero⟩

/-- One journaled mutation, the omission counters added by `add`; `none`
when it supersedes what was never admitted. -/
def applyWith (add : ℕ → ℕ → ℕ) (state : Replay) : JournalEntry → Option Replay
  | .opened | .finalize _ => some state
  | .adapter => some { state with adapters := state.adapters + 1 }
  | .clockDomain => some { state with clockDomains := state.clockDomains + 1 }
  | .coverage c none => some { state with coverage := state.coverage ++ [c] }
  | .coverage c (some index) =>
      if index < state.coverage.length then
        some { state with coverage := state.coverage.set index c }
      else none
  | .fact f =>
      some { state with
        events := if f.kind = FactKind.event then state.events ++ [f] else state.events
        qualitySamples :=
          if f.kind = FactKind.event then state.qualitySamples else state.qualitySamples ++ [f]
        omissions := state.omissions ++ f.omissions }
  | .limit e => some { state with limits := state.limits.note add e }

/-- The assembler's counters are never saturated. -/
def apply (state : Replay) (entry : JournalEntry) : Option Replay := state.applyWith (· + ·) entry

def counts (state : Replay) : RecordCounts where
  adapters := state.adapters
  clockDomains := state.clockDomains
  coverage := state.coverage.length
  events := state.events.length
  qualitySamples := state.qualitySamples.length
  omissions := state.omissions.length

/-- Mutations in order, up to a finalize entry. -/
def applyAll (state : Replay) : List JournalEntry → Option Replay
  | [] => some state
  | .finalize _ :: _ => some state
  | entry :: entries => (state.apply entry).bind fun state => state.applyAll entries

/-- `_cross_check` -/
def crossCheck (state : Replay) (finalize : JournalFinalize) : Bool :=
  state.limits ≠ finalize.limits || state.counts ≠ finalize.counts

end Replay

/-- The first finalize entry. -/
def finalizeOf : List JournalEntry → Option JournalFinalize
  | [] => none
  | .finalize totals :: _ => some totals
  | _ :: entries => finalizeOf entries

inductive AssemblyError where
  | noHeader
  | trailingBytes
  | neverAdmitted
  | counterMismatch
  deriving DecidableEq

/-- What was assembled, and what the report says of it. -/
structure AssemblyResult where
  state : Replay
  closeObserved : Bool
  counterMismatch : Bool
  tornTailBytes : ℕ
  deriving DecidableEq

/-- `assemble_incident`, of the entries a reader read and the bytes it could
not. -/
def assembleIncident (entries : List JournalEntry) (tornTailBytes : ℕ) (bestEffort : Bool) :
    Except AssemblyError AssemblyResult :=
  if entries.head? ≠ some .opened then .error .noHeader
  else if (finalizeOf entries).isSome ∧ 0 < tornTailBytes then .error .trailingBytes
  else
    match Replay.empty.applyAll entries with
    | none => .error .neverAdmitted
    | some state =>
        let counterMismatch := (finalizeOf entries).any state.crossCheck
        if counterMismatch ∧ !bestEffort then .error .counterMismatch
        else .ok ⟨state, (finalizeOf entries).isSome, counterMismatch, tornTailBytes⟩

/-- Coverage supersedes where it can, and is appended where it cannot. -/
def replayCoverageEntry (coverage : List Coverage) : JournalEntry → List Coverage
  | .coverage c (some index) =>
      if index < coverage.length then coverage.set index c else coverage ++ [c]
  | .coverage c none => coverage ++ [c]
  | _ => coverage

/-- `replay_coverage_from_entries` -/
def replayCoverage (entries : List JournalEntry) : List Coverage :=
  entries.foldl replayCoverageEntry []

/-- The facts of a journal. -/
def factsOf (entries : List JournalEntry) : List Fact :=
  entries.filterMap fun entry =>
    match entry with
    | .fact f => some f
    | _ => none

/-- `max_fact_sequence_from_entries` -/
def maxFactSequence (entries : List JournalEntry) : ℕ :=
  (factsOf entries).foldl (fun highest f => max highest f.sequence) 0

end Earshot
