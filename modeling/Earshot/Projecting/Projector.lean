import Earshot.Costs.Prices
/-!
# The projections of calls

`CallProjector`: a pass reads a call in one snapshot, computes its projection
outside every lock, and writes it only if the call and its stored projection
are still what the snapshot read. Passes of any number of projectors interleave
with the calls' changes, with new prices and with deletions; each transaction is
a step of its own.

What a projection shows besides its costs is computed from what
`read_call_source` reads, and may be any function of it.
-/

namespace Earshot.Projecting

open Relational Costs

def CALL_PROJECTION_VERSION : ℕ := 10

/-- `Integer` on Postgres. -/
def INT32_MAX : ℕ := 2147483647

/-- The columns that the prices decide. -/
structure CostColumns where
  costLowerBoundNanoUsd : Option ℤ
  costEstimatedNanoUsd : Option ℤ
  costUnknownItems : ℕ
  deriving DecidableEq

/-- `cost_columns` -/
def costColumns (cost : CallCost) : CostColumns :=
  ⟨cost.lowerBoundNanoUsd, cost.estimatedNanoUsd, cost.unknownItems⟩

/-- `summary` is the other columns, the tags and the transcript lines, and
`detail` is the detail without its `cost_items`. -/
structure Projection (φ ψ : Type) where
  summary : φ
  columns : CostColumns
  usage : List UsageEntry
  detail : ψ
  costItems : List CostItem
  deriving DecidableEq

/-- What an `input_digest` is taken of. -/
inductive Digested (φ ψ δ : Type) where
  | projection (p : Projection φ ψ)
  /-- A reprice: the stored digest, and what was priced. -/
  | repriced (stored : Option δ) (columns : CostColumns) (items : List CostItem)

/-- The computations of a release. -/
structure Engine (σ φ ψ δ : Type) where
  lower : String → String
  spelled : ℚ → Option ℚ
  summary : σ → φ
  usage : σ → List UsageEntry
  detail : σ → ψ
  /-- `check_bounds`, of all but the cost columns. -/
  fits : φ → Bool
  sha256 : Digested φ ψ δ → δ

/-- A row of `calls`, by its project and its ID. `source` is what
`read_call_source` reads of it now, and `earlier` what it read before, since
`projection_seq` last moved. -/
structure ProjectedCall (σ : Type) where
  key : String × String
  projectionSeq : ℕ
  latestRevision : Option ℕ
  firstEvidenceUnixNano : ℤ
  source : σ
  earlier : List σ

/-- A row of `call_projections`, with its tags and lines; `versions` is its
`price_version` and its `builtin_price_version`. -/
structure ProjectionRow (φ ψ δ : Type) where
  key : String × String
  sourceSeq : ℕ
  versions : ℕ × ℕ
  projectionVersion : ℕ
  inputDigest : δ
  projection : Projection φ ψ

/-- What a snapshot has to compute from: its `kind`. -/
inductive Reading (σ ψ : Type) where
  | full (source : σ)
  /-- Only prices moved: the stored usage and detail. -/
  | reprice (usage : List UsageEntry) (detail : ψ)

structure Snapshot (σ ψ δ : Type) where
  key : String × String
  projectionSeq : ℕ
  revision : ℕ
  versions : ℕ × ℕ
  prices : List PriceRow
  firstEvidenceUnixNano : ℤ
  reading : Reading σ ψ
  storedDigest : Option δ

inductive Computed (φ ψ δ : Type) where
  | projection (p : Projection φ ψ) (digest : δ)
  | repriced (columns : CostColumns) (items : List CostItem) (detail : ψ) (digest : δ)

/-- The catalog, and the passes that have not written yet; `used` is every key a
call has had. -/
structure Catalog (σ φ ψ δ : Type) where
  store : PriceStore
  calls : Table (@ProjectedCall.key σ)
  projections : Table (@ProjectionRow.key φ ψ δ)
  used : List (String × String)
  inFlight : List (Snapshot σ ψ δ × Computed φ ψ δ)

variable {σ φ ψ δ : Type}

namespace ProjectedCall

/-- All that was read of the call since it last changed. -/
def since (call : ProjectedCall σ) : List σ := call.source :: call.earlier

/-- What the projection reads changed, and `projection_seq` moves on. -/
def moved (call : ProjectedCall σ) (source : σ) : ProjectedCall σ :=
  { call with projectionSeq := call.projectionSeq + 1, source := source, earlier := [] }

/-- It changed, and `projection_seq` stays. -/
def drifted (call : ProjectedCall σ) (source : σ) : ProjectedCall σ :=
  { call with source := source, earlier := call.since }

end ProjectedCall

namespace Engine

variable (E : Engine σ φ ψ δ)

def cost (projectId : String) (atUnixNano : ℤ) (prices : List PriceRow)
    (usage : List UsageEntry) : CallCost :=
  priceUsage E.lower E.spelled prices projectId atUnixNano usage

/-- `compute_projection` -/
def computeProjection (projectId : String) (atUnixNano : ℤ) (source : σ)
    (prices : List PriceRow) : Projection φ ψ :=
  let cost := E.cost projectId atUnixNano prices (E.usage source)
  { summary := E.summary source
    columns := costColumns cost
    usage := E.usage source
    detail := E.detail source
    costItems := cost.items }

/-- `_check_columns`, of the cost columns. -/
def checkColumns (columns : CostColumns) : Bool :=
  columns.costLowerBoundNanoUsd.all (fun n => 0 ≤ n ∧ n ≤ INT64_MAX) &&
    columns.costEstimatedNanoUsd.all (fun n => 0 ≤ n ∧ n ≤ INT64_MAX) &&
    columns.costUnknownItems ≤ INT32_MAX

/-- `CallProjector.compute`; `none` where the catalog could not store it. -/
def compute (snap : Snapshot σ ψ δ) : Option (Computed φ ψ δ) :=
  match snap.reading with
  | .full source =>
    let p := E.computeProjection snap.key.1 snap.firstEvidenceUnixNano source snap.prices
    if E.fits p.summary && checkColumns p.columns then
      some (.projection p (E.sha256 (.projection p)))
    else none
  | .reprice usage detail =>
    let cost := E.cost snap.key.1 snap.firstEvidenceUnixNano snap.prices usage
    if checkColumns (costColumns cost) then
      some (.repriced (costColumns cost) cost.items detail
        (E.sha256 (.repriced snap.storedDigest (costColumns cost) cost.items)))
    else none

end Engine

/-- The stamps that `write` gives a row. -/
def Snapshot.stamp (snap : Snapshot σ ψ δ) (digest : δ) (p : Projection φ ψ) :
    ProjectionRow φ ψ δ :=
  ⟨snap.key, snap.projectionSeq, snap.versions, CALL_PROJECTION_VERSION, digest, p⟩

namespace Catalog

def empty : Catalog σ φ ψ δ := ⟨.empty, .empty, .empty, [], []⟩

/-- What `projection_state` and the job's query call stale. -/
def Stale (c : Catalog σ φ ψ δ) (call : ProjectedCall σ) (row : ProjectionRow φ ψ δ) : Prop :=
  row.sourceSeq < call.projectionSeq ∨
    row.versions.1 < (PriceStore.versions call.key.1 c.store).1 ∨
    row.versions.2 < (PriceStore.versions call.key.1 c.store).2 ∨
    row.projectionVersion < CALL_PROJECTION_VERSION

instance (c : Catalog σ φ ψ δ) (call : ProjectedCall σ) (row : ProjectionRow φ ψ δ) :
    Decidable (c.Stale call row) := inferInstanceAs (Decidable (_ ∨ _))

/-- `only_prices`: whether the stored usage and detail are read instead of the
source. -/
def reading (call : ProjectedCall σ) : Option (ProjectionRow φ ψ δ) → Reading σ ψ
  | none => .full call.source
  | some row =>
    if row.sourceSeq = call.projectionSeq ∧ row.projectionVersion = CALL_PROJECTION_VERSION then
      .reprice row.projection.usage row.projection.detail
    else .full call.source

/-- `CallProjector.snapshot` -/
def snapshot (c : Catalog σ φ ψ δ) (key : String × String) : Option (Snapshot σ ψ δ) :=
  (c.calls.find? key).bind fun call => (c.store.projects.find? key.1).bind fun _ =>
    call.latestRevision.map fun revision =>
      { key := key
        projectionSeq := call.projectionSeq
        revision := revision
        versions := PriceStore.versions key.1 c.store
        prices := c.store.priceRows key.1
        firstEvidenceUnixNano := call.firstEvidenceUnixNano
        reading := reading call (c.projections.find? key)
        storedDigest := (c.projections.find? key).map (·.inputDigest) }

variable [DecidableEq δ]

/-- The row that the write leaves, where `stored` is the one there. -/
def written (snap : Snapshot σ ψ δ) (stored : Option (ProjectionRow φ ψ δ)) :
    Computed φ ψ δ → Option (ProjectionRow φ ψ δ)
  | .repriced columns items detail digest => stored.map fun row => snap.stamp digest
      { row.projection with columns := columns, detail := detail, costItems := items }
  | .projection p digest =>
    match stored with
    | none => some (snap.stamp digest p)
    | some row => some (snap.stamp digest (if row.inputDigest = digest then row.projection else p))


/-- `CallProjector.write`; `none` where it rolls back. -/
def write (c : Catalog σ φ ψ δ) (snap : Snapshot σ ψ δ)
    (computed : Computed φ ψ δ) : Option (Catalog σ φ ψ δ) :=
  (c.calls.find? snap.key).bind fun call =>
    if c.store.isActive snap.key.1 ∧ call.projectionSeq = snap.projectionSeq ∧
        call.latestRevision = some snap.revision ∧
        (c.projections.find? snap.key).map (·.inputDigest) = snap.storedDigest then
      some ((written snap (c.projections.find? snap.key) computed).elim c fun row =>
        { c with projections := c.projections.put row })
    else none

/-! ## Runs -/

inductive Op (σ : Type) where
  /-- Prices are added or seeded, a project is provisioned or deleted. -/
  | prices (op : PriceStore.Op)
  /-- A call's first evidence. -/
  | openCall (key : String × String) (firstEvidenceUnixNano : ℤ) (source : σ)
  /-- `record_revision` -/
  | recordRevision (key : String × String) (revision : ℕ) (source : σ)
  /-- `_touch_call`: an analysis was stored, given up or queued again. -/
  | touchCall (key : String × String) (source : σ)
  /-- An analysis job was claimed or released: its state is read too. -/
  | drift (key : String × String) (source : σ)
  /-- The call is deleted, and its projection with it. -/
  | deleteCall (key : String × String)
  /-- A pass reads and computes. -/
  | snapshot (key : String × String)
  /-- A pass under way writes. -/
  | write (pass : ℕ)

variable (E : Engine σ φ ψ δ)

def step (c : Catalog σ φ ψ δ) : Op σ → Option (Catalog σ φ ψ δ)
  | .prices op => (PriceStore.step E.lower c.store op).map fun store => { c with store := store }
  | .openCall key firstEvidenceUnixNano source =>
    -- a call's key is never given again: a purge moves its generation on
    if c.store.isActive key.1 ∧ key ∉ c.used then some { c with
      calls := c.calls.put ⟨key, 0, none, firstEvidenceUnixNano, source, []⟩
      used := key :: c.used }
    else none
  | .recordRevision key revision source =>
    (c.calls.find? key).map fun call => { c with
      calls := c.calls.put { call.moved source with latestRevision := some revision } }
  | .touchCall key source =>
    (c.calls.find? key).map fun call => { c with calls := c.calls.put (call.moved source) }
  | .drift key source =>
    (c.calls.find? key).map fun call => { c with calls := c.calls.put (call.drifted source) }
  | .deleteCall key =>
    (c.calls.find? key).map fun _ => { c with
      calls := c.calls.delete fun call => decide (call.key = key)
      projections := c.projections.delete fun row => decide (row.key = key) }
  | .snapshot key =>
    (c.snapshot key).bind fun snap => (E.compute snap).map fun computed =>
      { c with inFlight := (snap, computed) :: c.inFlight }
  | .write pass =>
    c.inFlight[pass]?.map fun entry =>
      let c := { c with inFlight := c.inFlight.eraseIdx pass }
      (c.write entry.1 entry.2).getD c

abbrev run : Catalog σ φ ψ δ → List (Op σ) → Catalog σ φ ψ δ := Transition.run (step E)

end Catalog

end Earshot.Projecting
