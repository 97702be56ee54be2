import Mathlib.Algebra.BigOperators.Group.List.Basic
import Mathlib.Data.String.Basic
import Earshot.Common.Binary64
import Earshot.Common.Bisect
import Earshot.Common.Grouping
/-!
# A call's usage

The items its requests reported, meter by meter, become one list of entries:
what was reported, summed; the requests that left a meter unknown; and the
speech-to-text audio nobody reported, estimated. Quantities are integers in
thousandths of the unit.

A product of floats is rounded by `fl`, which may be any function; it is none
when the product is not finite.
-/

namespace Earshot.Costs

open Bisect Grouping

open Binary64 (roundHalfEven)

def AUDIO_SECOND : String := "audio_second"

/-- `_PRIMARY_METERS.get(operation, ())` -/
def primaryMeters (operation : String) : List String :=
  if operation = "llm" then ["input_token", "output_token"]
  else if operation = "tts" then ["character"]
  else []

/-- An `int`, or a finite `float`, which is the rational it stands for. -/
inductive Quantity where
  | int (n : ℤ)
  | float (x : ℚ)
  deriving DecidableEq

structure Span where
  traceId : String
  spanId : String
  deriving DecidableEq

/-- What one billed request reported for one meter. The fields below the
identifiers are what `usage_items` gives: only audio seconds have a fraction,
they are in one meter, and they are positive when reported. -/
structure UsageItem where
  operation : String
  provider : Option String
  model : Option String
  meter : String
  quantity : Option Quantity
  traceId : String
  spanId : String
  counted : operation ≠ "stt" → ∀ x, quantity ≠ some (.float x)
  heard : operation = "stt" → meter = AUDIO_SECOND
  positive : operation = "stt" → ∀ n, quantity = some (.int n) → 0 < n

inductive EntryKind where
  | reported
  | notReported
  | estimate
  deriving DecidableEq

/-- An entry's quantity is unknown exactly when it says so. -/
structure UsageEntry where
  kind : EntryKind
  operation : String
  provider : Option String
  model : Option String
  unit : Option String
  quantityMilli : Option ℤ
  span : Option Span
  unknown : kind = .notReported ↔ quantityMilli = none
  deriving DecidableEq

/-- `_span` -/
def UsageItem.span (item : UsageItem) : Span := ⟨item.traceId, item.spanId⟩

/-- The whole number an item of another operation than `stt` reports. -/
def UsageItem.count (item : UsageItem) : ℤ :=
  match item.quantity with
  | some (.int n) => n
  | _ => 0

/-- `_audio_seconds_milli` -/
def audioSecondsMilli (fl : ℚ → Option ℚ) : Quantity → ℤ
  | .int seconds => max 1 (seconds * 1000)
  | .float seconds =>
    match fl (seconds * 1000) with
    | some scaled => max 1 (roundHalfEven scaled)
    -- only the product is not finite: the float is so large that it is whole
    | none => max 1 (roundHalfEven seconds * 1000)

/-- `spans[0] if len(spans) == 1 else None` -/
def soleSpan (spans : List Span) : Option Span :=
  if spans.length = 1 then spans.head? else none

/-! ## Requests -/

def requestKey (item : UsageItem) : String × String × String :=
  (item.traceId, item.spanId, item.operation)

def reportKey (item : UsageItem) : String × Option String × Option String × String :=
  (item.operation, item.provider, item.model, item.meter)

def providerModel (item : UsageItem) : Option String × Option String := (item.provider, item.model)

/-- `by_request` -/
def byRequest (items : List UsageItem) : List ((String × String × String) × List UsageItem) :=
  groupBy requestKey (items.filter fun item => item.operation ≠ "stt")

/-- `stt` -/
def byProviderModel (items : List UsageItem) :
    List ((Option String × Option String) × List UsageItem) :=
  groupBy providerModel (items.filter fun item => item.operation = "stt")

/-- What a key's reported items add up to. -/
structure Tally where
  quantityMilli : ℤ
  spans : List Span

def Tally.add (tally : Tally) (item : UsageItem) : Tally :=
  ⟨tally.quantityMilli + item.count * 1000, tally.spans ++ [item.span]⟩

def reportedEntry :
    (String × Option String × Option String × String) × Tally → UsageEntry
  | ((operation, provider, model, meter), tally) =>
    { kind := .reported, operation, provider, model, unit := some meter
      quantityMilli := some tally.quantityMilli, span := soleSpan tally.spans
      unknown := by simp }

/-- The request's items that leave a primary meter unknown. -/
def missing (operation : String) (request : List UsageItem) : List UsageItem :=
  request.filter fun item => item.quantity = none ∧ item.meter ∈ primaryMeters operation

/-- The entry of a request that left a primary meter unknown. -/
def unreportedEntries : (String × String × String) × List UsageItem → List UsageEntry
  | ((_, _, operation), request) =>
    match missing operation request, request with
    | item :: rest, first :: _ =>
      [{ kind := .notReported, operation := first.operation, provider := first.provider
         model := first.model, unit := if rest = [] then some item.meter else none
         quantityMilli := none, span := some first.span, unknown := by simp }]
    | _, _ => []

/-! ## Audio seconds -/

/-- The one entry of a provider and model: what its requests reported, or
the call's audio when none did. -/
def sttEntry (fl : ℚ → Option ℚ) (userAudioMs : Option ℤ) :
    (Option String × Option String) × List UsageItem → UsageEntry
  | ((provider, model), requests) =>
    let reported := requests.filter (·.quantity.isSome)
    if reported ≠ [] then
      { kind := .reported, operation := "stt", provider, model, unit := some AUDIO_SECOND
        quantityMilli := some ((reported.filterMap (·.quantity)).map (audioSecondsMilli fl)).sum
        span := soleSpan (reported.map (·.span))
        unknown := by simp }
    else
      { kind := if userAudioMs = none then .notReported else .estimate
        operation := "stt", provider, model, unit := some AUDIO_SECOND
        quantityMilli := userAudioMs, span := none
        unknown := by cases userAudioMs <;> simp }

/-- The requests without a report, where another one of the provider and
model has one. -/
def sttUnreported : (Option String × Option String) × List UsageItem → List UsageEntry
  | (_, requests) =>
    if requests.filter (·.quantity.isSome) ≠ [] then
      (requests.filter (·.quantity = none)).map fun item =>
        { kind := .notReported, operation := "stt", provider := item.provider
          model := item.model, unit := some AUDIO_SECOND, quantityMilli := none
          span := some item.span, unknown := by simp }
    else []

/-! ## The entries -/

def operationOrder (operation : String) : ℕ :=
  if operation = "llm" then 0
  else if operation = "tts" then 1
  else if operation = "stt" then 2
  else if operation = "realtime" then 3
  else 9

/-- The sort key of the entries. -/
def UsageEntry.order (entry : UsageEntry) :
    ℕ ×ₗ ℕ ×ₗ String ×ₗ String ×ₗ String ×ₗ String ×ₗ String :=
  toLex (if entry.kind = .notReported then 1 else 0, toLex (operationOrder entry.operation,
    toLex (entry.provider.getD "", toLex (entry.model.getD "", toLex (entry.unit.getD "",
      toLex ((entry.span.map Span.traceId).getD "", (entry.span.map Span.spanId).getD ""))))))

/-- `reported` -/
def reportedTallies (items : List UsageItem) :
    List ((String × Option String × Option String × String) × Tally) :=
  grouped reportKey ⟨0, []⟩ Tally.add
    (((byRequest items).flatMap (·.2)).filter (·.quantity.isSome))

/-- `call_usage` -/
def callUsage (fl : ℚ → Option ℚ) (items : List UsageItem) (userAudioMs : Option ℤ) :
    List UsageEntry :=
  let usage := (reportedTallies items).map reportedEntry ++
    (byProviderModel items).map (sttEntry fl userAudioMs)
  let unreported := (byRequest items).flatMap unreportedEntries ++
    (byProviderModel items).flatMap sttUnreported
  sortedBy UsageEntry.order (usage ++ unreported)

end Earshot.Costs
