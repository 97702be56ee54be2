import Mathlib.Data.List.MinMax
import Mathlib.Tactic.FieldSimp
import Mathlib.Tactic.Linarith
import Earshot.Costs.Accounts
/-!
# Pricing a call's usage

An entry is priced at the row in effect for its provider, model and unit, in
integer nano-USD. What the two totals and the count of unknown items say is
read off the items, and no total is shown that does not fit the catalog.

`lower` is the lower case of a name, and `spelled` the number that a float's
shortest spelling stands for, none when there is no finite float; both may be
any function.
-/

namespace Earshot.Costs

def INT64_MAX : ℤ := 9223372036854775807

def MAX_SAFE_API_INTEGER : ℤ := 9007199254740991

/-- A row of `prices`, with its table's bounds. -/
structure PriceRow where
  id : ℤ
  projectId : Option String
  provider : String
  model : String
  unit : String
  priceNanoUsd : ℤ
  perQuantity : ℤ
  effectiveFromUnixNano : ℤ
  price_nonneg : 0 ≤ priceNanoUsd
  perQuantity_pos : 1 ≤ perQuantity

/-- When a row starts and its ID, in the order of the two. -/
def Start : Type := ℤ ×ₗ ℤ

instance startOrder : LinearOrder Start :=
  @Prod.Lex.instLinearOrder ℤ ℤ Int.instLinearOrder Int.instLinearOrder

/-- The later row, and the newer one of two that start together. -/
def PriceRow.latest (row : PriceRow) : Start := toLex (row.effectiveFromUnixNano, row.id)

/-- `match_price` -/
def matchPrice (lower : String → String) (prices : List PriceRow) (projectId : String)
    (provider model unit : Option String) (atUnixNano : ℤ) : Option PriceRow := do
  let provider ← provider
  let model ← model
  let unit ← unit
  let rows (scope : Option String) := prices.filter fun row =>
    row.projectId = scope ∧
    (row.provider, row.model, row.unit) = (lower provider, lower model, unit) ∧
    row.effectiveFromUnixNano ≤ atUnixNano
  ((rows (some projectId)).argmax PriceRow.latest).or ((rows none).argmax PriceRow.latest)

/-- `_cost` -/
def costOf (quantityMilli : ℤ) (price : PriceRow) : ℤ :=
  let denominator := price.perQuantity * 1000
  (2 * quantityMilli * price.priceNanoUsd + denominator) / (2 * denominator)

/-- `_quantity`, as the number the response spells. -/
def apiQuantity (spelled : ℚ → Option ℚ) : Option ℤ → Option ℚ
  | none => none
  | some quantityMilli =>
    let whole := quantityMilli / 1000
    if quantityMilli % 1000 = 0 ∧ whole ≤ MAX_SAFE_API_INTEGER then some whole
    else
      let seconds := (quantityMilli : ℚ) / 1000
      (spelled seconds).filter fun number => number = seconds

inductive CostStatus where
  | priced
  | estimated
  | noPrice
  | notReported
  deriving DecidableEq

/-- Of a price an item repeats what it was priced by. -/
structure CostItem where
  status : CostStatus
  operation : String
  provider : Option String
  model : Option String
  unit : Option String
  quantity : Option ℚ
  priceId : Option ℤ
  priceNanoUsd : Option ℤ
  perQuantity : Option ℤ
  costNanoUsd : Option ℤ
  span : Option Span
  deriving DecidableEq

structure CallCost where
  items : List CostItem
  lowerBoundNanoUsd : Option ℤ
  estimatedNanoUsd : Option ℤ
  unknownItems : ℕ
  deriving DecidableEq

section Pricing

variable (lower : String → String) (spelled : ℚ → Option ℚ) (prices : List PriceRow)
  (projectId : String) (atUnixNano : ℤ)

/-- The row in effect for an entry that has a quantity. -/
def entryPrice (entry : UsageEntry) : Option PriceRow :=
  if entry.kind ≠ .notReported then
    matchPrice lower prices projectId entry.provider entry.model entry.unit atUnixNano
  else none

/-- The price and the cost of an entry: neither where the catalog could not
store the cost. -/
def pricedAt (entry : UsageEntry) : Option PriceRow × Option ℤ :=
  let price := entryPrice lower prices projectId atUnixNano entry
  let cost := price.bind fun price => entry.quantityMilli.map fun quantity => costOf quantity price
  if cost.any (INT64_MAX < ·) then (none, none) else (price, cost)

def costItem (entry : UsageEntry) : CostItem :=
  let price := (pricedAt lower prices projectId atUnixNano entry).1
  { status :=
      if entry.kind = .notReported then .notReported
      else if price = none then .noPrice
      else if entry.kind = .estimate then .estimated
      else .priced
    operation := entry.operation
    provider := entry.provider
    model := entry.model
    unit := entry.unit
    quantity := apiQuantity spelled entry.quantityMilli
    priceId := price.map PriceRow.id
    priceNanoUsd := price.map PriceRow.priceNanoUsd
    perQuantity := price.map PriceRow.perQuantity
    costNanoUsd := (pricedAt lower prices projectId atUnixNano entry).2
    span := entry.span }

/-- What the loop over the entries has summed. -/
structure Sums where
  lower : ℤ
  estimated : ℤ
  anyEstimated : Bool
  unknown : ℕ
  deriving DecidableEq

/-- A priced or an estimated item has a cost (`costItem_cost`). -/
def Sums.add (sums : Sums) (item : CostItem) : Sums :=
  match item.status with
  | .priced => { sums with lower := sums.lower + item.costNanoUsd.getD 0 }
  | .estimated => { sums with
      estimated := sums.estimated + item.costNanoUsd.getD 0, anyEstimated := true }
  | .noPrice => { sums with unknown := sums.unknown + 1 }
  | .notReported => { sums with unknown := sums.unknown + 1 }

/-- `price_usage` -/
def priceUsage (usage : List UsageEntry) : CallCost :=
  let items := usage.map (costItem lower spelled prices projectId atUnixNano)
  let sums := items.foldl Sums.add ⟨0, 0, false, 0⟩
  let within : Bool := sums.lower ≤ INT64_MAX ∧ sums.estimated ≤ INT64_MAX
  { items
    lowerBoundNanoUsd := if items ≠ [] ∧ within then some sums.lower else none
    estimatedNanoUsd := if sums.anyEstimated ∧ within then some sums.estimated else none
    unknownItems := sums.unknown }

end Pricing

variable {lower : String → String} {spelled : ℚ → Option ℚ} {prices : List PriceRow}
  {projectId : String} {atUnixNano : ℤ} {usage : List UsageEntry} {entry : UsageEntry}

/-! ## The row in effect -/

/-! ## Half up -/

/-- **A cost is the quantity times the price over its unit, rounded half
up.** -/
theorem costOf_eq (quantityMilli : ℤ) (price : PriceRow) : costOf quantityMilli price =
    ⌊(quantityMilli : ℚ) / 1000 * price.priceNanoUsd / price.perQuantity + 1 / 2⌋ := by
  have hpos : (0 : ℤ) < 2 * (price.perQuantity * 1000) := by
    have := price.perQuantity_pos
    omega
  have hper : (0 : ℚ) < price.perQuantity := Int.cast_pos.mpr price.perQuantity_pos
  have hfloor : ∀ n d : ℤ, 0 < d → ⌊(n : ℚ) / d⌋ = n / d := by
    intro n d hd
    obtain ⟨m, rfl⟩ := Int.eq_ofNat_of_zero_le hd.le
    exact Rat.floor_intCast_div_natCast n m
  unfold costOf
  rw [← hfloor _ _ hpos]
  congr 1
  push_cast
  field_simp

/-! ## Items -/

/-- What an item says of its entry. -/
structure ItemOf (lower : String → String) (prices : List PriceRow) (projectId : String)
    (atUnixNano : ℤ) (entry : UsageEntry) (item : CostItem) : Prop where
  names : (item.operation, item.provider, item.model, item.unit, item.span) =
    (entry.operation, entry.provider, entry.model, entry.unit, entry.span)
  notReported : item.status = .notReported ↔ entry.kind = .notReported
  noPrice : item.status = .noPrice ↔ entry.kind ≠ .notReported ∧ item.costNanoUsd = none
  priced : item.status = .priced ↔ entry.kind = .reported ∧ item.costNanoUsd.isSome = true
  estimated : item.status = .estimated ↔ entry.kind = .estimate ∧ item.costNanoUsd.isSome = true
  /-- A cost is that of the entry's quantity at the row in effect, if the
  catalog can store it. -/
  cost : ∀ cost, item.costNanoUsd = some cost ↔ ∃ price quantity,
    entryPrice lower prices projectId atUnixNano entry = some price ∧
    entry.quantityMilli = some quantity ∧ item.priceId = some price.id ∧
    cost = ⌊(quantity : ℚ) / 1000 * price.priceNanoUsd / price.perQuantity + 1 / 2⌋ ∧
    cost ≤ INT64_MAX

theorem pricedAt_cases (lower : String → String) (prices : List PriceRow) (projectId : String)
    (atUnixNano : ℤ) (entry : UsageEntry) :
    (∃ price quantity, entryPrice lower prices projectId atUnixNano entry = some price ∧
        entry.quantityMilli = some quantity ∧ costOf quantity price ≤ INT64_MAX ∧
        pricedAt lower prices projectId atUnixNano entry =
          (some price, some (costOf quantity price))) ∨
      (pricedAt lower prices projectId atUnixNano entry = (none, none) ∧
        ∀ price quantity, entryPrice lower prices projectId atUnixNano entry = some price →
          entry.quantityMilli = some quantity → INT64_MAX < costOf quantity price) := by
  unfold pricedAt
  cases hprice : entryPrice lower prices projectId atUnixNano entry with
  | none => exact Or.inr ⟨rfl, fun _ _ h => (by cases h)⟩
  | some price =>
    cases hquantity : entry.quantityMilli with
    | none =>
      -- an entry without a quantity is not reported, so it has no price
      have hkind := entry.unknown.mpr hquantity
      rw [entryPrice, if_neg fun h => h hkind] at hprice
      cases hprice
    | some quantity =>
      by_cases hmax : INT64_MAX < costOf quantity price
      · refine Or.inr ⟨?_, fun price' quantity' h h' => ?_⟩
        · simp [hmax]
        · rw [← Option.some.inj h, ← Option.some.inj h']
          exact hmax
      · refine Or.inl ⟨price, quantity, rfl, rfl, not_lt.mp hmax, ?_⟩
        simp [hmax]

theorem itemOf_costItem (entry : UsageEntry) :
    ItemOf lower prices projectId atUnixNano entry
      (costItem lower spelled prices projectId atUnixNano entry) := by
  have hkind : ∀ price, entryPrice lower prices projectId atUnixNano entry = some price →
      entry.kind ≠ .notReported := by
    intro price hprice h
    rw [entryPrice, if_neg fun hne => hne h] at hprice
    cases hprice
  rcases pricedAt_cases lower prices projectId atUnixNano entry with
    ⟨price, quantity, hprice, hquantity, hmax, heq⟩ | ⟨heq, hover⟩
  · have hne := hkind price hprice
    have hcost : (costItem lower spelled prices projectId atUnixNano entry).costNanoUsd =
        some (costOf quantity price) := congrArg Prod.snd heq
    have hid : (costItem lower spelled prices projectId atUnixNano entry).priceId =
        some price.id := congrArg (fun p : Option PriceRow × Option ℤ => p.1.map PriceRow.id) heq
    have hstatus : (costItem lower spelled prices projectId atUnixNano entry).status =
        if entry.kind = .estimate then .estimated else .priced := by
      simp only [costItem, heq, if_neg hne, reduceCtorEq, if_false]
    refine
      { names := rfl
        notReported := ?_
        noPrice := ?_
        priced := ?_
        estimated := ?_
        cost := fun cost => ?_ }
    · rw [hstatus]
      cases hk : entry.kind <;> simp_all
    · rw [hstatus, hcost]
      cases hk : entry.kind <;> simp
    · rw [hstatus, hcost]
      cases hk : entry.kind <;> simp_all
    · rw [hstatus, hcost]
      cases hk : entry.kind <;> simp
    · rw [hcost, hid]
      constructor
      · intro h
        rw [← Option.some.inj h]
        exact ⟨price, quantity, hprice, hquantity, rfl, costOf_eq quantity price, hmax⟩
      · rintro ⟨price', quantity', hprice', hquantity', -, hval, -⟩
        rw [hval, ← costOf_eq, Option.some.inj (hprice.symm.trans hprice'),
          Option.some.inj (hquantity.symm.trans hquantity')]
  · have hcost : (costItem lower spelled prices projectId atUnixNano entry).costNanoUsd = none :=
      congrArg Prod.snd heq
    have hstatus : (costItem lower spelled prices projectId atUnixNano entry).status =
        if entry.kind = .notReported then .notReported else .noPrice := by
      simp only [costItem, heq, if_true]
    refine
      { names := rfl
        notReported := ?_
        noPrice := ?_
        priced := ?_
        estimated := ?_
        cost := fun cost => ?_ }
    · rw [hstatus]
      cases hk : entry.kind <;> simp
    · rw [hstatus, hcost]
      cases hk : entry.kind <;> simp
    · rw [hstatus, hcost]
      cases hk : entry.kind <;> simp
    · rw [hstatus, hcost]
      cases hk : entry.kind <;> simp
    · rw [hcost]
      refine ⟨fun h => (by cases h), ?_⟩
      rintro ⟨price, quantity, hprice, hquantity, -, hval, hmax⟩
      have hlt := hover price quantity hprice hquantity
      rw [costOf_eq, ← hval] at hlt
      exact absurd hmax (not_le.mpr hlt)

/-- An item with a cost is in one of the totals. -/
theorem ItemOf.known {item : CostItem}
    (h : ItemOf lower prices projectId atUnixNano entry item)
    (hcost : item.costNanoUsd.isSome = true) :
    item.status = .priced ∨ item.status = .estimated := by
  cases hkind : entry.kind with
  | reported => exact Or.inl (h.priced.mpr ⟨hkind, hcost⟩)
  | estimate => exact Or.inr (h.estimated.mpr ⟨hkind, hcost⟩)
  | notReported =>
    obtain ⟨cost, hsome⟩ := Option.isSome_iff_exists.mp hcost
    obtain ⟨price, -, hprice, -⟩ := (h.cost cost).mp hsome
    rw [entryPrice, if_neg fun hne => hne hkind] at hprice
    cases hprice

/-! ## Totals -/

/-- The costs of the items of a status. -/
def sumOf (status : CostStatus) (items : List CostItem) : ℤ :=
  ((items.filter (·.status = status)).map (·.costNanoUsd.getD 0)).sum

/-- What the cost of a call says of its usage. -/
structure Costed (lower : String → String) (prices : List PriceRow) (projectId : String)
    (atUnixNano : ℤ) (usage : List UsageEntry) (cost : CallCost) : Prop where
  items : List.Forall₂ (ItemOf lower prices projectId atUnixNano) usage cost.items
  lower : ∀ total, cost.lowerBoundNanoUsd = some total → total = sumOf .priced cost.items
  estimated : ∀ total, cost.estimatedNanoUsd = some total → total = sumOf .estimated cost.items
  /-- When both fit, the totals are the sum of all the items' costs. -/
  exact : sumOf .priced cost.items ≤ INT64_MAX → sumOf .estimated cost.items ≤ INT64_MAX →
    cost.lowerBoundNanoUsd.getD 0 + cost.estimatedNanoUsd.getD 0 =
      (cost.items.map (·.costNanoUsd.getD 0)).sum
  lowerNone : cost.lowerBoundNanoUsd = none ↔ usage = [] ∨
    INT64_MAX < sumOf .priced cost.items ∨ INT64_MAX < sumOf .estimated cost.items
  estimatedNone : cost.estimatedNanoUsd = none ↔
    (∀ item ∈ cost.items, item.status ≠ .estimated) ∨
    INT64_MAX < sumOf .priced cost.items ∨ INT64_MAX < sumOf .estimated cost.items
  unknown : cost.unknownItems =
    (cost.items.filter fun item => item.status ≠ .priced ∧ item.status ≠ .estimated).length

theorem sumOf_cons (status : CostStatus) (item : CostItem) (items : List CostItem) :
    sumOf status (item :: items) =
      (if item.status = status then item.costNanoUsd.getD 0 else 0) + sumOf status items := by
  unfold sumOf
  by_cases h : item.status = status
  · rw [if_pos h, List.filter_cons, if_pos (decide_eq_true h), List.map_cons, List.sum_cons]
  · rw [if_neg h, List.filter_cons, if_neg fun hp => h (of_decide_eq_true hp), zero_add]

/-- What the loop has summed at its end. -/
theorem foldl_sums (items : List CostItem) (sums : Sums) : items.foldl Sums.add sums =
    { lower := sums.lower + sumOf .priced items
      estimated := sums.estimated + sumOf .estimated items
      anyEstimated := sums.anyEstimated || items.any (·.status = .estimated)
      unknown := sums.unknown + (items.filter fun item =>
        item.status ≠ .priced ∧ item.status ≠ .estimated).length } := by
  induction items generalizing sums with
  | nil => simp [sumOf]
  | cons item items ih =>
    rw [List.foldl_cons, ih, sumOf_cons, sumOf_cons]
    cases h : item.status <;>
      simp [Sums.add, h, add_assoc, add_comm]

/-- An item without a cost adds nothing, and every other one is in one of the
totals. -/
theorem sum_costs {items : List CostItem}
    (h : ∀ item ∈ items, item.costNanoUsd.isSome = true →
      item.status = .priced ∨ item.status = .estimated) :
    (items.map (·.costNanoUsd.getD 0)).sum = sumOf .priced items + sumOf .estimated items := by
  induction items with
  | nil => rfl
  | cons item items ih =>
    have htail := ih fun item hitem => h item (List.mem_cons_of_mem _ hitem)
    rw [List.map_cons, List.sum_cons, htail, sumOf_cons, sumOf_cons]
    cases hcost : item.costNanoUsd with
    | none => simp
    | some cost =>
      rcases h item List.mem_cons_self (by rw [hcost]; rfl) with hs | hs <;> rw [hs] <;> simp <;>
        omega

theorem sumOf_estimated_none {items : List CostItem}
    (h : ∀ item ∈ items, item.status ≠ .estimated) : sumOf .estimated items = 0 := by
  rw [sumOf, List.filter_eq_nil_iff.mpr fun item hitem hp => h item hitem (of_decide_eq_true hp)]
  rfl

/-- **The totals are the sums of the items' costs**, and no total is shown
that is not one. -/
theorem costed_priceUsage : Costed lower prices projectId atUnixNano usage
    (priceUsage lower spelled prices projectId atUnixNano usage) := by
  have hitems : List.Forall₂ (ItemOf lower prices projectId atUnixNano) usage
      (usage.map (costItem lower spelled prices projectId atUnixNano)) :=
    List.forall₂_map_right_iff.mpr (List.forall₂_same.mpr fun entry _ => itemOf_costItem entry)
  have hcosts : ∀ item ∈ usage.map (costItem lower spelled prices projectId atUnixNano),
      item.costNanoUsd.isSome = true → item.status = .priced ∨ item.status = .estimated := by
    intro item hitem hcost
    obtain ⟨entry, -, rfl⟩ := List.mem_map.mp hitem
    exact (itemOf_costItem entry).known hcost
  have hempty : usage.map (costItem lower spelled prices projectId atUnixNano) = [] ↔
      usage = [] := List.map_eq_nil_iff
  unfold priceUsage
  dsimp only
  generalize usage.map (costItem lower spelled prices projectId atUnixNano) = items at *
  have hany : items.any (·.status = .estimated) = false ↔
      ∀ item ∈ items, item.status ≠ .estimated := by
    rw [List.any_eq_false]
    simp only [decide_eq_true_eq, ne_eq]
  rw [foldl_sums]
  simp only [zero_add, Bool.false_or, decide_eq_true_eq]
  constructor
  · exact hitems
  · intro total htotal
    split at htotal
    · exact (Option.some.inj htotal).symm
    · cases htotal
  · intro total htotal
    dsimp only at htotal
    split at htotal
    · exact (Option.some.inj htotal).symm
    · cases htotal
  · intro hlower hestimated
    rw [sum_costs hcosts]
    by_cases hnil : items = []
    · subst hnil
      rfl
    · rw [if_pos ⟨hnil, hlower, hestimated⟩]
      cases hest : items.any (·.status = .estimated) with
      | true => rw [if_pos ⟨rfl, hlower, hestimated⟩]; rfl
      | false => rw [if_neg fun h => Bool.false_ne_true h.1, sumOf_estimated_none (hany.mp hest)]; rfl
  · rw [ite_eq_right_iff, ← hempty]
    simp only [reduceCtorEq, imp_false, not_and_or, not_not, not_le]
  · rw [ite_eq_right_iff, ← hany]
    simp only [reduceCtorEq, imp_false, not_and_or, not_le, Bool.not_eq_true]
  · trivial

/-- **Usage is conserved and its cost is exact**: each report of each request
is in one entry, and each entry's cost in one total. -/
theorem callUsage_priceUsage (lower : String → String) (spelled : ℚ → Option ℚ)
    (items : List UsageItem) (userAudioMs : Option ℤ) (prices : List PriceRow) (projectId : String)
      (atUnixNano : ℤ) :
    Accounts items userAudioMs (callUsage Binary64.round items userAudioMs) ∧
      ∀ usage, Costed lower prices projectId atUnixNano usage
        (priceUsage lower spelled prices projectId atUnixNano usage) :=
  ⟨accounts_callUsage, fun _ => costed_priceUsage⟩

end Earshot.Costs
