import Mathlib.Data.List.Nodup
import Earshot.Common.Run
import Earshot.Common.Stamped
import Earshot.Common.Table
import Earshot.Costs.Pricing
/-!
# The prices of a deployment

`PriceStore`: rows are only added, each for a project or, built in, for all of
them, and every insert moves the version its scope keeps. What a project's
calls are priced from is its own rows and the built-in ones, and the two
versions together say exactly whether that has changed (`versions_eq_iff`). The
built-in prices a release ships are seeded at every start, and land once
(`seed_again`).

`lower` is the lower case of a name; it may be any function.
-/

namespace Earshot.Costs

open Relational

def PROVIDER_MAX_LENGTH : ℕ := 128
def MODEL_MAX_LENGTH : ℕ := 256

def PRICE_UNITS : List String :=
  ["input_token", "output_token", "cached_input_token", "character", "audio_second"]

structure NewPrice where
  provider : String
  model : String
  unit : String
  priceNanoUsd : ℤ
  perQuantity : ℤ
  effectiveFromUnixNano : ℤ
  sourceUrl : Option String
  note : Option String

/-- A price that passed its checks. -/
structure ValidPrice extends NewPrice where
  price_nonneg : 0 ≤ priceNanoUsd
  perQuantity_pos : 1 ≤ perQuantity

/-- What makes two built-in rows the same price. -/
abbrev SeedKey := String × String × String × ℤ × ℤ × ℤ

def ValidPrice.seedKey (price : ValidPrice) : SeedKey :=
  (price.provider, price.model, price.unit, price.priceNanoUsd, price.perQuantity,
    price.effectiveFromUnixNano)

/-- A row of `prices`, with what its table alone keeps. -/
structure Price extends PriceRow where
  sourceUrl : Option String
  note : Option String
  createdUnixNano : ℤ

/-- `_validated` -/
def validated (lower : String → String) (price : NewPrice) : Except String ValidPrice :=
  let provider := lower price.provider
  let model := lower price.model
  if ¬ (1 ≤ provider.length ∧ provider.length ≤ PROVIDER_MAX_LENGTH) then
    .error "provider must be 1 to 128 characters"
  else if ¬ (1 ≤ model.length ∧ model.length ≤ MODEL_MAX_LENGTH) then
    .error "model must be 1 to 256 characters"
  else if price.unit ∉ PRICE_UNITS then
    .error "unit must be one of input_token, output_token, cached_input_token, character, audio_second"
  else if hprice : 0 ≤ price.priceNanoUsd ∧ price.priceNanoUsd ≤ INT64_MAX then
    if hquantity : 1 ≤ price.perQuantity ∧ price.perQuantity ≤ INT64_MAX then
      if 0 ≤ price.effectiveFromUnixNano ∧ price.effectiveFromUnixNano ≤ INT64_MAX then
        .ok ⟨{ price with provider := provider, model := model }, hprice.1, hquantity.1⟩
      else .error "effective_from_unix_nano must be in [0, 2^63 - 1]"
    else .error "per_quantity must be in [1, 2^63 - 1]"
  else .error "price_nano_usd must be in [0, 2^63 - 1]"

/-- A row of `projects`: its price version, and whether it is being deleted. -/
structure ProjectPrices where
  projectId : String
  priceVersion : ℕ
  active : Bool

/-- `prices` in the order of its IDs, and the versions. -/
structure PriceStore where
  projects : Table ProjectPrices.projectId
  builtinPriceVersion : ℕ
  prices : List Price
  nextId : ℤ

/-- Why a price is not added. -/
inductive PriceRefusal where
  | invalid (message : String)
  /-- `_require_active_project` -/
  | inactive
  deriving DecidableEq

namespace PriceStore

def empty : PriceStore := ⟨.empty, 0, [], 1⟩

/-- The row that `_insert` makes of a price. -/
def row (id : ℤ) (projectId : Option String) (price : ValidPrice) (now : ℤ) : Price where
  id := id
  projectId := projectId
  provider := price.provider
  model := price.model
  unit := price.unit
  priceNanoUsd := price.priceNanoUsd
  perQuantity := price.perQuantity
  effectiveFromUnixNano := price.effectiveFromUnixNano
  price_nonneg := price.price_nonneg
  perQuantity_pos := price.perQuantity_pos
  sourceUrl := price.sourceUrl
  note := price.note
  createdUnixNano := now

/-- `_insert` -/
def insert (s : PriceStore) (projectId : Option String) (price : ValidPrice) (now : ℤ) :
    PriceStore :=
  { s with prices := s.prices ++ [row s.nextId projectId price now], nextId := s.nextId + 1 }

def bump (r : ProjectPrices) : ProjectPrices := { r with priceVersion := r.priceVersion + 1 }

theorem bump_projectId (r : ProjectPrices) : (bump r).projectId = r.projectId := rfl

/-- `UPDATE projects … WHERE project_id = ?` -/
def update (s : PriceStore) (p : String) (f : ProjectPrices → ProjectPrices)
    (hf : ∀ r, (f r).projectId = r.projectId) : PriceStore :=
  { s with
    projects := s.projects.patch (fun r => if r.projectId = p then f r else r) fun r => by
      split
      · exact hf r
      · rfl }

/-- The project's row, and takes writes. -/
def isActive (s : PriceStore) (p : String) : Bool := (s.projects.find? p).any (·.active)

/-- `PriceStore.add` -/
def add (lower : String → String) (s : PriceStore) (projectId : Option String)
    (price : NewPrice) (now : ℤ) : Except PriceRefusal PriceStore :=
  match validated lower price with
  | .error message => .error (.invalid message)
  | .ok price =>
    match projectId with
    | none =>
      .ok ({ s with builtinPriceVersion := s.builtinPriceVersion + 1 }.insert none price now)
    | some p =>
      if s.isActive p then .ok ((s.update p bump bump_projectId).insert (some p) price now)
      else .error .inactive

def seedKey (price : Price) : SeedKey :=
  (price.provider, price.model, price.unit, price.priceNanoUsd, price.perQuantity,
    price.effectiveFromUnixNano)

/-- The keys of the built-in rows. -/
def present (s : PriceStore) : List SeedKey :=
  (s.prices.filter (·.projectId = none)).map seedKey

/-- One round of the loop of `seed_builtin_prices`: the store, what is present,
and how many were added. -/
def seedOne (now : ℤ) : PriceStore × List SeedKey × ℕ → ValidPrice → PriceStore × List SeedKey × ℕ
  | (s, present, added), price =>
    if price.seedKey ∈ present then (s, present, added)
    else (s.insert none price now, price.seedKey :: present, added + 1)

/-- `seed_builtin_prices` -/
def seedBuiltins (lower : String → String) (s : PriceStore) (prices : List NewPrice) (now : ℤ) :
    Except String (PriceStore × ℕ) :=
  (prices.mapM (validated lower)).map fun wanted =>
    let out := wanted.foldl (seedOne now) (s, s.present, 0)
    (if out.2.2 = 0 then out.1
      else { out.1 with builtinPriceVersion := out.1.builtinPriceVersion + 1 }, out.2.2)

/-- The rows a project's calls may use. -/
def visible (p : String) (price : Price) : Bool :=
  price.projectId = none ∨ price.projectId = some p

/-- `price_rows` -/
def priceRows (s : PriceStore) (p : String) : List PriceRow :=
  (s.prices.filter (visible p)).map Price.toPriceRow

/-- The versions a projection of the project's calls is stamped with. -/
def versions (p : String) (s : PriceStore) : ℕ × ℕ :=
  ((s.projects.find? p).elim 0 (·.priceVersion), s.builtinPriceVersion)

/-! ## Runs -/

inductive Op where
  | add (projectId : Option String) (price : NewPrice) (now : ℤ)
  | seed (prices : List NewPrice) (now : ℤ)
  /-- `provision_project` -/
  | provision (p : String)
  /-- `begin_project_deletion` -/
  | beginDeletion (p : String)
  /-- A project being deleted takes its rows with it. -/
  | deleteRows (p : String)

def step (lower : String → String) (s : PriceStore) : Op → Option PriceStore
  | .add projectId price now => (s.add lower projectId price now).toOption
  | .seed prices now => (s.seedBuiltins lower prices now).toOption.map Prod.fst
  | .provision p => some { s with projects := s.projects.insert ⟨p, 0, true⟩ }
  | .beginDeletion p =>
    (s.projects.find? p).map fun _ => s.update p ({ · with active := false }) fun _ => rfl
  | .deleteRows p =>
    (s.projects.find? p).bind fun r =>
      if r.active then none
      else some { s with prices := s.prices.filter (·.projectId ≠ some p) }

abbrev run (lower : String → String) : PriceStore → List Op → PriceStore :=
  Transition.run (step lower)

/-! ## What a step does -/

/-- The project is being deleted, or was. -/
def dying (s : PriceStore) (p : String) : Prop :=
  ∃ r, s.projects.find? p = some r ∧ r.active = false

/-- `s'` is `s` some time later. -/
structure Later (s s' : PriceStore) : Prop where
  dying : ∀ p, s.dying p → s'.dying p
  tracks : ∀ p, ¬ s'.dying p → Stamped.Tracks (versions p) (priceRows · p) s s'
  present : s.present ⊆ s'.present

variable {lower : String → String} {s s' s'' : PriceStore} {p : String}

theorem Later.refl : Later s s := ⟨fun _ h => h, fun _ _ => .refl, List.Subset.refl _⟩

theorem Later.trans (h : Later s s') (h' : Later s' s'') : Later s s'' where
  dying p hp := h'.dying p (h.dying p hp)
  tracks p hp := (h.tracks p fun hdying => hp (h'.dying p hdying)).trans (h'.tracks p hp)
  present := fun _ hkey => h'.present (h.present hkey)

theorem find?_update {f : ProjectPrices → ProjectPrices}
    {hf : ∀ r, (f r).projectId = r.projectId} {q : String} :
    (s.update p f hf).projects.find? q =
      (s.projects.find? q).map fun r => if r.projectId = p then f r else r := by
  unfold update
  dsimp only
  rw [Table.find?_patch]

/-- Another project's row is left as it is. -/
theorem find?_update_of_ne {f : ProjectPrices → ProjectPrices}
    {hf : ∀ r, (f r).projectId = r.projectId} {q : String} (hq : q ≠ p) :
    (s.update p f hf).projects.find? q = s.projects.find? q := by
  rw [find?_update]
  cases hfind : s.projects.find? q with
  | none => rfl
  | some r =>
    have hne : ¬ r.projectId = p := Table.key_of_find? hfind ▸ hq
    rw [Option.map_some, if_neg hne]

theorem find?_update_self {f : ProjectPrices → ProjectPrices}
    {hf : ∀ r, (f r).projectId = r.projectId} :
    (s.update p f hf).projects.find? p = (s.projects.find? p).map f := by
  rw [find?_update]
  cases hfind : s.projects.find? p with
  | none => rfl
  | some r => rw [Option.map_some, if_pos (Table.key_of_find? hfind), Option.map_some]

/-- An update that lets nothing live again. -/
theorem dying_update {f : ProjectPrices → ProjectPrices}
    {hf : ∀ r, (f r).projectId = r.projectId} (hactive : ∀ r, r.active = false →
      (f r).active = false) {q : String} (h : s.dying q) : (s.update p f hf).dying q := by
  obtain ⟨r, hr, hdead⟩ := h
  by_cases hq : q = p
  · subst hq
    exact ⟨f r, by rw [find?_update_self, hr, Option.map_some], hactive r hdead⟩
  · exact ⟨r, by rw [find?_update_of_ne hq, hr], hdead⟩

theorem priceRows_append {added : List Price} (h : s'.prices = s.prices ++ added) :
    s'.priceRows p = s.priceRows p ++ (added.filter (visible p)).map Price.toPriceRow := by
  rw [priceRows, h, List.filter_append, List.map_append]
  rfl

theorem present_append {added : List Price} (h : s'.prices = s.prices ++ added) :
    s'.present = s.present ++ (added.filter (·.projectId = none)).map seedKey := by
  rw [present, h, List.filter_append, List.map_append]
  rfl

/-- Built-in rows are added, and the built-in version moves. -/
theorem Later.of_builtin {added : List Price} (hprojects : s'.projects = s.projects)
    (hprices : s'.prices = s.prices ++ added)
      (hversion : s.builtinPriceVersion < s'.builtinPriceVersion)
    (hadded : added ≠ []) (hbuiltin : ∀ r ∈ added, r.projectId = none) : Later s s' where
  dying p h := by rwa [PriceStore.dying, hprojects]
  tracks p _ := by
    refine .of_append (Prod.mk_lt_mk.mpr (Or.inr ⟨?_, hversion⟩)) (priceRows_append hprices) ?_
    · rw [hprojects]
    · have hall : added.filter (visible p) = added :=
        List.filter_eq_self.mpr fun r hr => decide_eq_true (Or.inl (hbuiltin r hr))
      rw [hall]
      exact fun hnil => hadded (List.map_eq_nil_iff.mp hnil)
  present := by
    rw [present_append hprices]
    exact List.subset_append_left _ _

theorem add_later {projectId : Option String} {price : NewPrice} {now : ℤ}
    (h : s.add lower projectId price now = .ok s') : Later s s' := by
  unfold add at h
  split at h
  · cases h
  · next valid _ =>
    split at h
    · obtain rfl := Except.ok.inj h
      exact .of_builtin rfl rfl (Nat.lt_succ_self _) (List.cons_ne_nil _ _)
        fun r hr => List.mem_singleton.mp hr ▸ rfl
    · next p =>
      split at h
      · next hactive =>
        obtain rfl := Except.ok.inj h
        obtain ⟨r, hr, -⟩ := (Option.any_eq_true _ _).mp hactive
        have hprices : ((s.update p bump bump_projectId).insert (some p) valid now).prices =
            s.prices ++ [row s.nextId (some p) valid now] := rfl
        have hdying (q : String) (hq : s.dying q) : (s.update p bump bump_projectId).dying q :=
          dying_update (f := bump) (fun _ h => h) hq
        refine ⟨hdying, fun q _ => ?_, ?_⟩
        · by_cases hq : q = p
          · subst hq
            refine .of_append (Prod.mk_lt_mk.mpr (Or.inl ⟨?_, le_rfl⟩))
              (priceRows_append hprices) ?_
            · change (s.projects.find? q).elim 0 _ <
                ((s.update q bump bump_projectId).projects.find? q).elim 0 _
              rw [find?_update_self, hr]
              exact Nat.lt_succ_self _
            · have hvisible : visible q (row s.nextId (some q) valid now) = true :=
                decide_eq_true (Or.inr rfl)
              rw [List.filter_cons_of_pos hvisible]
              exact List.cons_ne_nil _ _
          · refine .of_eq ?_ ?_
            · change (((s.update p bump bump_projectId).projects.find? q).elim 0 _, _) = _
              rw [find?_update_of_ne hq]
              rfl
            · have hhidden : ¬ visible q (row s.nextId (some p) valid now) = true := by
                intro hv
                rcases of_decide_eq_true hv with hnone | hsome
                · cases hnone
                · exact hq (Option.some.inj hsome).symm
              change PriceStore.priceRows _ q = s.priceRows q
              rw [priceRows_append hprices, List.filter_cons_of_neg hhidden]
              exact List.append_nil _
        · rw [present_append hprices]
          exact List.subset_append_left _ _
      · cases h

/-! ## Seeding -/

/-- **What the loop adds** is built in, one row for each counted, and after it
every wanted price is present. -/
theorem foldl_seedOne (now : ℤ) : ∀ (wanted : List ValidPrice) (s : PriceStore)
    (present : List SeedKey) (added : ℕ), ∃ rows : List Price,
    (wanted.foldl (seedOne now) (s, present, added)).1.prices = s.prices ++ rows ∧
    (wanted.foldl (seedOne now) (s, present, added)).1.projects = s.projects ∧
    (wanted.foldl (seedOne now) (s, present, added)).1.builtinPriceVersion =
      s.builtinPriceVersion ∧
    (wanted.foldl (seedOne now) (s, present, added)).2.2 = added + rows.length ∧
    (∀ r ∈ rows, r.projectId = none) ∧
    ∀ price ∈ wanted, price.seedKey ∈ present ∨ price.seedKey ∈ rows.map seedKey := by
  intro wanted
  induction wanted with
  | nil => exact fun s _ _ => ⟨[], (List.append_nil _).symm, rfl, rfl, rfl, nofun, nofun⟩
  | cons price wanted ih =>
    intro s present added
    rw [List.foldl_cons, seedOne]
    split
    · next hpresent =>
      obtain ⟨rows, hprices, hprojects, hversion, hcount, hbuiltin, hall⟩ :=
        ih s present added
      refine ⟨rows, hprices, hprojects, hversion, hcount, hbuiltin, fun other hother => ?_⟩
      rcases List.mem_cons.mp hother with rfl | hother
      · exact Or.inl hpresent
      · exact hall other hother
    · obtain ⟨rows, hprices, hprojects, hversion, hcount, hbuiltin, hall⟩ :=
        ih (s.insert none price now) (price.seedKey :: present) (added + 1)
      refine ⟨row s.nextId none price now :: rows, ?_, hprojects, hversion, ?_, ?_, ?_⟩
      · rw [hprices]
        exact List.append_assoc _ _ _
      · rw [hcount, List.length_cons]
        omega
      · exact List.forall_mem_cons.mpr ⟨rfl, hbuiltin⟩
      · intro other hother
        rcases List.mem_cons.mp hother with rfl | hother
        · exact Or.inr List.mem_cons_self
        · rcases hall other hother with hmem | hmem
          · rcases List.mem_cons.mp hmem with heq | hmem
            · exact Or.inr (heq ▸ List.mem_cons_self)
            · exact Or.inl hmem
          · exact Or.inr (List.mem_cons_of_mem _ hmem)

/-- Where every wanted price is present, nothing is added. -/
theorem foldl_seedOne_present {now : ℤ} {present : List SeedKey} {added : ℕ} :
    ∀ {wanted : List ValidPrice}, (∀ price ∈ wanted, price.seedKey ∈ present) →
      wanted.foldl (seedOne now) (s, present, added) = (s, present, added) := by
  intro wanted
  induction wanted with
  | nil => exact fun _ => rfl
  | cons price wanted ih =>
    intro hall
    rw [List.foldl_cons, seedOne, if_pos (hall price List.mem_cons_self)]
    exact ih fun other hother => hall other (List.mem_cons_of_mem _ hother)

/-- A seeding is a later store, in which every wanted price is present. -/
theorem seed_later {prices : List NewPrice} {now : ℤ} {added : ℕ}
    (h : s.seedBuiltins lower prices now = .ok (s', added)) :
    Later s s' ∧ ∃ wanted, prices.mapM (validated lower) = .ok wanted ∧
      ∀ price ∈ wanted, price.seedKey ∈ s'.present := by
  cases hwanted : prices.mapM (validated lower) with
  | error e =>
    rw [seedBuiltins, hwanted] at h
    cases h
  | ok wanted =>
    rw [seedBuiltins, hwanted] at h
    obtain ⟨rows, hprices, hprojects, hversion, hcount, hbuiltin, hall⟩ :=
      foldl_seedOne now wanted s s.present 0
    obtain ⟨hs, -⟩ := Prod.mk.inj (Except.ok.inj h)
    generalize wanted.foldl (seedOne now) (s, s.present, 0) = out at *
    have hprices' : s'.prices = s.prices ++ rows := by
      rw [← hs, ← hprices]
      split <;> rfl
    refine ⟨?_, wanted, rfl, fun price hprice => ?_⟩
    · split at hs
      · next hzero =>
        subst hs
        have hnil : rows = [] := List.eq_nil_of_length_eq_zero (by omega)
        rw [hnil, List.append_nil] at hprices
        refine ⟨fun p hp => by rwa [PriceStore.dying, hprojects], fun p _ => .of_eq ?_ ?_, ?_⟩
        · rw [versions, hprojects, hversion]
          rfl
        · rw [priceRows, hprices]
          rfl
        · rw [present, present, hprices]
          exact List.Subset.refl _
      · next hsome =>
        subst hs
        refine .of_builtin hprojects hprices' (hversion ▸ Nat.lt_succ_self _) ?_ hbuiltin
        rintro rfl
        exact hsome hcount
    · have hadded : (rows.filter (·.projectId = none)) = rows :=
        List.filter_eq_self.mpr fun r hr => decide_eq_true (hbuiltin r hr)
      rw [present_append hprices', hadded]
      exact List.mem_append.mpr (hall price hprice)

/-! ## What a run keeps -/

theorem step_later {op : Op} (h : step lower s op = some s') : Later s s' := by
  cases op with
  | add projectId price now =>
    simp only [step] at h
    cases hadd : s.add lower projectId price now with
    | error e =>
      rw [hadd] at h
      cases h
    | ok s₁ =>
      rw [hadd] at h
      obtain rfl := Option.some.inj h
      exact add_later hadd
  | seed prices now =>
    simp only [step] at h
    cases hseed : s.seedBuiltins lower prices now with
    | error e =>
      rw [hseed] at h
      cases h
    | ok out =>
      rw [hseed] at h
      obtain rfl := Option.some.inj h
      exact (seed_later hseed).1
  | provision p =>
    obtain rfl := Option.some.inj h
    have hfind (q : String) : (s.projects.insert ⟨p, 0, true⟩).find? q =
        (s.projects.find? q).or (if p = q then some ⟨p, 0, true⟩ else none) := Table.find?_insert
    refine ⟨fun q hq => ?_, fun q _ => .of_eq ?_ rfl, List.Subset.refl _⟩
    · obtain ⟨r, hr, hdead⟩ := hq
      exact ⟨r, (hfind q).trans (by rw [hr]; rfl), hdead⟩
    · rw [versions, hfind]
      cases hq : s.projects.find? q with
      | some r => rw [versions, hq]; rfl
      | none =>
        rw [versions, hq]
        split <;> rfl
  | beginDeletion p =>
    obtain ⟨r, -, rfl⟩ := Option.map_eq_some_iff.mp h
    refine ⟨fun q hq => dying_update (fun _ _ => rfl) hq, fun q _ => .of_eq ?_ rfl,
      List.Subset.refl _⟩
    by_cases hq : q = p
    · subst hq
      rw [versions, find?_update_self, versions]
      cases s.projects.find? q <;> rfl
    · rw [versions, find?_update_of_ne hq]
      rfl
  | deleteRows p =>
    obtain ⟨r, hr, h⟩ := Option.bind_eq_some_iff.mp h
    split at h
    · cases h
    next hdead =>
    obtain rfl := Option.some.inj h
    refine ⟨fun q hq => hq, fun q hq => .of_eq rfl ?_, fun key hkey => ?_⟩
    · have hne : q ≠ p := by
        rintro rfl
        exact hq ⟨r, hr, Bool.eq_false_iff.mpr hdead⟩
      rw [priceRows, List.filter_filter]
      refine congrArg _ (List.filter_congr fun price _ => ?_)
      refine Bool.and_eq_left_iff_imp.mpr fun hvisible => decide_eq_true ?_
      rcases of_decide_eq_true hvisible with hnone | hsome
      · rw [hnone]
        nofun
      · rw [hsome]
        exact fun heq => hne (Option.some.inj heq)
    · obtain ⟨price, hprice, rfl⟩ := List.mem_map.mp hkey
      obtain ⟨hmem, hnone⟩ := List.mem_filter.mp hprice
      refine List.mem_map_of_mem (List.mem_filter.mpr ⟨List.mem_filter.mpr ⟨hmem, ?_⟩, hnone⟩)
      rw [of_decide_eq_true hnone]
      rfl

theorem run_later (later : List Op) : Later s (run lower s later) :=
  Transition.run_invariant (P := Later s) (fun _ _ _ h hstep => h.trans (step_later hstep))
    later s .refl

/-- **The two versions say what a call is priced from.** Whatever is added,
seeded and deleted meanwhile, what a project's calls are priced from is what it
was exactly while the two versions are what they were, and never loses a row. -/
theorem versions_eq_iff (s : PriceStore) (later : List Op)
    (h : ¬ (run lower s later).dying p) :
    (versions p s = versions p (run lower s later) ↔
      s.priceRows p = (run lower s later).priceRows p) ∧
    s.priceRows p <+: (run lower s later).priceRows p :=
  ⟨((run_later later).tracks p h).same, ((run_later later).tracks p h).grows⟩

/-- A release's only price. -/
def shipped : NewPrice := ⟨"openai", "tts-1", "character", 15, 1, 0, none, none⟩

/-- A project with a price of its own, and what runs after that. -/
def priced : PriceStore := run id empty [.provision "p", .add (some "p") shipped 5]

def repriced : List Op :=
  [.seed [shipped] 6, .add (some "p") { shipped with effectiveFromUnixNano := 1 } 7, .provision "q",
    .beginDeletion "q", .deleteRows "q"]

theorem versions_eq_iff_repriced :
    (versions "p" priced = versions "p" (run id priced repriced) ↔
      priceRows priced "p" = (run id priced repriced).priceRows "p") ∧
    priceRows priced "p" <+: (run id priced repriced).priceRows "p" :=
  versions_eq_iff priced repriced fun ⟨r, hr, hactive⟩ => by
    have hread := congrArg (Option.map ProjectPrices.active) hr
    rw [Option.map_some, hactive] at hread
    revert hread
    decide +kernel

/-- **Seeding is idempotent**: once a release's prices were seeded, seeding them
again adds no row and moves no version, whatever ran in between. -/
theorem seed_again (prices : List NewPrice) (now now' : ℤ) (later : List Op) {added : ℕ}
    (h : s.seedBuiltins lower prices now = .ok (s', added)) :
    (run lower s' later).seedBuiltins lower prices now' = .ok (run lower s' later, 0) := by
  obtain ⟨-, wanted, hwanted, hpresent⟩ := seed_later h
  have hkept : ∀ price ∈ wanted, price.seedKey ∈ (run lower s' later).present :=
    fun price hprice => (run_later later).present (hpresent price hprice)
  rw [seedBuiltins, hwanted, Except.map, foldl_seedOne_present hkept]
  rfl

/-- The store `shipped` was seeded into. -/
def shippedOnce : PriceStore :=
  ⟨.empty, 1, [⟨⟨1, none, "openai", "tts-1", "character", 15, 1, 0, by decide, by decide⟩,
    none, none, 5⟩], 2⟩

theorem seed_again_shipped :
    (run id shippedOnce [.add none shipped 7]).seedBuiltins id [shipped] 9 =
      .ok (run id shippedOnce [.add none shipped 7], 0) :=
  seed_again (s := empty) [shipped] 5 9 _ (by rfl)

end PriceStore

end Earshot.Costs
