import Earshot.Costs.Usage
import Mathlib.Algebra.Order.Group.MinMax
/-!
# Every report is counted once

The entries of a call's usage are read back key by key: those of one
operation, provider, model and meter, those that name one request, those of
one speech-to-text provider and model. Each reading is a filter of the entries
and says which ones there are, so an entry counted twice or left out would
show.
-/

namespace Earshot.Costs

open Bisect Grouping

open Binary64 (roundHalfEven)

variable {fl : ℚ → Option ℚ} {items : List UsageItem} {userAudioMs : Option ℤ}

/-- The number of thousandths an item counts for: what it reports, where that is
a whole number; and of a fraction of a second a whole number, at least one, that
is no further from it than half a thousandth and the error of one product. -/
def UsageItem.CountsFor (item : UsageItem) (milli : ℤ) : Prop :=
  match item.quantity with
  | none => milli = 0
  | some (.int n) => milli = n * 1000
  | some (.float x) =>
    1 ≤ milli ∧ |(milli : ℚ) - max 1 (x * 1000)| ≤ 1 / 2 + Binary64.error (x * 1000)

/-- What the code counts an item for. -/
def UsageItem.milli (fl : ℚ → Option ℚ) (item : UsageItem) : ℤ :=
  match item.quantity with
  | none => 0
  | some (.int n) => n * 1000
  | some (.float x) => audioSecondsMilli fl (.float x)

/-- The reports of one operation, provider, model and meter. -/
def reportsOf (items : List UsageItem)
    (key : String × Option String × Option String × String) : List UsageItem :=
  items.filter fun item => item.quantity.isSome ∧ reportKey item = key

/-- The speech-to-text requests of a provider and model. -/
def sttOf (items : List UsageItem) (key : Option String × Option String) : List UsageItem :=
  items.filter fun item => item.operation = "stt" ∧ providerModel item = key

/-- Some primary meter of the request is unknown. -/
def LeavesUnknown (items : List UsageItem) (request : String × String × String) : Prop :=
  ∃ item ∈ items, requestKey item = request ∧ item.quantity = none ∧
    item.meter ∈ primaryMeters request.2.2

instance decidableLeavesUnknown (items : List UsageItem) (request : String × String × String) :
    Decidable (LeavesUnknown items request) :=
  inferInstanceAs (Decidable (∃ item ∈ items, _))

/-- What an entry says is reported, if it is of that key. -/
def UsageEntry.Reports (key : String × Option String × Option String × String)
    (entry : UsageEntry) : Prop :=
  entry.kind = .reported ∧ (entry.operation, entry.provider, entry.model) =
    (key.1, key.2.1, key.2.2.1) ∧ entry.unit = some key.2.2.2

/-- The entry says that this request reported nothing. -/
def UsageEntry.Disclaims (operation : String) (span : Span) (entry : UsageEntry) : Prop :=
  entry.kind = .notReported ∧ entry.operation = operation ∧ entry.span = some span

/-- The entry stands for the unreported audio of a provider and model. -/
def UsageEntry.StandsFor (key : Option String × Option String) (entry : UsageEntry) : Prop :=
  entry.kind ≠ .reported ∧ entry.operation = "stt" ∧ (entry.provider, entry.model) = key ∧
    entry.span = none

instance decidableReports (key : String × Option String × Option String × String)
    (entry : UsageEntry) : Decidable (entry.Reports key) :=
  inferInstanceAs (Decidable (_ ∧ _))

instance decidableDisclaims (operation : String) (span : Span) (entry : UsageEntry) :
    Decidable (entry.Disclaims operation span) :=
  inferInstanceAs (Decidable (_ ∧ _))

instance decidableStandsFor (key : Option String × Option String) (entry : UsageEntry) :
    Decidable (entry.StandsFor key) :=
  inferInstanceAs (Decidable (_ ∧ _))

/-- What the entries of a call's usage say of its items. -/
structure Accounts (items : List UsageItem) (userAudioMs : Option ℤ)
    (usage : List UsageEntry) : Prop where
  /-- A key somebody reported has one entry, of the sum of what its reports count
  for. -/
  reports : ∀ key, ∃ millis : List ℤ,
    List.Forall₂ UsageItem.CountsFor (reportsOf items key) millis ∧
    ((usage.filter (·.Reports key)).map fun entry => (entry.quantityMilli, entry.span)) =
      if reportsOf items key = [] then []
      else [(some millis.sum, soleSpan ((reportsOf items key).map (·.span)))]
  /-- Every reported entry has a key. -/
  metered : ∀ entry ∈ usage, entry.kind = .reported → entry.unit.isSome = true
  /-- A request that leaves a primary meter unknown is disclaimed once. -/
  unknown : ∀ traceId spanId operation, operation ≠ "stt" →
    (usage.filter (·.Disclaims operation ⟨traceId, spanId⟩)).length =
      if LeavesUnknown items (traceId, spanId, operation) then 1 else 0
  /-- So is every unreported request whose provider and model has a report. -/
  unheard : ∀ key span,
    (usage.filter fun entry => entry.Disclaims "stt" span ∧
      (entry.provider, entry.model) = key).length =
    if ∃ item ∈ sttOf items key, item.quantity.isSome = true then
      ((sttOf items key).filter fun item => item.quantity = none ∧ item.span = span).length
    else 0
  /-- Where none has, one entry has the call's audio for its quantity. -/
  estimated : ∀ key, ((usage.filter (·.StandsFor key)).map fun entry =>
      (entry.kind, entry.quantityMilli)) =
    if sttOf items key ≠ [] ∧ ∀ item ∈ sttOf items key, item.quantity = none then
      [(if userAudioMs = none then .notReported else .estimate, userAudioMs)]
    else []
  /-- Only audio seconds are estimated, for a provider and model. -/
  onlyAudio : ∀ entry ∈ usage, entry.kind = .estimate →
    entry.operation = "stt" ∧ entry.span = none
  /-- What is not reported names its request, or is the audio of a provider
  and model. -/
  named : ∀ entry ∈ usage, entry.kind = .notReported → entry.operation ≠ "stt" →
    entry.span.isSome = true

/-! ## Sums and the order of a list -/

theorem foldl_add (l : List UsageItem) (tally : Tally) : l.foldl Tally.add tally =
    ⟨tally.quantityMilli + (l.map (·.count * 1000)).sum, tally.spans ++ l.map (·.span)⟩ := by
  induction l generalizing tally with
  | nil => simp
  | cons item l ih =>
    rw [List.foldl_cons, ih, Tally.add, List.map_cons, List.sum_cons, List.map_cons]
    simp [add_assoc]

theorem soleSpan_perm {l l' : List Span} (h : l.Perm l') : soleSpan l = soleSpan l' := by
  rw [soleSpan, soleSpan, h.length_eq]
  split
  · rename_i hone
    obtain ⟨span, rfl⟩ := List.length_eq_one_iff.mp (h.length_eq.trans hone)
    rw [List.singleton_perm.mp h]
  · rfl

theorem milli_counted {item : UsageItem} (h : item.operation ≠ "stt") :
    item.count * 1000 = item.milli fl := by
  unfold UsageItem.count UsageItem.milli
  cases hquantity : item.quantity with
  | none => rfl
  | some quantity =>
    cases quantity with
    | int n => rfl
    | float x => exact absurd hquantity (item.counted h x)

theorem milli_heard {item : UsageItem} {quantity : Quantity} (h : item.operation = "stt")
    (hquantity : item.quantity = some quantity) :
    audioSecondsMilli fl quantity = item.milli fl := by
  unfold UsageItem.milli
  rw [hquantity]
  cases quantity with
  | int n =>
    have hpos := item.positive h n hquantity
    exact max_eq_right (by omega)
  | float x => rfl

/-- A whole number near to one is near to its maximum with one. -/
theorem abs_max_sub_le {milli : ℤ} {x bound : ℚ} (h : |(milli : ℚ) - x| ≤ bound) :
    |((max 1 milli : ℤ) : ℚ) - max 1 x| ≤ bound := by
  rw [Int.cast_max, Int.cast_one]
  exact (abs_max_sub_max_le_max 1 (milli : ℚ) 1 x).trans (by simpa using h)

/-- **A fraction of a second is rounded.** -/
theorem audioSecondsMilli_float (x : ℚ) :
    1 ≤ audioSecondsMilli Binary64.round (.float x) ∧
      |(audioSecondsMilli Binary64.round (.float x) : ℚ) - max 1 (x * 1000)| ≤
        1 / 2 + Binary64.error (x * 1000) := by
  rw [audioSecondsMilli]
  cases hscaled : Binary64.round (x * 1000) with
  | some scaled =>
    dsimp only
    refine ⟨le_max_left _ _, abs_max_sub_le ?_⟩
    have hproduct := Binary64.abs_sub_round_le hscaled
    have hround := Binary64.abs_sub_roundHalfEven_le scaled
    rw [abs_sub_comm] at hproduct hround
    exact (abs_sub_le _ scaled _).trans (add_le_add hround hproduct)
  | none =>
    dsimp only
    refine ⟨le_max_left _ _, abs_max_sub_le ?_⟩
    -- half a second is less than what floats lose at this size
    have hlost := Binary64.le_error_of_round_none hscaled
    have hround := Binary64.abs_sub_roundHalfEven_le x
    have hthousand : |((roundHalfEven x * 1000 : ℤ) : ℚ) - x * 1000| ≤ 500 := by
      push_cast
      rw [← sub_mul, abs_mul, abs_sub_comm, abs_of_pos (by norm_num : (0 : ℚ) < 1000)]
      linarith
    norm_num at hlost
    linarith

theorem countsFor_milli (item : UsageItem) : item.CountsFor (item.milli Binary64.round) := by
  unfold UsageItem.CountsFor UsageItem.milli
  cases item.quantity with
  | none => rfl
  | some quantity =>
    cases quantity with
    | int n => rfl
    | float x => exact audioSecondsMilli_float x

/-! ## The four parts of the usage -/

theorem filter_callUsage (fl : ℚ → Option ℚ) (items : List UsageItem) (userAudioMs : Option ℤ)
    (p : UsageEntry → Bool) :
    ((callUsage fl items userAudioMs).filter p).Perm
      (((reportedTallies items).flatMap fun tally => [reportedEntry tally]).filter p ++
        (((byProviderModel items).flatMap fun requests => [sttEntry fl userAudioMs requests]).filter
          p ++
          (((byRequest items).flatMap unreportedEntries).filter p ++
            ((byProviderModel items).flatMap sttUnreported).filter p))) := by
  rw [← List.filter_append, ← List.filter_append, ← List.filter_append]
  refine (perm_sortedBy.trans (List.Perm.of_eq ?_)).filter p
  rw [List.append_assoc, List.map_eq_flatMap, List.map_eq_flatMap]

/-- A part without an entry of that kind has none of them. -/
theorem filter_part {α : Type*} {l : List α} {f : α → List UsageEntry} {p : UsageEntry → Bool}
    {q : UsageEntry → Prop} (hq : ∀ a ∈ l, ∀ entry ∈ f a, q entry)
    (hp : ∀ entry, q entry → p entry = true → False) : (l.flatMap f).filter p = [] := by
  refine List.filter_eq_nil_iff.mpr fun entry hentry hpentry => ?_
  obtain ⟨a, ha, hmem⟩ := List.mem_flatMap.mp hentry
  exact hp entry (hq a ha entry hmem) hpentry

theorem reportedEntry_operation
    (tally : (String × Option String × Option String × String) × Tally) :
    (reportedEntry tally).operation = tally.1.1 := rfl

theorem reportedEntry_spec (tally : (String × Option String × Option String × String) × Tally) :
    (reportedEntry tally).Reports tally.1 :=
  ⟨rfl, rfl, rfl⟩

theorem sttEntry_spec (fl : ℚ → Option ℚ) (userAudioMs : Option ℤ)
    (requests : (Option String × Option String) × List UsageItem) :
    (sttEntry fl userAudioMs requests).operation = "stt" ∧
      ((sttEntry fl userAudioMs requests).provider,
        (sttEntry fl userAudioMs requests).model) = requests.1 ∧
      (sttEntry fl userAudioMs requests).unit = some AUDIO_SECOND ∧
      ((requests.2.filter (·.quantity.isSome) ≠ [] ∧
          (sttEntry fl userAudioMs requests).kind = .reported ∧
          (sttEntry fl userAudioMs requests).quantityMilli =
            some (((requests.2.filter (·.quantity.isSome)).filterMap (·.quantity)).map
              (audioSecondsMilli fl)).sum ∧
          (sttEntry fl userAudioMs requests).span =
            soleSpan ((requests.2.filter (·.quantity.isSome)).map (·.span))) ∨
        (requests.2.filter (·.quantity.isSome) = [] ∧
          (sttEntry fl userAudioMs requests).kind =
            (if userAudioMs = none then .notReported else .estimate) ∧
          (sttEntry fl userAudioMs requests).quantityMilli = userAudioMs ∧
          (sttEntry fl userAudioMs requests).span = none)) := by
  obtain ⟨⟨provider, model⟩, requests⟩ := requests
  by_cases hreported : requests.filter (·.quantity.isSome) ≠ []
  · simp only [sttEntry, if_pos hreported]
    exact ⟨trivial, trivial, trivial, Or.inl ⟨hreported, trivial, trivial, trivial⟩⟩
  · simp only [sttEntry, if_neg hreported]
    exact ⟨trivial, trivial, trivial, Or.inr ⟨not_not.mp hreported, trivial, trivial, trivial⟩⟩

theorem sttEntry_kind (requests : (Option String × Option String) × List UsageItem) :
    (sttEntry fl userAudioMs requests).kind = .reported ∨
      (sttEntry fl userAudioMs requests).span = none := by
  obtain ⟨-, -, -, ⟨-, h, -⟩ | ⟨-, -, -, h⟩⟩ := sttEntry_spec fl userAudioMs requests
  · exact Or.inl h
  · exact Or.inr h

theorem mem_sttUnreported {requests : (Option String × Option String) × List UsageItem}
    {entry : UsageEntry} (h : entry ∈ sttUnreported requests) :
    ∃ item ∈ requests.2, item.quantity = none ∧ entry.Disclaims "stt" item.span ∧
      (entry.provider, entry.model) = providerModel item := by
  obtain ⟨key, requests⟩ := requests
  unfold sttUnreported at h
  dsimp only at h
  split at h
  · obtain ⟨item, hitem, rfl⟩ := List.mem_map.mp h
    obtain ⟨hmem, hnone⟩ := List.mem_filter.mp hitem
    exact ⟨item, hmem, of_decide_eq_true hnone, ⟨rfl, rfl, rfl⟩, rfl⟩
  · exact absurd h List.not_mem_nil

/-- A request's entry is of its first item, and there is one exactly when a
primary meter is unknown. -/
theorem unreportedEntries_spec (key : String × String × String) (request : List UsageItem)
    (hkey : ∀ item ∈ request, requestKey item = key) :
    (∀ entry ∈ unreportedEntries (key, request), entry.Disclaims key.2.2 ⟨key.1, key.2.1⟩) ∧
      (unreportedEntries (key, request)).length =
        if missing key.2.2 request = [] then 0 else 1 := by
  obtain ⟨traceId, spanId, operation⟩ := key
  unfold unreportedEntries
  dsimp only
  cases hmissing : missing operation request with
  | nil => exact ⟨fun _ h => absurd h List.not_mem_nil, rfl⟩
  | cons item rest =>
    cases request with
    | nil =>
      have hitem : item ∈ missing operation [] := hmissing ▸ List.mem_cons_self
      exact absurd (List.mem_filter.mp hitem).1 List.not_mem_nil
    | cons first request =>
      have hfirst := hkey first List.mem_cons_self
      unfold requestKey at hfirst
      obtain ⟨htrace, hspan, hoperation⟩ : first.traceId = traceId ∧ first.spanId = spanId ∧
          first.operation = operation := by simpa using hfirst
      refine ⟨fun entry hentry => ?_, rfl⟩
      rw [List.mem_singleton.mp hentry]
      exact ⟨rfl, hoperation, by rw [UsageItem.span, htrace, hspan]⟩

/-! ## What each part's entries are -/

theorem reportedPart : ∀ tally ∈ reportedTallies items, ∀ entry ∈ [reportedEntry tally],
    entry.kind = .reported ∧ entry.operation ≠ "stt" ∧ entry.unit.isSome = true := by
  intro tally htally entry hentry
  obtain ⟨item, hitem, hkey⟩ := key_of_mem_grouped htally
  have hbilled := perm_groups.mem_iff.mp (List.mem_filter.mp hitem).1
  rw [List.mem_singleton.mp hentry]
  refine ⟨rfl, ?_, rfl⟩
  rw [(reportedEntry_operation tally), ← hkey]
  exact of_decide_eq_true (List.mem_filter.mp hbilled).2

theorem sttPart : ∀ requests ∈ byProviderModel items,
    ∀ entry ∈ [sttEntry fl userAudioMs requests], entry.operation = "stt" ∧
      entry.unit.isSome = true ∧ (entry.kind = .reported ∨ entry.span = none) := by
  intro requests _ entry hentry
  rw [List.mem_singleton.mp hentry]
  obtain ⟨hoperation, -, hunit, -⟩ := sttEntry_spec fl userAudioMs requests
  exact ⟨hoperation, by rw [hunit]; rfl, sttEntry_kind requests⟩

theorem unreportedPart : ∀ request ∈ byRequest items, ∀ entry ∈ unreportedEntries request,
    entry.kind = .notReported ∧ entry.operation ≠ "stt" ∧ entry.span.isSome = true := by
  intro request hrequest entry hentry
  obtain ⟨item, hitem, hkey, hgroup⟩ := mem_groupBy hrequest
  have hspec := (unreportedEntries_spec request.1 request.2 fun item hitem => by
    rw [hgroup] at hitem
    exact of_decide_eq_true (List.mem_filter.mp hitem).2).1 entry hentry
  refine ⟨hspec.1, ?_, by rw [hspec.2.2]; rfl⟩
  rw [hspec.2.1, ← hkey]
  exact of_decide_eq_true (List.mem_filter.mp hitem).2

theorem sttUnreportedPart : ∀ requests ∈ byProviderModel items,
    ∀ entry ∈ sttUnreported requests, entry.kind = .notReported ∧ entry.operation = "stt" ∧
      entry.span.isSome = true := by
  intro requests _ entry hentry
  obtain ⟨item, -, -, hspec, -⟩ := mem_sttUnreported hentry
  exact ⟨hspec.1, hspec.2.1, by rw [hspec.2.2]; rfl⟩

/-! ## The entries of a key -/

/-- The reported items of the requests are the items reported. -/
theorem perm_reported (items : List UsageItem)
    (key : String × Option String × Option String × String)
    (hkey : key.1 ≠ "stt") :
    ((((byRequest items).flatMap (·.2)).filter (·.quantity.isSome)).filter
      (reportKey · = key)).Perm (reportsOf items key) := by
  have hperm : ((byRequest items).flatMap (·.2)).Perm (items.filter (·.operation ≠ "stt")) :=
    perm_groups
  refine ((hperm.filter _).filter _).trans (List.Perm.of_eq ?_)
  rw [List.filter_filter, List.filter_filter, reportsOf]
  refine List.filter_congr fun item _ => ?_
  rw [Bool.eq_iff_iff]
  simp only [Bool.and_eq_true, decide_eq_true_eq]
  constructor
  · rintro ⟨⟨hreport, hquantity⟩, -⟩
    exact ⟨hquantity, hreport⟩
  · rintro ⟨hquantity, hreport⟩
    exact ⟨⟨hreport, hquantity⟩, fun h => hkey (hreport ▸ h)⟩

theorem filter_reported (key : String × Option String × Option String × String)
    (hkey : key.1 ≠ "stt") :
    ((((reportedTallies items).flatMap fun tally => [reportedEntry tally]).filter
      (·.Reports key)).map fun entry => (entry.quantityMilli, entry.span)) =
    if reportsOf items key = [] then []
    else [(some ((reportsOf items key).map (·.milli fl)).sum,
      soleSpan ((reportsOf items key).map (·.span)))] := by
  have hperm := perm_reported items key hkey
  rw [reportedTallies, filter_flatMap_grouped (k := key)]
  · by_cases hnone : reportsOf items key = []
    · have hempty := hperm
      rw [hnone] at hempty
      rw [if_pos hnone, if_pos hempty.eq_nil]
      rfl
    · rw [if_neg hnone, if_neg fun hempty => hnone (hempty ▸ hperm).symm.eq_nil]
      have hmilli : ((reportsOf items key).map (·.count * 1000)).sum =
          ((reportsOf items key).map (·.milli fl)).sum := by
        refine congrArg _ (List.map_congr_left fun item hitem => milli_counted fun h => hkey ?_)
        have hreport := (of_decide_eq_true (List.mem_filter.mp hitem).2).2
        rw [← hreport]
        exact h
      have hentry := reportedEntry_spec (key, (((((byRequest items).flatMap (·.2)).filter
        (·.quantity.isSome)).filter (reportKey · = key)).foldl Tally.add ⟨0, []⟩))
      rw [List.filter_singleton, decide_eq_true hentry, foldl_add, ← hmilli]
      refine congrArg (fun x => [x]) (Prod.ext (congrArg some ?_) ?_)
      · exact (zero_add _).trans (hperm.map _).sum_eq
      · exact soleSpan_perm (hperm.map _)
  · intro key' entry hentry hreports
    rw [List.mem_singleton.mp hentry] at hreports
    obtain ⟨-, hnames, hunit⟩ := of_decide_eq_true hreports
    obtain ⟨operation, provider, model, meter⟩ := key'
    obtain ⟨hoperation, hprovider, hmodel⟩ := by simpa using hnames
    exact Prod.ext hoperation (Prod.ext hprovider (Prod.ext hmodel (Option.some.inj hunit)))

theorem sttOf_eq (key : Option String × Option String) :
    (items.filter (·.operation = "stt")).filter (providerModel · = key) = sttOf items key := by
  rw [List.filter_filter, sttOf]
  refine List.filter_congr fun item _ => ?_
  rw [Bool.and_comm]
  exact (Bool.decide_and _ _).symm

/-- The audio reports of a provider and model are in the one meter. -/
theorem reportsOf_stt (key : Option String × Option String) :
    reportsOf items ("stt", key.1, key.2, AUDIO_SECOND) =
      (sttOf items key).filter (·.quantity.isSome) := by
  rw [sttOf, List.filter_filter, reportsOf]
  refine List.filter_congr fun item _ => ?_
  rw [Bool.eq_iff_iff, Bool.and_eq_true, decide_eq_true_eq, decide_eq_true_eq]
  simp only [reportKey, Prod.mk.injEq]
  constructor
  · rintro ⟨hquantity, hoperation, hprovider, hmodel, -⟩
    exact ⟨hquantity, hoperation, Prod.ext hprovider hmodel⟩
  · rintro ⟨hquantity, hoperation, hnames⟩
    exact ⟨hquantity, hoperation, congrArg Prod.fst hnames, congrArg Prod.snd hnames,
      item.heard hoperation⟩

theorem sum_audio {l : List UsageItem} (hstt : ∀ item ∈ l, item.operation = "stt")
    (hsome : ∀ item ∈ l, item.quantity.isSome = true) :
    ((l.filterMap (·.quantity)).map (audioSecondsMilli fl)).sum = (l.map (·.milli fl)).sum := by
  induction l with
  | nil => rfl
  | cons item l ih =>
    obtain ⟨quantity, hquantity⟩ := Option.isSome_iff_exists.mp (hsome item List.mem_cons_self)
    rw [List.filterMap_cons_some hquantity, List.map_cons, List.sum_cons, List.map_cons,
      List.sum_cons, milli_heard (hstt item List.mem_cons_self) hquantity,
      ih (fun item h => hstt item (List.mem_cons_of_mem _ h))
        fun item h => hsome item (List.mem_cons_of_mem _ h)]

theorem mem_sttOf {item : UsageItem} {key : Option String × Option String}
    (h : item ∈ sttOf items key) : item.operation = "stt" ∧ providerModel item = key :=
  of_decide_eq_true (List.mem_filter.mp h).2

theorem filter_sttReported (key : Option String × Option String) (meter : String) :
    ((((byProviderModel items).flatMap fun requests =>
      [sttEntry fl userAudioMs requests]).filter
        (·.Reports ("stt", key.1, key.2, meter))).map fun entry =>
          (entry.quantityMilli, entry.span)) =
    if reportsOf items ("stt", key.1, key.2, meter) = [] then []
    else [(some ((reportsOf items ("stt", key.1, key.2, meter)).map (·.milli fl)).sum,
      soleSpan ((reportsOf items ("stt", key.1, key.2, meter)).map (·.span)))] := by
  rw [byProviderModel, filter_flatMap_groupBy (k := key), sttOf_eq]
  · obtain ⟨hoperation, hnames, hunit, hentry⟩ :=
      sttEntry_spec fl userAudioMs (key, sttOf items key)
    by_cases hmeter : meter = AUDIO_SECOND
    · subst hmeter
      rw [reportsOf_stt]
      rcases hentry with ⟨hreported, hkind, hquantity, hspan⟩ | ⟨hnone, hkind, -⟩
      · have hreports : (sttEntry fl userAudioMs (key, sttOf items key)).Reports
            ("stt", key.1, key.2, AUDIO_SECOND) := ⟨hkind, Prod.ext hoperation hnames, hunit⟩
        rw [if_neg fun h => hreported (by rw [h]; rfl), if_neg hreported, List.filter_singleton,
          decide_eq_true hreports, ← sum_audio
            (fun item h => (mem_sttOf (List.mem_filter.mp h).1).1)
            fun item h => (List.mem_filter.mp h).2, ← hquantity, ← hspan]
        rfl
      · have hnot : ¬ (sttEntry fl userAudioMs (key, sttOf items key)).Reports
            ("stt", key.1, key.2, AUDIO_SECOND) := by
          intro hreports
          have hreported := hkind.symm.trans hreports.1
          split at hreported <;> cases hreported
        rw [if_pos hnone, List.filter_singleton, decide_eq_false hnot]
        split <;> rfl
    · have hnone : reportsOf items ("stt", key.1, key.2, meter) = [] := by
        refine List.filter_eq_nil_iff.mpr fun item _ h => hmeter ?_
        obtain ⟨-, hreport⟩ := of_decide_eq_true h
        obtain ⟨hstt, -, -, hitem⟩ : item.operation = "stt" ∧ item.provider = key.1 ∧
          item.model = key.2 ∧ item.meter = meter := by simpa [reportKey] using hreport
        rw [← hitem, item.heard hstt]
      have hnot : ¬ (sttEntry fl userAudioMs (key, sttOf items key)).Reports
          ("stt", key.1, key.2, meter) := fun h => hmeter (Option.some.inj (h.2.2.symm.trans hunit))
      rw [if_pos hnone, List.filter_singleton, decide_eq_false hnot]
      split <;> rfl
  · intro key' entry hentry hreports
    rw [List.mem_singleton.mp hentry] at hreports
    obtain ⟨-, hnames, -⟩ := of_decide_eq_true hreports
    obtain ⟨-, hnames', -⟩ := sttEntry_spec fl userAudioMs
      (key', (items.filter (·.operation = "stt")).filter (providerModel · = key'))
    exact hnames'.symm.trans (congrArg Prod.snd hnames)

/-! ## The disclaimed requests -/

theorem leavesUnknown_iff (items : List UsageItem) (key : String × String × String)
    (hkey : key.2.2 ≠ "stt") :
    LeavesUnknown items key ↔
      missing key.2.2 ((items.filter (·.operation ≠ "stt")).filter (requestKey · = key)) ≠ [] := by
  constructor
  · rintro ⟨item, hitem, hrequest, hnone, hmeter⟩
    have hoperation : item.operation ≠ "stt" := by
      rw [← hrequest] at hkey
      exact hkey
    exact List.ne_nil_of_mem (List.mem_filter.mpr ⟨List.mem_filter.mpr ⟨List.mem_filter.mpr
      ⟨hitem, decide_eq_true hoperation⟩, decide_eq_true hrequest⟩,
      decide_eq_true ⟨hnone, hmeter⟩⟩)
  · intro hne
    obtain ⟨item, hmem⟩ := List.exists_mem_of_ne_nil _ hne
    obtain ⟨hmem, hmissing⟩ := List.mem_filter.mp hmem
    obtain ⟨hmem, hrequest⟩ := List.mem_filter.mp hmem
    exact ⟨item, (List.mem_filter.mp hmem).1, of_decide_eq_true hrequest,
      of_decide_eq_true hmissing⟩

theorem filter_unreported (traceId spanId operation : String) (hoperation : operation ≠ "stt") :
    (((byRequest items).flatMap unreportedEntries).filter
      (·.Disclaims operation ⟨traceId, spanId⟩)).length =
    if LeavesUnknown items (traceId, spanId, operation) then 1 else 0 := by
  have hspec := fun key : String × String × String => unreportedEntries_spec key
    ((items.filter (·.operation ≠ "stt")).filter (requestKey · = key))
    fun item hitem => of_decide_eq_true (List.mem_filter.mp hitem).2
  have hunknown := leavesUnknown_iff items (traceId, spanId, operation) hoperation
  rw [byRequest, filter_flatMap_groupBy (k := (traceId, spanId, operation))]
  · split
    · rename_i hnone
      rw [hnone] at hunknown
      rw [if_neg fun h => hunknown.mp h rfl]
      rfl
    · obtain ⟨hdisclaims, hlength⟩ := hspec (traceId, spanId, operation)
      rw [List.filter_eq_self.mpr fun entry hentry => decide_eq_true (hdisclaims entry hentry),
        hlength, if_congr hunknown rfl rfl, ite_not]
  · intro key' entry hentry hdisclaims
    obtain ⟨-, hoperation', hspan'⟩ := (hspec key').1 entry hentry
    obtain ⟨-, hoperation, hspan⟩ := of_decide_eq_true hdisclaims
    have heq := Option.some.inj (hspan'.symm.trans hspan)
    exact Prod.ext (congrArg Span.traceId heq) (Prod.ext (congrArg Span.spanId heq)
      (hoperation'.symm.trans hoperation))

theorem filter_sttUnreported (key : Option String × Option String) (span : Span) :
    (((byProviderModel items).flatMap sttUnreported).filter fun entry =>
      entry.Disclaims "stt" span ∧ (entry.provider, entry.model) = key).length =
    if ∃ item ∈ sttOf items key, item.quantity.isSome = true then
      ((sttOf items key).filter fun item => item.quantity = none ∧ item.span = span).length
    else 0 := by
  have hexists : (sttOf items key).filter (·.quantity.isSome) ≠ [] ↔
      ∃ item ∈ sttOf items key, item.quantity.isSome = true := by
    rw [Ne, List.filter_eq_nil_iff]
    push Not
    rfl
  rw [byProviderModel, filter_flatMap_groupBy (k := key), sttOf_eq, ← if_congr hexists rfl rfl]
  · unfold sttUnreported
    dsimp only
    by_cases hreported : (sttOf items key).filter (·.quantity.isSome) ≠ []
    · rw [if_pos hreported, if_neg fun h => hreported (by rw [h]; rfl), if_pos hreported,
        List.filter_map, List.length_map, List.filter_filter]
      refine congrArg _ (List.filter_congr fun item hitem => ?_)
      obtain ⟨-, hkey⟩ := mem_sttOf hitem
      rw [Bool.eq_iff_iff]
      simp only [Function.comp_apply, Bool.and_eq_true, decide_eq_true_eq, UsageEntry.Disclaims,
        Option.some.injEq, true_and]
      exact ⟨fun h => ⟨h.2, h.1.1⟩, fun h => ⟨⟨h.2, hkey⟩, h.1⟩⟩
    · rw [if_neg hreported, if_neg hreported]
      split <;> rfl
  · intro key' entry hentry hp
    obtain ⟨item, hitem, -, -, hnames⟩ := mem_sttUnreported hentry
    rw [← of_decide_eq_true (List.mem_filter.mp hitem).2, ← hnames]
    exact (of_decide_eq_true hp).2

theorem filter_estimated (key : Option String × Option String) :
    ((((byProviderModel items).flatMap fun requests =>
      [sttEntry fl userAudioMs requests]).filter (·.StandsFor key)).map fun entry =>
        (entry.kind, entry.quantityMilli)) =
    if sttOf items key ≠ [] ∧ ∀ item ∈ sttOf items key, item.quantity = none then
      [(if userAudioMs = none then .notReported else .estimate, userAudioMs)]
    else [] := by
  have hnone : (sttOf items key).filter (·.quantity.isSome) = [] ↔
      ∀ item ∈ sttOf items key, item.quantity = none := by
    rw [List.filter_eq_nil_iff]
    simp only [Option.not_isSome_iff_eq_none]
  rw [byProviderModel, filter_flatMap_groupBy (k := key), sttOf_eq]
  · obtain ⟨hoperation, hnames, -, hentry⟩ :=
      sttEntry_spec fl userAudioMs (key, sttOf items key)
    by_cases hempty : sttOf items key = []
    · rw [if_pos hempty, if_neg fun h => h.1 hempty]
      rfl
    · rw [if_neg hempty, List.filter_singleton]
      rcases hentry with ⟨hreported, hkind, -⟩ | ⟨hunreported, hkind, hquantity, hspan⟩
      · rw [if_neg fun h => hreported (hnone.mpr h.2), decide_eq_false fun h => h.1 hkind]
        rfl
      · have hstands : (sttEntry fl userAudioMs (key, sttOf items key)).StandsFor key := by
          refine ⟨fun h => ?_, hoperation, hnames, hspan⟩
          rw [hkind] at h
          split at h <;> cases h
        rw [if_pos ⟨hempty, hnone.mp hunreported⟩, decide_eq_true hstands, ← hkind]
        exact congrArg (fun x => [x]) (Prod.ext rfl hquantity)
  · intro key' entry hentry hp
    rw [List.mem_singleton.mp hentry] at hp
    obtain ⟨-, hnames, -⟩ := sttEntry_spec fl userAudioMs
      (key', (items.filter (·.operation = "stt")).filter (providerModel · = key'))
    exact hnames.symm.trans (of_decide_eq_true hp).2.2.1

/-! ## The whole usage -/

theorem eq_of_perm {α : Type*} {l l' : List α} (h : l.Perm l') (hle : l'.length ≤ 1) : l = l' := by
  match l' with
  | [] => exact h.eq_nil
  | [a] => exact List.perm_singleton.mp h
  | _ :: _ :: _ => exact absurd hle (by simp)

theorem reports_callUsage (key : String × Option String × Option String × String) :
    (((callUsage fl items userAudioMs).filter (·.Reports key)).map fun entry =>
      (entry.quantityMilli, entry.span)) =
    if reportsOf items key = [] then []
    else [(some ((reportsOf items key).map (·.milli fl)).sum,
      soleSpan ((reportsOf items key).map (·.span)))] := by
  have hperm := (filter_callUsage fl items userAudioMs
    (·.Reports key)).map fun entry => (entry.quantityMilli, entry.span)
  have hreported : ∀ entry : UsageEntry, decide (entry.Reports key) = true →
      entry.kind = .notReported → False := fun entry hp h =>
    absurd ((of_decide_eq_true hp).1.symm.trans h) (by decide)
  have hoperation : ∀ entry : UsageEntry, decide (entry.Reports key) = true →
      entry.operation = key.1 := fun entry hp => congrArg Prod.fst (of_decide_eq_true hp).2.1
  rw [filter_part unreportedPart fun entry h hp => hreported entry hp h.1,
    filter_part sttUnreportedPart fun entry h hp => hreported entry hp h.1, List.append_nil,
    List.append_nil] at hperm
  refine eq_of_perm ?_ (by split <;> simp)
  by_cases hstt : key.1 = "stt"
  · rw [filter_part reportedPart fun entry h hp => h.2.1 ((hoperation entry hp).trans hstt),
      List.nil_append] at hperm
    obtain ⟨operation, provider, model, meter⟩ := key
    subst hstt
    rwa [filter_sttReported (provider, model) meter] at hperm
  · rw [filter_part sttPart fun entry h hp => hstt ((hoperation entry hp).symm.trans h.1),
      List.append_nil] at hperm
    rwa [filter_reported key hstt] at hperm

theorem unknown_callUsage (traceId spanId operation : String) (hoperation : operation ≠ "stt") :
    ((callUsage fl items userAudioMs).filter (·.Disclaims operation ⟨traceId, spanId⟩)).length =
      if LeavesUnknown items (traceId, spanId, operation) then 1 else 0 := by
  have hperm := filter_callUsage fl items userAudioMs
    (·.Disclaims operation ⟨traceId, spanId⟩)
  have hstt : ∀ entry : UsageEntry, decide (entry.Disclaims operation ⟨traceId, spanId⟩) = true →
      entry.operation = "stt" → False := fun entry hp h =>
    hoperation ((of_decide_eq_true hp).2.1.symm.trans h)
  rw [filter_part reportedPart fun entry h hp => absurd (h.1.symm.trans (of_decide_eq_true hp).1)
      (by decide), filter_part sttPart fun entry h hp => hstt entry hp h.1,
    filter_part sttUnreportedPart fun entry h hp => hstt entry hp h.2.1, List.nil_append,
    List.nil_append, List.append_nil] at hperm
  rw [hperm.length_eq, filter_unreported traceId spanId operation hoperation]

theorem unheard_callUsage (key : Option String × Option String) (span : Span) :
    ((callUsage fl items userAudioMs).filter fun entry => entry.Disclaims "stt" span ∧
      (entry.provider, entry.model) = key).length =
    if ∃ item ∈ sttOf items key, item.quantity.isSome = true then
      ((sttOf items key).filter fun item => item.quantity = none ∧ item.span = span).length
    else 0 := by
  have hperm := filter_callUsage fl items userAudioMs
    fun entry => entry.Disclaims "stt" span ∧ (entry.provider, entry.model) = key
  have hdisclaims : ∀ entry : UsageEntry, decide (entry.Disclaims "stt" span ∧
      (entry.provider, entry.model) = key) = true → entry.Disclaims "stt" span :=
    fun entry hp => (of_decide_eq_true hp).1
  rw [filter_part reportedPart fun entry h hp => absurd (h.1.symm.trans (hdisclaims entry hp).1)
      (by decide), filter_part sttPart fun entry h hp => ?_,
    filter_part unreportedPart fun entry h hp => h.2.1 (hdisclaims entry hp).2.1, List.nil_append,
    List.nil_append, List.nil_append] at hperm
  · rw [hperm.length_eq, filter_sttUnreported key span]
  · rcases h.2.2 with h | h
    · exact absurd (h.symm.trans (hdisclaims entry hp).1) (by decide)
    · exact absurd (h.symm.trans (hdisclaims entry hp).2.2) (by simp)

theorem estimated_callUsage (key : Option String × Option String) :
    (((callUsage fl items userAudioMs).filter (·.StandsFor key)).map fun entry =>
      (entry.kind, entry.quantityMilli)) =
    if sttOf items key ≠ [] ∧ ∀ item ∈ sttOf items key, item.quantity = none then
      [(if userAudioMs = none then .notReported else .estimate, userAudioMs)]
    else [] := by
  have hperm := (filter_callUsage fl items userAudioMs
    (·.StandsFor key)).map fun entry => (entry.kind, entry.quantityMilli)
  have hspan : ∀ entry : UsageEntry, decide (entry.StandsFor key) = true →
      entry.span.isSome = true → False := fun entry hp h => by
    rw [(of_decide_eq_true hp).2.2.2] at h
    cases h
  rw [filter_part reportedPart fun entry h hp => (of_decide_eq_true hp).1 h.1,
    filter_part unreportedPart fun entry h hp => hspan entry hp h.2.2,
    filter_part sttUnreportedPart fun entry h hp => hspan entry hp h.2.2, List.nil_append,
    List.append_nil, List.append_nil, filter_estimated key] at hperm
  exact eq_of_perm hperm (by split <;> simp)

/-- **Every report is counted once**, every request that left a meter unknown
is disclaimed once, and audio nobody reported stands in one entry. -/
theorem accounts_callUsage :
    Accounts items userAudioMs (callUsage Binary64.round items userAudioMs) := by
  have hmem : ∀ entry ∈ callUsage Binary64.round items userAudioMs,
      (entry.kind = .reported ∧ entry.operation ≠ "stt" ∧ entry.unit.isSome = true) ∨
      (entry.operation = "stt" ∧ entry.unit.isSome = true ∧
        (entry.kind = .reported ∨ entry.span = none)) ∨
      (entry.kind = .notReported ∧ entry.operation ≠ "stt" ∧ entry.span.isSome = true) ∨
      (entry.kind = .notReported ∧ entry.operation = "stt" ∧ entry.span.isSome = true) := by
    intro entry hentry
    have hfilter := (filter_callUsage Binary64.round items userAudioMs fun _ => true).mem_iff.mp
      (List.mem_filter.mpr ⟨hentry, rfl⟩)
    simp only [List.filter_true, List.mem_append, List.mem_flatMap] at hfilter
    rcases hfilter with ⟨a, ha, h⟩ | ⟨a, ha, h⟩ | ⟨a, ha, h⟩ | ⟨a, ha, h⟩
    · exact Or.inl (reportedPart a ha entry h)
    · exact Or.inr (Or.inl (sttPart a ha entry h))
    · exact Or.inr (Or.inr (Or.inl (unreportedPart a ha entry h)))
    · exact Or.inr (Or.inr (Or.inr (sttUnreportedPart a ha entry h)))
  refine
    { reports := fun key => ⟨_, List.forall₂_map_right_iff.mpr
        (List.forall₂_same.mpr fun item _ => countsFor_milli item), reports_callUsage key⟩
      metered := fun entry hentry hkind => ?_
      unknown := unknown_callUsage
      unheard := unheard_callUsage
      estimated := estimated_callUsage
      onlyAudio := fun entry hentry hkind => ?_
      named := fun entry hentry hkind hoperation => ?_ }
  · rcases hmem entry hentry with ⟨-, -, h⟩ | ⟨-, h, -⟩ | ⟨h, -⟩ | ⟨h, -⟩
    · exact h
    · exact h
    · exact absurd (hkind.symm.trans h) (by decide)
    · exact absurd (hkind.symm.trans h) (by decide)
  · rcases hmem entry hentry with ⟨h, -⟩ | ⟨hoperation, -, h | h⟩ | ⟨h, -⟩ | ⟨h, -⟩
    · exact absurd (hkind.symm.trans h) (by decide)
    · exact absurd (hkind.symm.trans h) (by decide)
    · exact ⟨hoperation, h⟩
    · exact absurd (hkind.symm.trans h) (by decide)
    · exact absurd (hkind.symm.trans h) (by decide)
  · rcases hmem entry hentry with ⟨h, -⟩ | ⟨h, -⟩ | ⟨-, -, h⟩ | ⟨-, -, h⟩
    · exact absurd (hkind.symm.trans h) (by decide)
    · exact absurd h hoperation
    · exact h
    · exact h

/-! ## What is rounded, and what is not estimated -/

/-- The number an item reports, in thousandths of its unit. -/
def UsageItem.thousandths (item : UsageItem) : ℚ :=
  match item.quantity with
  | none => 0
  | some (.int n) => n * 1000
  | some (.float x) => x * 1000

/-- Every sum is the exact one, and audio nobody reported is always
estimated. -/
def ExactAndEstimated (items : List UsageItem) (usage : List UsageEntry) : Prop :=
  (∀ key, reportsOf items key ≠ [] → ∃ entry ∈ usage, entry.Reports key ∧
    ∃ milli : ℤ, entry.quantityMilli = some milli ∧
      (milli : ℚ) = ((reportsOf items key).map (·.thousandths)).sum) ∧
  ∀ key, sttOf items key ≠ [] → (∀ item ∈ sttOf items key, item.quantity = none) →
    ∃ entry ∈ usage, entry.StandsFor key ∧ entry.kind = .estimate

/-- A report of half a millisecond of audio. -/
def shortReport : UsageItem :=
  { operation := "stt", provider := none, model := none, meter := AUDIO_SECOND
    quantity := some (.float (1 / 2048)), traceId := "t", spanId := "s"
    counted := fun h => absurd rfl h
    heard := fun _ => rfl
    positive := by simp }

/-- A request for audio that reports nothing. -/
def silentRequest : UsageItem :=
  { shortReport with
    quantity := none
    counted := fun h => absurd rfl h
    heard := fun _ => rfl
    positive := by simp }

/-- **A report is rounded to a millisecond, and audio of unknown length is not
estimated.** -/
theorem not_exactAndEstimated :
    ¬ ExactAndEstimated [shortReport] (callUsage Binary64.round [shortReport] none) ∧
      ¬ ExactAndEstimated [silentRequest] (callUsage Binary64.round [silentRequest] none) := by
  constructor
  · rintro ⟨hreports, -⟩
    obtain ⟨entry, hentry, -, milli, hmilli, hsum⟩ :=
      hreports ("stt", none, none, AUDIO_SECOND) (by decide)
    have hall : ∀ entry ∈ callUsage Binary64.round [shortReport] none, entry.quantityMilli =
      some 1 := by
      decide +kernel
    have hone := Option.some.inj (hmilli.symm.trans (hall entry hentry))
    subst hone
    have hshort : ((1 : ℤ) : ℚ) ≠ ((reportsOf [shortReport]
        ("stt", none, none, AUDIO_SECOND)).map (·.thousandths)).sum := by
      decide +kernel
    exact hshort hsum
  · rintro ⟨-, hestimated⟩
    obtain ⟨entry, hentry, -, hkind⟩ := hestimated (none, none) (by decide) (by decide)
    have hall : ∀ entry ∈ callUsage Binary64.round [silentRequest] none, entry.kind =
      .notReported := by
      decide +kernel
    exact absurd (hkind.symm.trans (hall entry hentry)) (by decide)

end Earshot.Costs
