import Earshot.Effects.Batch
/-!
# What a batch does to the catalog

`Recorded` says it table by table, in terms of the catalog the batch found:
which span rows go and come, which rows its traces have afterwards, and
what its calls are credited with. `recorded_of_record` proves it of
`record`, and every later argument about a batch reads it from there.
-/

namespace Earshot

open Relational

/-! ## Deleting traces -/

/-- Only traces, spans and resources may differ. -/
structure Catalog.OnlyTraces (c c' : Catalog) : Prop where
  projects : c'.projects = c.projects
  calls : c'.calls = c.calls
  recordings : c'.recordings = c.recordings
  callRevisions : c'.callRevisions = c.callRevisions
  callKeyGenerations : c'.callKeyGenerations = c.callKeyGenerations
  callTombstones : c'.callTombstones = c.callTombstones
  otlpCounters : c'.otlpCounters = c.otlpCounters

namespace Catalog

variable {c c' : Catalog} {p : ProjectId} {t : TraceId} {k : ProjectId × TraceId}

theorem OnlyTraces.refl (c : Catalog) : OnlyTraces c c := ⟨rfl, rfl, rfl, rfl, rfl, rfl, rfl⟩

theorem OnlyTraces.trans {c₁ c₂ c₃ : Catalog} (h : OnlyTraces c₁ c₂) (h' : OnlyTraces c₂ c₃) :
    OnlyTraces c₁ c₃ where
  projects := h'.projects.trans h.projects
  calls := h'.calls.trans h.calls
  recordings := h'.recordings.trans h.recordings
  callRevisions := h'.callRevisions.trans h.callRevisions
  callKeyGenerations := h'.callKeyGenerations.trans h.callKeyGenerations
  callTombstones := h'.callTombstones.trans h.callTombstones
  otlpCounters := h'.otlpCounters.trans h.otlpCounters

theorem onlyTraces_deleteTrace : OnlyTraces c (c.deleteTrace p t) :=
  ⟨rfl, rfl, rfl, rfl, rfl, rfl, rfl⟩

theorem spans_deleteTrace : (c.deleteTrace p t).spans = c.spans.delete (·.traceKey = (p, t)) := rfl

theorem find?_callTraces_deleteTrace :
    (c.deleteTrace p t).callTraces.find? k =
      if k = (p, t) then none else c.callTraces.find? k := by
  change (c.callTraces.delete (·.key = (p, t))).find? k = _
  rw [Table.find?_delete]
  cases h : c.callTraces.find? k with
  | none => simp
  | some r => simp [Option.filter, Table.key_of_find? h]

/-- One of the stored traces dropped. -/
def dropsKey (p : ProjectId) (gone : List Trace) (k : ProjectId × TraceId) : Bool :=
  (gone.filter (·.row.isSome)).any fun tr => k = (p, tr.traceId)

variable {gone : List Trace}

theorem onlyTraces_dropTraces (c : Catalog) (p : ProjectId) (gone : List Trace) :
    OnlyTraces c (c.dropTraces p gone) := by
  unfold dropTraces
  generalize gone.filter (·.row.isSome) = l
  induction l generalizing c with
  | nil => exact .refl c
  | cons tr l ih => exact onlyTraces_deleteTrace.trans (ih _)

theorem spans_dropTraces : (c.dropTraces p gone).spans.rows =
    c.spans.rows.filter fun s => !dropsKey p gone s.traceKey := by
  unfold dropTraces dropsKey
  generalize gone.filter (·.row.isSome) = l
  induction l generalizing c with
  | nil => simp
  | cons tr l ih =>
      rw [List.foldl_cons, ih, spans_deleteTrace, Table.delete, List.filter_filter]
      refine List.filter_congr fun s _ => ?_
      simp [Bool.and_comm]

theorem find?_callTraces_dropTraces : (c.dropTraces p gone).callTraces.find? k =
    if dropsKey p gone k then none else c.callTraces.find? k := by
  unfold dropTraces dropsKey
  generalize gone.filter (·.row.isSome) = l
  induction l generalizing c with
  | nil => simp
  | cons tr l ih =>
      rw [List.foldl_cons, ih, find?_callTraces_deleteTrace, List.any_cons]
      by_cases hk : k = (p, tr.traceId)
      · simp [hk]
      · simp [hk]

end Catalog

/-! ## The traces kept -/

section Kept

variable (S : CallStore) (c : Catalog) (p : ProjectId) (prepared : List Prepared)
variable (now : UnixNano)

/-- The IDs of the traces the batch keeps. -/
def keptIds : List TraceId :=
  (traceIds prepared).filter fun t => !(resolved S c p prepared now t).dropped

/-- A kept trace, with the target its call's traces share. -/
def keptTrace (t : TraceId) : Trace :=
  { resolved S c p prepared now t with
    target := (resolved S c p prepared now t).target.bind fun u =>
      (keptTargets S c p prepared now).find? (·.callId = u.callId) }

/-- What storing a kept trace's spans finds. -/
def outcome (t : TraceId) : Outcome := storeTrace S c p (keptTrace S c p prepared now t)

/-- The new spans of a kept trace. -/
def newSpans (t : TraceId) : List Prepared := (outcome S c p prepared now t).fresh

/-- The kept traces that go to one call. -/
def callTraceIds (callId : String) : List TraceId :=
  (keptIds S c p prepared now).filter fun t => destination S c p prepared now t = some callId

/-- The spans a trace brings its call beside its new ones: those it was
parked with, when it joins. -/
def joiningSpans (t : TraceId) : List Span :=
  if (c.callTraces.find? (p, t)).isSome && (c.binding (p, t)).isNone then c.spansOf (p, t) else []

/-- What the batch credits a call with. -/
def creditOf (callId : String) : Evidence where
  spans := ((callTraceIds S c p prepared now callId).map fun t =>
    (joiningSpans c p t).length + (newSpans S c p prepared now t).length).sum
  recordings := 0
  endMarker := (callTraceIds S c p prepared now callId).any fun t =>
    (joiningSpans c p t).any (·.endMarker) || (newSpans S c p prepared now t).any (·.endMarker)
  tailSpans := ((callTraceIds S c p prepared now callId).map fun t =>
    (newSpans S c p prepared now t).countP (·.tail)).sum

/-- The rows the batch inserts. -/
def newRows : List Span :=
  (keptIds S c p prepared now).flatMap fun t =>
    (newSpans S c p prepared now t).map (spanRow p now)

/-- A call's row, once credited. -/
def creditedRow (r : Call) : Call :=
  if (creditOf S c p prepared now r.callId).spans = 0 then r
  else r.credited S (creditOf S c p prepared now r.callId) now (c.hasFinal r.key)

end Kept

variable {S : CallStore} {c c' : Catalog} {p : ProjectId} {prepared : List Prepared}
variable {now : UnixNano} {t : TraceId}

theorem mem_keptIds : t ∈ keptIds S c p prepared now ↔
    t ∈ traceIds prepared ∧ ¬ purgedTrace S c p prepared now t := by
  rw [keptIds, List.mem_filter, ← dropped_iff]
  simp

theorem nodup_keptIds : (keptIds S c p prepared now).Nodup := nodup_traceIds.filter _

theorem keptTraces_eq : keptTraces S c p prepared now =
    (keptIds S c p prepared now).map (keptTrace S c p prepared now) := by
  rw [keptTraces, resolveTargets, List.filter_map, List.map_map]
  rfl

theorem dropsKey_goneTraces {k : ProjectId × TraceId} :
    Catalog.dropsKey p (goneTraces S c p prepared now) k = true ↔
      k.1 = p ∧ k.2 ∈ traceIds prepared ∧ (c.callTraces.find? k).isSome = true ∧
        purgedTrace S c p prepared now k.2 := by
  obtain ⟨p', t⟩ := k
  rw [Catalog.dropsKey, goneTraces, List.any_eq_true]
  constructor
  · rintro ⟨tr, htr, hk⟩
    rw [List.mem_filter, List.mem_filter, resolveTargets, List.mem_map] at htr
    obtain ⟨⟨⟨t', ht', rfl⟩, hd⟩, hrow⟩ := htr
    simp only [decide_eq_true_eq, Prod.mk.injEq] at hk
    obtain ⟨rfl, rfl⟩ := hk
    have ht : (resolveTarget S c p' now (batchTrace c p' prepared t')).traceId = t' :=
      resolved_traceId
    rw [ht]
    exact ⟨rfl, ht', (resolved_row (S := S)).symm ▸ hrow, dropped_iff.mp hd⟩
  · rintro ⟨rfl, ht, hrow, hp⟩
    refine ⟨resolved S c p' prepared now t, ?_, by simp⟩
    rw [List.mem_filter, List.mem_filter, resolved_row]
    exact ⟨⟨List.mem_map.mpr ⟨t, ht, rfl⟩, dropped_iff.mpr hp⟩, hrow⟩

@[simp] theorem keptTrace_traceId : (keptTrace S c p prepared now t).traceId = t :=
  resolved_traceId

@[simp] theorem keptTrace_spans :
    (keptTrace S c p prepared now t).spans = prepared.filter (·.traceId = t) := resolved_spans

@[simp] theorem keptTrace_row :
    (keptTrace S c p prepared now t).row = c.callTraces.find? (p, t) := resolved_row

@[simp] theorem outcome_trace :
    (outcome S c p prepared now t).trace = keptTrace S c p prepared now t := storeTrace_trace

theorem resolved_mem_of_kept (ht : t ∈ keptIds S c p prepared now) :
    resolved S c p prepared now t ∈
      (resolveTargets S c p prepared now).filter (!·.dropped) := by
  rw [keptIds, List.mem_filter] at ht
  exact List.mem_filter.mpr ⟨List.mem_map.mpr ⟨t, ht.1, rfl⟩, ht.2⟩

/-- Sharing a target does not move a trace. -/
theorem keptTrace_target (ht : t ∈ keptIds S c p prepared now) :
    (keptTrace S c p prepared now t).target.map (·.callId) =
      destination S c p prepared now t := by
  rw [destination, keptTrace]
  cases h : (resolved S c p prepared now t).target with
  | none => rfl
  | some target =>
      obtain ⟨u, hu, hid⟩ := exists_mem_batchTargets (resolved_mem_of_kept ht) h
      have hsome : ((keptTargets S c p prepared now).find? (·.callId = target.callId)).isSome := by
        rw [List.find?_isSome]
        exact ⟨u, hu, by simpa using hid⟩
      obtain ⟨v, hv⟩ := Option.isSome_iff_exists.mp hsome
      have hvid : v.callId = target.callId := by simpa using List.find?_some hv
      simp only [Option.bind_some, hv, Option.map_some, hvid]

theorem joining_iff (ht : t ∈ keptIds S c p prepared now) :
    (keptTrace S c p prepared now t).joining = true ↔
      (destination S c p prepared now t).isSome = true ∧
        (c.callTraces.find? (p, t)).isSome = true ∧ c.binding (p, t) = none := by
  have hbound : (keptTrace S c p prepared now t).boundTo = c.binding (p, t) := by
    rw [Trace.boundTo, keptTrace_row, Catalog.binding]
  rw [Trace.joining, hbound, keptTrace_row, ← keptTrace_target ht, Option.isSome_map]
  simp [and_assoc]

/-- **The new spans of a kept trace** are, of each span ID, the first of
the batch, unless one is stored. -/
theorem mem_newSpans {s : Prepared} : s ∈ newSpans S c p prepared now t ↔
    prepared.find? (fun x => x.traceId = t && x.spanId = s.spanId) = some s ∧
      ((c.callTraces.find? (p, t)).isSome = true → c.spans.find? (p, t, s.spanId) = none) := by
  rw [newSpans, outcome, mem_fresh, Unstored, keptTrace_spans, keptTrace_row, keptTrace_traceId,
    List.find?_filter]
  simp

theorem newSpans_subset {s : Prepared} (h : s ∈ newSpans S c p prepared now t) :
    s ∈ prepared ∧ s.traceId = t := by
  have hfind := (mem_newSpans.mp h).1
  have hs := List.find?_some hfind
  simp only [Bool.and_eq_true, decide_eq_true_eq] at hs
  exact ⟨List.mem_of_find?_eq_some hfind, hs.1⟩

/-- A trace that is new to the catalog brings a span. -/
theorem newSpans_ne_nil (ht : t ∈ traceIds prepared) (hrow : c.callTraces.find? (p, t) = none) :
    newSpans S c p prepared now t ≠ [] := by
  obtain ⟨s, hs, hst⟩ := mem_traceIds.mp ht
  have hsome : (prepared.find? fun x => x.traceId = t && x.spanId = s.spanId).isSome := by
    rw [List.find?_isSome]
    exact ⟨s, hs, by simp [hst]⟩
  obtain ⟨x, hx⟩ := Option.isSome_iff_exists.mp hsome
  have hxs := List.find?_some hx
  simp only [Bool.and_eq_true, decide_eq_true_eq] at hxs
  have hmem : x ∈ newSpans S c p prepared now t := by
    rw [mem_newSpans, hxs.2]
    exact ⟨hx, fun h => by rw [hrow] at h; cases h⟩
  exact List.ne_nil_of_mem hmem

/-! ## Credits -/

theorem foldl_credit (outcomes : List Outcome) (u : CallTarget) :
    (outcomes.foldl Outcome.credit u).callId = u.callId ∧
    (outcomes.foldl Outcome.credit u).newSpans = u.newSpans +
      ((outcomes.filter fun o => o.trace.target.map (·.callId) = some u.callId).map fun o =>
        o.parkedSpans + o.fresh.length).sum ∧
    (outcomes.foldl Outcome.credit u).tailSpans = u.tailSpans +
      ((outcomes.filter fun o => o.trace.target.map (·.callId) = some u.callId).map fun o =>
        o.fresh.countP (·.tail)).sum ∧
    (outcomes.foldl Outcome.credit u).endMarker = (u.endMarker ||
      (outcomes.filter fun o => o.trace.target.map (·.callId) = some u.callId).any fun o =>
        o.parkedEnded || o.fresh.any (·.endMarker)) := by
  induction outcomes generalizing u with
  | nil => simp
  | cons o outcomes ih =>
      rw [List.foldl_cons]
      obtain ⟨hid, hnew, htail, hend⟩ := ih (Outcome.credit u o)
      by_cases h : o.trace.target.map (·.callId) = some u.callId
      · have hcredit : Outcome.credit u o =
            { u with
              newSpans := u.newSpans + o.parkedSpans + o.fresh.length
              tailSpans := u.tailSpans + o.fresh.countP (·.tail)
              endMarker := u.endMarker || o.parkedEnded || o.fresh.any (·.endMarker) } := by
          rw [Outcome.credit, if_pos h]
        rw [hcredit] at hid hnew htail hend ⊢
        rw [List.filter_cons_of_pos (by simpa using h)]
        refine ⟨hid, ?_, ?_, ?_⟩
        · rw [hnew]
          simp only [List.map_cons, List.sum_cons]
          omega
        · rw [htail]
          simp only [List.map_cons, List.sum_cons]
          omega
        · rw [hend]
          simp only [List.any_cons, Bool.or_assoc]
      · have hcredit : Outcome.credit u o = u := by rw [Outcome.credit, if_neg h]
        rw [hcredit] at hid hnew htail hend ⊢
        rw [List.filter_cons_of_neg (by simpa using h)]
        exact ⟨hid, hnew, htail, hend⟩

/-- The outcomes of the traces that go to one call. -/
theorem filter_outcomes (callId : String) :
    (((keptIds S c p prepared now).map (outcome S c p prepared now)).filter fun o =>
      o.trace.target.map (·.callId) = some callId) =
      (callTraceIds S c p prepared now callId).map (outcome S c p prepared now) := by
  rw [List.filter_map, callTraceIds]
  congr 1
  refine List.filter_congr fun t ht => ?_
  simp only [Function.comp_apply, outcome_trace, keptTrace_target ht]

theorem parked_of_mem_callTraceIds {callId : String}
    (ht : t ∈ callTraceIds S c p prepared now callId) :
    (outcome S c p prepared now t).parkedSpans = (joiningSpans c p t).length ∧
      (outcome S c p prepared now t).parkedEnded = (joiningSpans c p t).any (·.endMarker) := by
  rw [callTraceIds, List.mem_filter, decide_eq_true_eq] at ht
  have hjoin : (keptTrace S c p prepared now t).joining =
      ((c.callTraces.find? (p, t)).isSome && (c.binding (p, t)).isNone) := by
    rw [Bool.eq_iff_iff, joining_iff ht.1, ht.2]
    simp
  have hparked := storeTrace_parked S c p (keptTrace S c p prepared now t)
  rw [hjoin, keptTrace_traceId] at hparked
  exact hparked

/-- A target of the batch, as its first trace brought it. -/
theorem mem_keptTargets {u : CallTarget} (hu : u ∈ keptTargets S c p prepared now) :
    ∃ t ∈ keptIds S c p prepared now, ∃ target,
      (resolved S c p prepared now t).target = some target ∧ u.Agrees target := by
  obtain ⟨tr, htr, target, htarget, hag⟩ := mem_batchTargets hu
  rw [List.mem_filter] at htr
  obtain ⟨t, ht, rfl⟩ := List.mem_map.mp htr.1
  exact ⟨t, List.mem_filter.mpr ⟨ht, htr.2⟩, target, htarget, hag⟩

/-- A fresh target is credited with nothing yet. -/
theorem resolved_target_fresh {target : CallTarget}
    (h : (resolved S c p prepared now t).target = some target) :
    target.newSpans = 0 ∧ target.tailSpans = 0 ∧ target.endMarker = false := by
  rcases resolveTarget_cases S c p prepared now t with
    ⟨callId, -, -, ht⟩ | ⟨-, -, ht⟩ | ⟨-, -, -, -, ht⟩ | ⟨-, -, key, -, -, ht⟩
  · rw [ht] at h
    obtain rfl := Option.some.inj h
    exact ⟨rfl, rfl, rfl⟩
  · rw [ht] at h
    cases h
  · rw [ht] at h
    cases h
  · rw [ht] at h
    obtain rfl := Option.some.inj h
    exact ⟨rfl, rfl, rfl⟩

/-- **A target is credited with what its traces bring.** -/
theorem credit_eq {u : CallTarget} (hu : u ∈ keptTargets S c p prepared now) :
    let v := ((keptIds S c p prepared now).map (outcome S c p prepared now)).foldl
      Outcome.credit u
    v.callId = u.callId ∧
      v.newSpans = (creditOf S c p prepared now u.callId).spans ∧
      ({ spans := v.newSpans, recordings := 0, endMarker := v.endMarker,
         tailSpans := v.tailSpans } : Evidence) = creditOf S c p prepared now u.callId := by
  obtain ⟨t, -, target, htarget, first, hag⟩ := mem_keptTargets hu
  obtain ⟨h₁, h₂, h₃⟩ : u.newSpans = 0 ∧ u.tailSpans = 0 ∧ u.endMarker = false := by
    have hfresh := resolved_target_fresh htarget
    rw [hag]
    exact hfresh
  obtain ⟨hid, hnew, htail, hend⟩ := foldl_credit
    ((keptIds S c p prepared now).map (outcome S c p prepared now)) u
  rw [filter_outcomes, List.map_map, h₁, Nat.zero_add] at hnew
  rw [filter_outcomes, List.map_map, h₂, Nat.zero_add] at htail
  rw [filter_outcomes, List.any_map, h₃, Bool.false_or] at hend
  have hspans : ((callTraceIds S c p prepared now u.callId).map
      ((fun o : Outcome => o.parkedSpans + o.fresh.length) ∘ outcome S c p prepared now)).sum =
      (creditOf S c p prepared now u.callId).spans := by
    rw [creditOf]
    congr 1
    refine List.map_congr_left fun t ht => ?_
    rw [Function.comp_apply, (parked_of_mem_callTraceIds ht).1, newSpans]
  have hended : ((callTraceIds S c p prepared now u.callId).any
      ((fun o : Outcome => o.parkedEnded || o.fresh.any (·.endMarker)) ∘
        outcome S c p prepared now)) = (creditOf S c p prepared now u.callId).endMarker := by
    rw [creditOf, Bool.eq_iff_iff, List.any_eq_true, List.any_eq_true]
    refine exists_congr fun t => and_congr_right fun ht => ?_
    rw [Function.comp_apply, (parked_of_mem_callTraceIds ht).2, newSpans]
  refine ⟨hid, hnew.trans hspans, ?_⟩
  rw [hnew, htail, hend, hspans, hended]
  rfl

/-- The evidence the batch adds, call by call. -/
def batchEvidence (S : CallStore) (c : Catalog) (p : ProjectId) (prepared : List Prepared)
    (now : UnixNano) : List (String × Evidence) :=
  targetEvidence ((keptTargets S c p prepared now).map fun target =>
    ((keptIds S c p prepared now).map (outcome S c p prepared now)).foldl Outcome.credit target)

theorem mem_batchEvidence {e : String × Evidence} :
    e ∈ batchEvidence S c p prepared now ↔
      (∃ u ∈ keptTargets S c p prepared now, u.callId = e.1) ∧
        e.2 = creditOf S c p prepared now e.1 ∧ (creditOf S c p prepared now e.1).spans ≠ 0 := by
  obtain ⟨callId, item⟩ := e
  rw [batchEvidence, targetEvidence, List.mem_map]
  constructor
  · rintro ⟨v, hv, heq⟩
    rw [List.mem_filter, List.mem_map] at hv
    obtain ⟨⟨u, hu, rfl⟩, hne⟩ := hv
    obtain ⟨hid, hnew, hitem⟩ := credit_eq hu
    rw [hid, hitem, Prod.mk.injEq] at heq
    obtain ⟨rfl, rfl⟩ := heq
    exact ⟨⟨u, hu, rfl⟩, rfl, by simpa [hnew] using hne⟩
  · rintro ⟨⟨u, hu, rfl⟩, heq, hne⟩
    obtain ⟨hid, hnew, hitem⟩ := credit_eq hu
    refine ⟨_, List.mem_filter.mpr ⟨List.mem_map.mpr ⟨u, hu, rfl⟩, by simpa [hnew] using hne⟩, ?_⟩
    rw [hid, hitem]
    exact Prod.ext rfl heq.symm

theorem nodup_batchEvidence : ((batchEvidence S c p prepared now).map (·.1)).Nodup := by
  have hids : (((keptTargets S c p prepared now).map fun target =>
      ((keptIds S c p prepared now).map (outcome S c p prepared now)).foldl Outcome.credit
        target).map (·.callId)) = (keptTargets S c p prepared now).map (·.callId) := by
    rw [List.map_map]
    exact List.map_congr_left fun u hu => (credit_eq hu).1
  rw [batchEvidence, targetEvidence, List.map_map]
  refine List.Nodup.sublist (List.Sublist.map _ List.filter_sublist) ?_
  change (((keptTargets S c p prepared now).map fun target =>
      ((keptIds S c p prepared now).map (outcome S c p prepared now)).foldl Outcome.credit
        target).map (·.callId)).Nodup
  rw [hids]
  exact nodup_batchTargets _

/-! ## The record -/

theorem storeTrace_congr {d : Catalog} {tr : Trace}
    (hrows : d.spansOf (p, tr.traceId) = c.spansOf (p, tr.traceId))
    (hfind : ∀ x, d.spans.find? (p, tr.traceId, x) = c.spans.find? (p, tr.traceId, x)) :
    storeTrace S d p tr = storeTrace S c p tr := by
  have hstep : ∀ o : Outcome, o.trace = tr → ∀ s, storeSpan S d p o s = storeSpan S c p o s := by
    intro o ho s
    rw [storeSpan, storeSpan, firstWrite, firstWrite, ho, hfind]
  have hfold : ∀ (l : List Prepared) (o : Outcome), o.trace = tr →
      l.foldl (storeSpan S d p) o = l.foldl (storeSpan S c p) o := by
    intro l
    induction l with
    | nil => intro o _; rfl
    | cons s l ih =>
        intro o ho
        rw [List.foldl_cons, List.foldl_cons, hstep o ho s]
        exact ih _ (by rw [storeSpan_trace, ho])
  unfold storeTrace
  rw [hrows]
  exact hfold _ _ rfl

/-- The catalog after the batch's traces and calls are in place. -/
def withTraces (S : CallStore) (c : Catalog) (p : ProjectId) (prepared : List Prepared)
    (now : UnixNano) : Catalog :=
  (c.dropTraces p (goneTraces S c p prepared now)).insertTraces p
    (keptTraces S c p prepared now) now

/-- A kept trace is not among the dropped. -/
theorem not_dropsKey_of_kept (ht : t ∈ keptIds S c p prepared now) :
    Catalog.dropsKey p (goneTraces S c p prepared now) (p, t) = false := by
  by_contra h
  exact (mem_keptIds.mp ht).2
    (dropsKey_goneTraces.mp (Bool.eq_true_of_not_eq_false h)).2.2.2

/-- Where the dropped traces' spans are gone, a kept trace's are all there. -/
theorem storeTrace_of_dropped {d : Catalog} (ht : t ∈ keptIds S c p prepared now)
    (hd : d.spans = (c.dropTraces p (goneTraces S c p prepared now)).spans) :
    storeTrace S d p (keptTrace S c p prepared now t) = outcome S c p prepared now t := by
  have hkeep := not_dropsKey_of_kept ht
  refine storeTrace_congr ?_ fun x => ?_
  · rw [Catalog.spansOf, Catalog.spansOf, hd, Catalog.spans_dropTraces, List.filter_filter,
      keptTrace_traceId]
    refine List.filter_congr fun s _ => ?_
    by_cases hs : s.traceKey = (p, t)
    · simp [hs, hkeep]
    · simp [hs]
  · rw [hd, keptTrace_traceId]
    refine Table.find?_congr fun s hs => ?_
    have hkey : s.traceKey = (p, t) := by
      rw [Span.key, Prod.mk.injEq, Prod.mk.injEq] at hs
      rw [Span.traceKey, hs.1, hs.2.1]
    rw [Table.mem_def, Table.mem_def, Catalog.spans_dropTraces, List.mem_filter, hkey, hkeep]
    simp

/-- **The stages of a recorded batch.** -/
theorem record_eq_some {preset : CapturePreset} {counts : Counts}
    (h : record S c p prepared preset now = some (c', counts)) :
    ∃ c₂ c₄,
      (withTraces S c p prepared now).insertCalls p (keptTargets S c p prepared now) preset none =
        some c₂ ∧
      (c₂.insertResources p (keptTraces S c p prepared now)).insertSpans
        (newRows S c p prepared now) = some c₄ ∧
      c' = (c₄.updateTraces p ((keptIds S c p prepared now).map (outcome S c p prepared now))
        now).addEvidence S p (batchEvidence S c p prepared now) now := by
  simp only [record, Option.bind_eq_bind, Option.bind_eq_some_iff, Option.pure_def,
    Option.some.injEq, Prod.mk.injEq] at h
  obtain ⟨c₂, h₂, c₄, h₄, rfl, -⟩ := h
  have honly := Catalog.onlyCalls_insertCalls h₂
  have houtcomes : (keptTraces S c p prepared now).map (storeTrace S
      (c₂.insertResources p (keptTraces S c p prepared now)) p) =
      (keptIds S c p prepared now).map (outcome S c p prepared now) := by
    rw [keptTraces_eq, List.map_map]
    refine List.map_congr_left fun t ht => ?_
    exact storeTrace_of_dropped ht honly.spans
  rw [houtcomes] at h₄ ⊢
  refine ⟨c₂, c₄, h₂, ?_, rfl⟩
  rw [newRows, ← h₄, List.flatMap_map]
  rfl

/-! ## Its traces -/

/-- The row of a new trace, before its spans are stored. -/
def newTrace (p : ProjectId) (now : UnixNano) (t : TraceId) : CallTrace :=
  ⟨p, t, none, false, now, now⟩

/-- The row a kept trace has once its spans are stored. -/
def keptRow (S : CallStore) (c : Catalog) (p : ProjectId) (prepared : List Prepared)
    (now : UnixNano) (t : TraceId) (r : CallTrace) : CallTrace :=
  if newSpans S c p prepared now t ≠ [] ∨
      ((c.callTraces.find? (p, t)).isSome ∧ c.binding (p, t) = none ∧
        destination S c p prepared now t ≠ none) then
    { r with
      callId := destination S c p prepared now t
      lastSpanReceivedUnixNano := now
      hasSessionSpan :=
        if (newSpans S c p prepared now t).any (·.sessionSpan) then true else r.hasSessionSpan }
  else r

theorem find?_withTraces (k : ProjectId × TraceId) :
    (withTraces S c p prepared now).callTraces.find? k =
      if k.1 = p ∧ k.2 ∈ keptIds S c p prepared now then
        some ((c.callTraces.find? k).getD (newTrace p now k.2))
      else if Catalog.dropsKey p (goneTraces S c p prepared now) k then none
      else c.callTraces.find? k := by
  obtain ⟨p', t⟩ := k
  rw [withTraces, Catalog.insertTraces, Table.find?_insertAll, Catalog.find?_callTraces_dropTraces,
    keptTraces_eq]
  by_cases hk : p' = p ∧ t ∈ keptIds S c p prepared now
  · obtain ⟨rfl, ht⟩ := hk
    rw [not_dropsKey_of_kept ht, if_neg Bool.false_ne_true, if_pos ⟨rfl, ht⟩]
    cases hrow : c.callTraces.find? (p', t) with
    | some r => rfl
    | none =>
        rw [Option.none_or, Option.getD_none]
        have hmem : newTrace p' now t ∈ ((((keptIds S c p' prepared now).map
            (keptTrace S c p' prepared now)).filter (·.row.isNone)).map fun tr =>
              (⟨p', tr.traceId, none, false, now, now⟩ : CallTrace)) := by
          refine List.mem_map.mpr ⟨keptTrace S c p' prepared now t, ?_, ?_⟩
          · rw [List.mem_filter, keptTrace_row, hrow]
            exact ⟨List.mem_map_of_mem ht, rfl⟩
          · rw [keptTrace_traceId, newTrace]
        have hsome : (((((keptIds S c p' prepared now).map
            (keptTrace S c p' prepared now)).filter (·.row.isNone)).map fun tr =>
              (⟨p', tr.traceId, none, false, now, now⟩ : CallTrace)).find?
                (·.key = (p', t))).isSome := by
          rw [List.find?_isSome]
          exact ⟨_, hmem, decide_eq_true rfl⟩
        obtain ⟨r, hr⟩ := Option.isSome_iff_exists.mp hsome
        have hrk : r.key = (p', t) := by simpa using List.find?_some hr
        obtain ⟨tr, -, rfl⟩ := List.mem_map.mp (List.mem_of_find?_eq_some hr)
        rw [hr]
        rw [CallTrace.key, Prod.mk.injEq] at hrk
        rw [newTrace, ← hrk.2]
  · rw [if_neg hk]
    have hnone : ((((keptIds S c p prepared now).map
        (keptTrace S c p prepared now)).filter (·.row.isNone)).map fun tr =>
          (⟨p, tr.traceId, none, false, now, now⟩ : CallTrace)).find? (·.key = (p', t)) = none := by
      rw [List.find?_eq_none]
      intro r hr hrk
      obtain ⟨tr, htr, rfl⟩ := List.mem_map.mp hr
      obtain ⟨t', ht', rfl⟩ := List.mem_map.mp (List.mem_filter.mp htr).1
      rw [decide_eq_true_eq, CallTrace.key, Prod.mk.injEq, keptTrace_traceId] at hrk
      exact hk ⟨hrk.1.symm, hrk.2 ▸ ht'⟩
    rw [hnone, Option.or_none]

theorem touched_iff (ht : t ∈ keptIds S c p prepared now) :
    (outcome S c p prepared now t).touched = true ↔
      newSpans S c p prepared now t ≠ [] ∨
        ((c.callTraces.find? (p, t)).isSome ∧ c.binding (p, t) = none ∧
          destination S c p prepared now t ≠ none) := by
  rw [Outcome.touched, Bool.or_eq_true, outcome_trace, joining_iff ht, newSpans,
    Option.isSome_iff_ne_none (o := destination S c p prepared now t)]
  refine or_congr (by simp) ?_
  tauto

theorem updateTrace_eq (ht : t ∈ keptIds S c p prepared now) (r : CallTrace) :
    (if (outcome S c p prepared now t).touched then
      (outcome S c p prepared now t).updateTrace now r else r) =
      keptRow S c p prepared now t r := by
  rw [keptRow]
  refine if_congr (touched_iff ht) ?_ rfl
  rw [Outcome.updateTrace, outcome_trace, keptTrace_target ht]
  rfl

theorem find?_updateTraces {d : Catalog} (k : ProjectId × TraceId) :
    (d.updateTraces p ((keptIds S c p prepared now).map (outcome S c p prepared now))
      now).callTraces.find? k =
      if k.1 = p ∧ k.2 ∈ keptIds S c p prepared now then
        (d.callTraces.find? k).map (keptRow S c p prepared now k.2)
      else d.callTraces.find? k := by
  obtain ⟨p', t⟩ := k
  rw [Catalog.updateTraces, Table.find?_patch]
  cases hr : d.callTraces.find? (p', t) with
  | none => simp
  | some r =>
      have hkey : r.key = (p', t) := Table.key_of_find? hr
      rw [Option.map_some, Option.map_some, hkey]
      by_cases hk : p' = p ∧ t ∈ keptIds S c p prepared now
      · obtain ⟨rfl, ht⟩ := hk
        rw [if_pos ⟨rfl, ht⟩, ← updateTrace_eq ht]
        by_cases htouch : (outcome S c p' prepared now t).touched = true
        · have hsome : (((keptIds S c p' prepared now).map (outcome S c p' prepared now)).find?
              fun o => o.touched && (p', o.trace.traceId) = (p', t)).isSome := by
            rw [List.find?_isSome]
            refine ⟨_, List.mem_map_of_mem ht, ?_⟩
            rw [htouch, outcome_trace, keptTrace_traceId]
            simp
          obtain ⟨o, ho⟩ := Option.isSome_iff_exists.mp hsome
          have hot := List.find?_some ho
          obtain ⟨t', -, rfl⟩ := List.mem_map.mp (List.mem_of_find?_eq_some ho)
          simp only [outcome_trace, keptTrace_traceId, Bool.and_eq_true, decide_eq_true_eq,
            Prod.mk.injEq, true_and] at hot
          obtain rfl := hot.2
          rw [ho, if_pos htouch]
        · have hnone : (((keptIds S c p' prepared now).map (outcome S c p' prepared now)).find?
              fun o => o.touched && (p', o.trace.traceId) = (p', t)) = none := by
            rw [List.find?_eq_none]
            intro o ho hot
            obtain ⟨t', -, rfl⟩ := List.mem_map.mp ho
            simp only [outcome_trace, keptTrace_traceId, Bool.and_eq_true, decide_eq_true_eq,
              Prod.mk.injEq, true_and] at hot
            obtain rfl := hot.2
            exact htouch hot.1
          rw [hnone, if_neg htouch]
      · rw [if_neg hk]
        have hnone : (((keptIds S c p prepared now).map (outcome S c p prepared now)).find?
            fun o => o.touched && (p, o.trace.traceId) = (p', t)) = none := by
          rw [List.find?_eq_none]
          intro o ho hot
          obtain ⟨t', ht', rfl⟩ := List.mem_map.mp ho
          simp only [outcome_trace, keptTrace_traceId, Bool.and_eq_true, decide_eq_true_eq,
            Prod.mk.injEq] at hot
          exact hk ⟨hot.2.1.symm, hot.2.2 ▸ ht'⟩
        rw [hnone]

/-! ## The whole batch -/

theorem insertSpans_eq_some {d d' : Catalog} {rows : List Span} (h : d.insertSpans rows = some d') :
    d' = { d with spans := d'.spans } ∧ d'.spans.rows = d.spans.rows ++ rows := by
  rw [Catalog.insertSpans] at h
  split at h
  · rename_i hlen
    obtain rfl := Option.some.inj h
    exact ⟨rfl, Table.rows_insertAll_of_length _ _ hlen⟩
  · cases h

/-- **What a recorded batch leaves**, table by table. -/
structure Recorded (S : CallStore) (c : Catalog) (p : ProjectId) (prepared : List Prepared)
    (preset : CapturePreset) (now : UnixNano) (c' : Catalog) : Prop where
  projects : c'.projects = c.projects
  recordings : c'.recordings = c.recordings
  callRevisions : c'.callRevisions = c.callRevisions
  callKeyGenerations : c'.callKeyGenerations = c.callKeyGenerations
  callTombstones : c'.callTombstones = c.callTombstones
  /-- The spans of dropped traces are gone, the new ones appended. -/
  spans : c'.spans.rows =
    (c.spans.rows.filter fun s => !Catalog.dropsKey p (goneTraces S c p prepared now) s.traceKey) ++
      newRows S c p prepared now
  /-- A kept trace has its row, a dropped one none. -/
  callTraces : ∀ k, c'.callTraces.find? k =
    if k.1 = p ∧ k.2 ∈ keptIds S c p prepared now then
      some (keptRow S c p prepared now k.2 ((c.callTraces.find? k).getD (newTrace p now k.2)))
    else if Catalog.dropsKey p (goneTraces S c p prepared now) k then none
    else c.callTraces.find? k
  /-- Another project's calls are as they were. -/
  calls_other : ∀ k : CallKey, k.1 ≠ p → c'.calls.find? k = c.calls.find? k
  /-- A stored call is credited. -/
  calls_stored : ∀ callId r, c.calls.find? (p, callId) = some r →
    c'.calls.find? (p, callId) = some (creditedRow S c p prepared now r)
  /-- A new call is a target's, credited; its ID was no call's. -/
  calls_new : ∀ callId r, c.calls.find? (p, callId) = none →
    c'.calls.find? (p, callId) = some r →
    ∃ target ∈ keptTargets S c p prepared now, target.created = true ∧ target.callId = callId ∧
      (∃ key, target.key = some key ∧
        r = creditedRow S c p prepared now (Catalog.newCall p target key preset none)) ∧
      ∀ r' ∈ c.calls, r'.callId ≠ callId
  /-- A created target's call is there. -/
  calls_created : ∀ target ∈ keptTargets S c p prepared now, target.created = true →
    (c'.calls.find? (p, target.callId)).isSome = true

/-- A call that is credited with spans has evidence in the batch. -/
theorem mem_batchEvidence_of_credit {callId : String}
    (hne : (creditOf S c p prepared now callId).spans ≠ 0) :
    (callId, creditOf S c p prepared now callId) ∈ batchEvidence S c p prepared now := by
  refine mem_batchEvidence.mpr ⟨?_, rfl, hne⟩
  -- a credited call has a trace, and so a target
  obtain ⟨t, ht⟩ : ∃ t, t ∈ callTraceIds S c p prepared now callId := by
    by_contra hempty
    refine hne ?_
    rw [creditOf, List.eq_nil_iff_forall_not_mem.mpr fun t ht => hempty ⟨t, ht⟩]
    rfl
  rw [callTraceIds, List.mem_filter, decide_eq_true_eq, destination,
    Option.map_eq_some_iff] at ht
  obtain ⟨hkept, target, htarget, rfl⟩ := ht
  exact exists_mem_batchTargets (resolved_mem_of_kept hkept) htarget

/-- **A call of the batch's project** is credited with its own evidence. -/
theorem find?_credited {c₂ c₄ : Catalog} (hcalls : c₄.calls = c₂.calls)
    (hrev : c₄.callRevisions = c.callRevisions) (callId : String) :
    (c₄.updateTraces p ((keptIds S c p prepared now).map (outcome S c p prepared now)) now
      |>.addEvidence S p (batchEvidence S c p prepared now) now).calls.find? (p, callId) =
        (c₂.calls.find? (p, callId)).map (creditedRow S c p prepared now) := by
  have hfind : (c₄.updateTraces p ((keptIds S c p prepared now).map
      (outcome S c p prepared now)) now).calls.find? (p, callId) =
      c₂.calls.find? (p, callId) := by
    change c₄.calls.find? (p, callId) = _
    rw [hcalls]
  by_cases hmem : (callId, creditOf S c p prepared now callId) ∈ batchEvidence S c p prepared now
  · rw [Catalog.find?_addEvidence_of_mem nodup_batchEvidence hmem, hfind]
    have hne := (mem_batchEvidence.mp hmem).2.2
    cases hr : c₂.calls.find? (p, callId) with
    | none => rfl
    | some r =>
        have hkey : r.key = (p, callId) := Table.key_of_find? hr
        have hid : r.callId = callId := congrArg Prod.snd hkey
        rw [Option.map_some, Option.map_some, creditedRow, hid, if_neg hne, hkey]
        congr 2
        exact Catalog.hasFinal_congr hrev _
  · rw [Catalog.find?_addEvidence_of_notMem, hfind]
    · cases hr : c₂.calls.find? (p, callId) with
      | none => rfl
      | some r =>
          have hid : r.callId = callId := congrArg Prod.snd (Table.key_of_find? hr)
          have hzero := not_imp_comm.mp mem_batchEvidence_of_credit hmem
          rw [Option.map_some, creditedRow, hid, if_pos hzero]
    · intro e he heq
      have hid : e.1 = callId := congrArg Prod.snd heq
      refine hmem ?_
      have := (mem_batchEvidence.mp he).2.1
      rw [← hid, ← this]
      exact he

theorem recorded_of_record {preset : CapturePreset} {counts : Counts}
    (h : record S c p prepared preset now = some (c', counts)) :
    Recorded S c p prepared preset now c' := by
  obtain ⟨c₂, c₄, h₂, h₄, rfl⟩ := record_eq_some h
  have hdrop : Catalog.OnlyTraces c (withTraces S c p prepared now) :=
    (Catalog.onlyTraces_dropTraces c p (goneTraces S c p prepared now)).trans
      ⟨rfl, rfl, rfl, rfl, rfl, rfl, rfl⟩
  have hcalls := Catalog.onlyCalls_insertCalls h₂
  obtain ⟨heq₄, hrows₄⟩ := insertSpans_eq_some h₄
  have hadd : Catalog.OnlyCalls
      (c₄.updateTraces p ((keptIds S c p prepared now).map (outcome S c p prepared now)) now)
      ((c₄.updateTraces p ((keptIds S c p prepared now).map (outcome S c p prepared now))
        now).addEvidence S p (batchEvidence S c p prepared now) now) :=
    Catalog.onlyCalls_addEvidence
  have hc₄ : c₄.calls = c₂.calls := by rw [heq₄]; rfl
  have hrev : c₄.callRevisions = c.callRevisions := by
    rw [heq₄]
    exact hcalls.callRevisions.trans hdrop.callRevisions
  have hcredit : ∀ callId, (c₄.updateTraces p ((keptIds S c p prepared now).map
      (outcome S c p prepared now)) now |>.addEvidence S p (batchEvidence S c p prepared now)
        now).calls.find? (p, callId) = (c₂.calls.find? (p, callId)).map
          (creditedRow S c p prepared now) := find?_credited hc₄ hrev
  refine ⟨?_, ?_, ?_, ?_, ?_, ?_, ?_, ?_, ?_, ?_, ?_⟩
  · rw [hadd.projects, Catalog.updateTraces, heq₄]
    exact hcalls.projects.trans hdrop.projects
  · rw [hadd.recordings, Catalog.updateTraces, heq₄]
    exact hcalls.recordings.trans hdrop.recordings
  · rw [hadd.callRevisions]
    exact hrev
  · rw [hadd.callKeyGenerations, Catalog.updateTraces, heq₄]
    exact hcalls.callKeyGenerations.trans hdrop.callKeyGenerations
  · rw [hadd.callTombstones, Catalog.updateTraces, heq₄]
    exact hcalls.callTombstones.trans hdrop.callTombstones
  · have hspans : (c₂.insertResources p (keptTraces S c p prepared now)).spans =
        (c.dropTraces p (goneTraces S c p prepared now)).spans := hcalls.spans
    rw [hadd.spans, Catalog.updateTraces, hrows₄, hspans, Catalog.spans_dropTraces]
  · intro k
    have htraces : c₄.callTraces = (withTraces S c p prepared now).callTraces := by
      rw [heq₄]
      exact hcalls.callTraces
    rw [hadd.callTraces, find?_updateTraces, htraces, find?_withTraces]
    split
    · rfl
    · rfl
  · intro k hk
    rw [Catalog.find?_addEvidence_of_notMem fun e _ heq => hk (congrArg Prod.fst heq).symm]
    change c₄.calls.find? k = _
    rw [hc₄]
    cases hr : c.calls.find? k with
    | some r =>
        refine Catalog.find?_insertCalls_of_some h₂ ?_
        rw [hdrop.calls, hr]
    | none =>
        by_contra hne
        obtain ⟨r, hr'⟩ := Option.ne_none_iff_exists'.mp hne
        obtain ⟨target, -, -, key, -, rfl, -⟩ :=
          Catalog.find?_insertCalls_of_none h₂ (by rw [hdrop.calls, hr]) hr'
        exact hk (congrArg Prod.fst (Table.key_of_find? hr')).symm
  · intro callId r hr
    rw [hcredit, Catalog.find?_insertCalls_of_some h₂ (by rw [hdrop.calls, hr]), Option.map_some]
  · intro callId r hnone hr
    rw [hcredit] at hr
    obtain ⟨r₂, hr₂, rfl⟩ := Option.map_eq_some_iff.mp hr
    obtain ⟨target, htarget, hcreated, key, hkey, rfl, hfresh⟩ :=
      Catalog.find?_insertCalls_of_none h₂ (by rw [hdrop.calls, hnone]) hr₂
    have hid : target.callId = callId := congrArg Prod.snd (Table.key_of_find? hr₂)
    refine ⟨target, htarget, hcreated, hid, ⟨key, hkey, rfl⟩, fun r' hr' => ?_⟩
    rw [← hid]
    exact hfresh r' (by rw [hdrop.calls]; exact hr')
  · intro target htarget hcreated
    obtain ⟨r, hr⟩ := Catalog.exists_find?_insertCalls h₂ htarget hcreated
    rw [hcredit, hr]
    rfl

end Earshot
