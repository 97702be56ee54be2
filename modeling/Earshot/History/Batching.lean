import Earshot.History.Counts
/-!
# Splitting a delivery into batches

A batch groups its spans by trace and sorts each group by span ID; across
batches a trace is first parked, then joins a call, then is bound. Neither
shows in what is stored: the row of a span is that of its first arrival,
and a trace is bound by the first key its spans name, in arrival order
(`binding_recordBatches`, `find?_spans_recordBatches`). Both are read off
the whole sequence, so two splits of it leave the same evidence
(`sameEvidence_of_arrivals_eq`).
-/

namespace Earshot

open Relational

/-- One `record_spans` request of a project. -/
structure SpanBatch where
  prepared : List Prepared
  rejectedSpans : ℕ
  now : UnixNano

/-- The spans the batches bring, in arrival order. -/
def arrivals (batches : List SpanBatch) : List Prepared := batches.flatMap (·.prepared)

/-- The batches recorded one after the other, each of them committed. -/
def Catalog.recordBatches (S : CallStore) (c : Catalog) (p : ProjectId)
    (batches : List SpanBatch) : Option Catalog :=
  batches.foldlM
    (fun c b => (recordSpans S c p b.prepared b.rejectedSpans b.now).map (·.1)) c

/-- A span row but for the time of its arrival, which is its batch's. -/
def Span.untimed (s : Span) : Span := { s with receivedUnixNano := 0 }

/-- **Two catalogs hold the same evidence**: the same span rows, traces
bound alike, and calls that count the same spans and have an end signal
alike. -/
structure SameEvidence (c₁ c₂ : Catalog) : Prop where
  spans : ∀ k, (c₁.spans.find? k).map Span.untimed = (c₂.spans.find? k).map Span.untimed
  bindings : ∀ k, (c₁.callTraces.find? k).map (·.callId) = (c₂.callTraces.find? k).map (·.callId)
  calls : ∀ k, (c₁.calls.find? k).map Call.tally = (c₂.calls.find? k).map Call.tally

namespace Catalog

variable {S : CallStore} {c c' : Catalog} {p : ProjectId} {prepared : List Prepared}
variable {preset : CapturePreset} {now : UnixNano} {t : TraceId}

/-- No tombstone of the project is live. -/
def NoneTombstoned (c : Catalog) (p : ProjectId) (now : UnixNano) : Prop :=
  ∀ fingerprint, c.tombstoned p fingerprint now = false

/-- The call a session key names. -/
def keyCall (S : CallStore) (c : Catalog) (p : ProjectId) (key : SessionKey) : String :=
  S.callId p key.value (c.generation p (S.keyFingerprint p key.value))

/-! ## One batch -/

section Step

variable (hnone : c.NoneTombstoned p now) (h : Recorded S c p prepared preset now c')

include hnone

/-- No trace is dropped. -/
theorem not_purgedTrace : ¬ purgedTrace S c p prepared now t := by
  rintro ⟨-, ⟨-, hpurged⟩ | ⟨key, -, hpurged⟩⟩
  · rw [hnone] at hpurged
    cases hpurged
  · rw [hnone] at hpurged
    cases hpurged

theorem mem_keptIds_iff_traceIds : t ∈ keptIds S c p prepared now ↔ t ∈ traceIds prepared := by
  rw [mem_keptIds]
  exact and_iff_left (not_purgedTrace hnone)

theorem dropsKey_eq_false (k : ProjectId × TraceId) :
    dropsKey p (goneTraces S c p prepared now) k = false := by
  rw [← Bool.not_eq_true]
  intro hd
  exact not_purgedTrace hnone (dropsKey_goneTraces.mp hd).2.2.2

include h

/-- **A trace keeps its call**, and an unbound one goes to the call its
first key names. -/
theorem binding_recorded : c'.binding (p, t) =
    (c.binding (p, t)).or ((namedKey prepared t).map (keyCall S c p)) := by
  rw [h.binding]
  by_cases ht : t ∈ traceIds prepared
  · rw [if_pos ⟨rfl, (mem_keptIds_iff_traceIds hnone).mpr ht⟩]
    cases hb : c.binding (p, t) with
    | some callId => exact destination_of_bound hb
    | none =>
        rw [Option.none_or]
        cases hkey : namedKey prepared t with
        | none => exact destination_of_unnamed hb hkey
        | some key => exact destination_of_named hb (not_purgedTrace hnone) hkey
  · rw [if_neg fun hk => ht ((mem_keptIds_iff_traceIds hnone).mp hk.2)]
    have hno : namedKey prepared t = none := by
      rw [namedKey, firstKey_eq_none]
      intro s hs
      rw [List.mem_filter, decide_eq_true_eq] at hs
      exact absurd (mem_traceIds.mpr ⟨s, hs⟩) ht
    rw [hno, Option.map_none, Option.or_none]

theorem isSome_callTraces_recorded : (c'.callTraces.find? (p, t)).isSome = true ↔
    (c.callTraces.find? (p, t)).isSome = true ∨ t ∈ traceIds prepared := by
  rw [h.callTraces, dropsKey_eq_false hnone, if_neg Bool.false_ne_true]
  by_cases ht : t ∈ traceIds prepared
  · rw [if_pos ⟨rfl, (mem_keptIds_iff_traceIds hnone).mpr ht⟩]
    simp [ht]
  · rw [if_neg fun hk => ht ((mem_keptIds_iff_traceIds hnone).mp hk.2)]
    simp [ht]

/-- **A stored span stays**, and of the others the first of the batch is
stored. -/
theorem find?_spans_recorded (x : SpanId) : c'.spans.find? (p, t, x) =
    (c.spans.find? (p, t, x)).or
      ((prepared.find? fun s => s.traceId = t && s.spanId = x).map (spanRow p now)) := by
  cases hr : c.spans.find? (p, t, x) with
  | some r =>
      obtain ⟨hmem, hkey⟩ := Table.find?_eq_some.mp hr
      rw [Option.some_or, Table.find?_eq_some]
      exact ⟨h.mem_spans.mpr (Or.inl ⟨hmem, dropsKey_eq_false hnone _⟩), hkey⟩
  | none =>
      rw [Option.none_or]
      have hold : ∀ r ∈ c.spans, r.key ≠ (p, t, x) := Table.find?_eq_none.mp hr
      cases hs : prepared.find? fun s => s.traceId = t && s.spanId = x with
      | none =>
          rw [Option.map_none, Table.find?_eq_none]
          intro r hmem hkey
          rcases h.mem_spans.mp hmem with ⟨hmem, -⟩ | hrow
          · exact hold r hmem hkey
          · obtain ⟨t', -, s, hnew, rfl⟩ := mem_newRows.mp hrow
            obtain ⟨-, hid⟩ := Prod.mk.inj hkey
            obtain ⟨ht, hx⟩ := Prod.mk.inj hid
            refine List.find?_eq_none.mp hs s (newSpans_subset hnew).1 ?_
            rw [Bool.and_eq_true, decide_eq_true_eq, decide_eq_true_eq]
            exact ⟨ht, hx⟩
      | some s =>
          have hst := List.find?_some hs
          simp only [Bool.and_eq_true, decide_eq_true_eq] at hst
          obtain ⟨rfl, rfl⟩ := hst
          rw [Option.map_some, Table.find?_eq_some]
          refine ⟨h.mem_spans.mpr (Or.inr (mem_newRows.mpr ⟨s.traceId, ?_, s, ?_, rfl⟩)), rfl⟩
          · exact (mem_keptIds_iff_traceIds hnone).mpr
              (mem_traceIds.mpr ⟨s, List.mem_of_find?_eq_some hs, rfl⟩)
          · exact mem_newSpans.mpr ⟨hs, fun _ => hr⟩

end Step

/-- A batch's new call has a trace. -/
theorem exists_binding_of_new (h : Recorded S c p prepared preset now c') {callId : String}
    (hnone : c.calls.find? (p, callId) = none)
    (hsome : (c'.calls.find? (p, callId)).isSome = true) :
    ∃ t, c'.binding (p, t) = some callId := by
  obtain ⟨r, hr⟩ := Option.isSome_iff_exists.mp hsome
  obtain ⟨target, htarget, -, rfl, -, -⟩ := h.calls_new callId r hnone hr
  obtain ⟨t, ht, target', htarget', first, hag⟩ := mem_keptTargets htarget
  refine ⟨t, ?_⟩
  rw [h.binding, if_pos ⟨rfl, ht⟩, destination, htarget', hag]
  rfl

/-! ## Batches -/

/-- A committed request, but for the counters. -/
theorem recorded_of_recordSpans {rejected : ℕ} {result : SpanBatchResult}
    (h : recordSpans S c p prepared rejected now = some (c', result)) :
    ∃ preset d, Recorded S c p prepared preset now d ∧ OnlyCalls d c' ∧ c'.calls = d.calls := by
  simp only [recordSpans, Option.bind_eq_bind, Option.bind_eq_some_iff, Option.pure_def,
    Option.some.injEq, Prod.mk.injEq] at h
  obtain ⟨preset, -, ⟨d, counts⟩, hrec, rfl, -⟩ := h
  exact recorded_of_catalogStep
    (.recordSpans hrec : CatalogStep S c (.recordSpans p prepared rejected now) _)

variable {batches : List SpanBatch} {b : SpanBatch}

theorem recordBatches_cons (h : c.recordBatches S p (b :: batches) = some c') :
    ∃ result d, recordSpans S c p b.prepared b.rejectedSpans b.now = some (d, result) ∧
      d.recordBatches S p batches = some c' := by
  rw [recordBatches, List.foldlM_cons, Option.bind_eq_bind, Option.bind_eq_some_iff] at h
  obtain ⟨d, hone, hrest⟩ := h
  obtain ⟨⟨d', result⟩, hout, rfl⟩ := Option.map_eq_some_iff.mp hone
  exact ⟨result, d', hout, hrest⟩

/-- **The rule for batches**: what each committed batch preserves, while no
tombstone is live, all of them preserve. -/
theorem recordBatches_induction {P : Catalog → List Prepared → Prop}
    (hstep : ∀ (d d' : Catalog) (b : SpanBatch) (preset : CapturePreset) (seen : List Prepared),
      d.NoneTombstoned p b.now → P d seen → Recorded S d p b.prepared preset b.now d' →
      P d' (seen ++ b.prepared))
    (hcongr : ∀ (d d' : Catalog) (seen : List Prepared), OnlyCalls d d' → d'.calls = d.calls →
      P d seen → P d' seen)
    (hnone : ∀ b ∈ batches, c.NoneTombstoned p b.now)
    (h : c.recordBatches S p batches = some c') (hP : P c []) : P c' (arrivals batches) := by
  have hrun : ∀ (batches : List SpanBatch) (d : Catalog) (seen : List Prepared),
      (∀ b ∈ batches, d.NoneTombstoned p b.now) → d.recordBatches S p batches = some c' →
      P d seen → P c' (seen ++ arrivals batches) := by
    intro batches
    induction batches with
    | nil =>
        intro d seen _ hrun hd
        obtain rfl := Option.some.inj hrun
        rwa [arrivals, List.flatMap_nil, List.append_nil]
    | cons b batches ih =>
        intro d seen hnone hrun hd
        obtain ⟨result, d', hone, hrest⟩ := recordBatches_cons hrun
        obtain ⟨preset, d₁, hrec, honly, hcalls⟩ := recorded_of_recordSpans hone
        have htombs : d'.callTombstones = d.callTombstones :=
          honly.callTombstones.trans hrec.callTombstones
        have hP' := hcongr d₁ d' _ honly hcalls
          (hstep d d₁ b preset seen (hnone b List.mem_cons_self) hd hrec)
        rw [arrivals, List.flatMap_cons, ← List.append_assoc]
        refine ih d' _ (fun b' hb' fingerprint => ?_) hrest hP'
        rw [tombstoned, htombs]
        exact hnone b' (List.mem_cons_of_mem _ hb') fingerprint
  exact hrun batches c [] hnone h hP

section Run

variable (hnone : ∀ b ∈ batches, c.NoneTombstoned p b.now)
variable (h : c.recordBatches S p batches = some c')

include hnone h

theorem linked_recordBatches (hl : Linked c) : Linked c' :=
  recordBatches_induction (P := fun d _ => Linked d)
    (fun _ _ _ _ _ _ hd hrec => hd.recorded hrec)
    (fun _ _ _ honly hcalls hd => hd.of_onlyCalls honly fun _ hk => by rwa [hcalls]) hnone h hl

theorem counted_recordBatches (hl : Linked c) (hc : Counted c) : Counted c' := by
  have hboth := recordBatches_induction (P := fun d _ => Linked d ∧ Counted d)
    (fun _ _ _ _ _ _ hd hrec => ⟨hd.1.recorded hrec, hd.2.recorded hd.1 hrec⟩)
    (fun _ _ _ honly hcalls hd => ⟨hd.1.of_onlyCalls honly fun _ hk => by rwa [hcalls],
      hd.2.of_onlyCalls honly fun _ r hr => ⟨r, by rwa [hcalls] at hr, rfl⟩⟩) hnone h ⟨hl, hc⟩
  exact hboth.2

/-- **A trace's call after all batches** is the one it had, or the one the
first key of its spans names. -/
theorem binding_recordBatches (t : TraceId) : c'.binding (p, t) =
    (c.binding (p, t)).or ((namedKey (arrivals batches) t).map (keyCall S c p)) := by
  have hall := recordBatches_induction
    (P := fun d seen => d.callKeyGenerations = c.callKeyGenerations ∧
      d.binding (p, t) = (c.binding (p, t)).or ((namedKey seen t).map (keyCall S c p)))
    (fun d d' b preset seen hd hP hrec => ?_)
    (fun d d' seen honly _ hP => ⟨honly.callKeyGenerations.trans hP.1, ?_⟩) hnone h
    ⟨rfl, by rw [namedKey, List.filter_nil]; exact Option.or_none.symm⟩
  · exact hall.2
  · refine ⟨hrec.callKeyGenerations.trans hP.1, ?_⟩
    have hcall : keyCall S d p = keyCall S c p := by
      funext key
      rw [keyCall, keyCall, generation, generation, hP.1]
    rw [binding_recorded hd hrec, hP.2, hcall, Option.or_assoc, namedKey, namedKey, namedKey,
      List.filter_append, firstKey_append]
    congr 1
    cases firstKey (seen.filter (·.traceId = t)) <;> rfl
  · rw [binding_congr honly.callTraces, hP.2]

theorem isSome_callTraces_recordBatches (t : TraceId) :
    (c'.callTraces.find? (p, t)).isSome = true ↔
      (c.callTraces.find? (p, t)).isSome = true ∨ t ∈ traceIds (arrivals batches) := by
  refine recordBatches_induction
    (P := fun d seen => (d.callTraces.find? (p, t)).isSome = true ↔
      (c.callTraces.find? (p, t)).isSome = true ∨ t ∈ traceIds seen)
    (fun d d' b preset seen hd hP hrec => ?_)
    (fun d d' seen honly _ hP => ?_) hnone h ?_
  · rw [isSome_callTraces_recorded hd hrec, hP, or_assoc]
    refine or_congr Iff.rfl ?_
    simp only [mem_traceIds, List.mem_append]
    constructor
    · rintro (⟨s, hs, ht⟩ | ⟨s, hs, ht⟩)
      · exact ⟨s, Or.inl hs, ht⟩
      · exact ⟨s, Or.inr hs, ht⟩
    · rintro ⟨s, hs | hs, ht⟩
      · exact Or.inl ⟨s, hs, ht⟩
      · exact Or.inr ⟨s, hs, ht⟩
  · rw [honly.callTraces, hP]
  · exact (or_iff_left fun ht => by simp [mem_traceIds] at ht).symm

/-- **The row of a span after all batches** is the one it had, or that of
its first arrival. -/
theorem find?_spans_recordBatches (t : TraceId) (x : SpanId) :
    (c'.spans.find? (p, t, x)).map Span.untimed =
      ((c.spans.find? (p, t, x)).map Span.untimed).or
        (((arrivals batches).find? fun s => s.traceId = t && s.spanId = x).map (spanRow p 0)) := by
  refine recordBatches_induction
    (P := fun d seen => (d.spans.find? (p, t, x)).map Span.untimed =
      ((c.spans.find? (p, t, x)).map Span.untimed).or
        ((seen.find? fun s => s.traceId = t && s.spanId = x).map (spanRow p 0)))
    (fun d d' b preset seen hd hP hrec => ?_)
    (fun d d' seen honly _ hP => ?_)
    hnone h (by rw [List.find?_nil, Option.map_none, Option.or_none])
  · have hrow : (b.prepared.find? fun s => s.traceId = t && s.spanId = x).map
        (Span.untimed ∘ spanRow p b.now) =
        (b.prepared.find? fun s => s.traceId = t && s.spanId = x).map (spanRow p 0) := rfl
    rw [find?_spans_recorded hd hrec, Option.map_or, hP, Option.map_map, hrow,
      List.find?_append, Option.map_or, Option.or_assoc]
  · rw [honly.spans, hP]

/-- Another project's rows stay. -/
theorem recordBatches_of_ne {p' : ProjectId} (hp : p' ≠ p) :
    (∀ t, c'.callTraces.find? (p', t) = c.callTraces.find? (p', t)) ∧
      (∀ t x, c'.spans.find? (p', t, x) = c.spans.find? (p', t, x)) ∧
      ∀ callId, c'.calls.find? (p', callId) = c.calls.find? (p', callId) := by
  refine recordBatches_induction
    (P := fun d _ => (∀ t, d.callTraces.find? (p', t) = c.callTraces.find? (p', t)) ∧
      (∀ t x, d.spans.find? (p', t, x) = c.spans.find? (p', t, x)) ∧
      ∀ callId, d.calls.find? (p', callId) = c.calls.find? (p', callId))
    (fun d d' b preset seen hd hP hrec => ?_)
    (fun d d' seen honly hcalls hP => ?_) hnone h
    ⟨fun _ => rfl, fun _ _ => rfl, fun _ => rfl⟩
  · refine ⟨fun t => ?_, fun t x => ?_, fun callId => ?_⟩
    · rw [hrec.callTraces, if_neg fun hk => hp hk.1, dropsKey_eq_false hd,
        if_neg Bool.false_ne_true, hP.1]
    · rw [← hP.2.1]
      refine Table.find?_congr fun r hkey => ?_
      rw [hrec.mem_spans, dropsKey_eq_false hd, and_iff_left rfl]
      refine or_iff_left fun hrow => ?_
      exact hp ((congrArg Prod.fst hkey).symm.trans (traceKey_of_mem_newRows hrow).1)
    · rw [hrec.calls_other _ hp, hP.2.2]
  · rw [honly.callTraces, honly.spans, hcalls]
    exact hP

/-- A call that was not there has a trace. -/
theorem exists_binding_recordBatches {callId : String}
    (hnew : c.calls.find? (p, callId) = none)
    (hsome : (c'.calls.find? (p, callId)).isSome = true) :
    ∃ t, c'.binding (p, t) = some callId := by
  refine recordBatches_induction
    (P := fun d _ => (d.calls.find? (p, callId)).isSome = true →
      ∃ t, d.binding (p, t) = some callId)
    (fun d d' b preset seen hd hP hrec hsome => ?_)
    (fun d d' seen honly hcalls hP hsome => ?_) hnone h
    (fun hsome => by rw [hnew] at hsome; cases hsome) hsome
  · cases hr : d.calls.find? (p, callId) with
    | none => exact exists_binding_of_new hrec hr hsome
    | some r =>
        obtain ⟨t, ht⟩ := hP (by rw [hr]; rfl)
        exact ⟨t, hrec.binding_of_some ht⟩
  · obtain ⟨t, ht⟩ := hP (by rwa [← hcalls])
    exact ⟨t, by rw [binding_congr honly.callTraces, ht]⟩

theorem isSome_calls_recordBatches {k : CallKey} (hk : (c.calls.find? k).isSome = true) :
    (c'.calls.find? k).isSome = true :=
  recordBatches_induction (P := fun d _ => (d.calls.find? k).isSome = true)
    (fun _ _ _ _ _ _ hP hrec => hrec.isSome_calls hP)
    (fun _ _ _ _ hcalls hP => by rwa [hcalls]) hnone h hk

end Run

/-! ## Two splits -/

theorem map_eq_map_of_isSome_iff {α β : Type*} {f : α → β} {o₁ o₂ : Option α}
    (hiff : o₁.isSome = true ↔ o₂.isSome = true)
    (h : ∀ a b, o₁ = some a → o₂ = some b → f a = f b) : o₁.map f = o₂.map f := by
  cases o₁ with
  | none =>
      cases o₂ with
      | none => rfl
      | some b => exact absurd (hiff.mpr rfl) Bool.false_ne_true
  | some a =>
      cases o₂ with
      | none => exact absurd (hiff.mp rfl) Bool.false_ne_true
      | some b => rw [Option.map_some, Option.map_some, h a b rfl rfl]

/-- Catalogs with the same span rows, but for their times, and the same
bindings have the same tallies. -/
theorem tally_callSpans_congr {c₁ c₂ : Catalog}
    (hspans : ∀ k, (c₁.spans.find? k).map Span.untimed = (c₂.spans.find? k).map Span.untimed)
    (hbindings : ∀ k, c₁.binding k = c₂.binding k) (k : CallKey) :
    tally (c₁.callSpans k) = tally (c₂.callSpans k) := by
  have hnodup : ∀ c : Catalog, ((c.callSpans k).map Span.untimed).Nodup := by
    intro c
    have hkeys : (((c.callSpans k).map Span.untimed).map Span.key).Nodup := by
      rw [List.map_map]
      exact c.spans.nodup.sublist (List.filter_sublist.map Span.key)
    exact .of_map _ hkeys
  have hmem : ∀ (c : Catalog) (s : Span), s ∈ (c.callSpans k).map Span.untimed ↔
      (c.spans.find? s.key).map Span.untimed = some s ∧ s.projectId = k.1 ∧
        c.binding s.traceKey = some k.2 := by
    intro c s
    rw [List.mem_map, Option.map_eq_some_iff]
    constructor
    · rintro ⟨s₀, hs₀, rfl⟩
      obtain ⟨hmem, hp, hb⟩ := mem_callSpans.mp hs₀
      exact ⟨⟨s₀, Table.find?_of_mem hmem, rfl⟩, hp, hb⟩
    · rintro ⟨⟨s₀, hs₀, rfl⟩, hp, hb⟩
      exact ⟨s₀, mem_callSpans.mpr ⟨Table.mem_of_find? hs₀, hp, hb⟩, rfl⟩
  have hperm : ((c₁.callSpans k).map Span.untimed).Perm ((c₂.callSpans k).map Span.untimed) := by
    rw [List.perm_ext_iff_of_nodup (hnodup c₁) (hnodup c₂)]
    intro s
    rw [hmem, hmem, hspans, hbindings]
  have huntimed : ∀ spans : List Span, tally (spans.map Span.untimed) = tally spans :=
    tally_map fun _ => rfl
  rw [← huntimed, tally_perm hperm, huntimed]

/-- **Two splits of one sequence of spans leave the same evidence**, from
any catalog whose links and tallies are in order. -/
theorem sameEvidence_of_arrivals_eq {batches₁ batches₂ : List SpanBatch} {c₁ c₂ : Catalog}
    (hl : Linked c) (hc : Counted c) (hsame : arrivals batches₁ = arrivals batches₂)
    (hnone₁ : ∀ b ∈ batches₁, c.NoneTombstoned p b.now)
    (hnone₂ : ∀ b ∈ batches₂, c.NoneTombstoned p b.now)
    (h₁ : c.recordBatches S p batches₁ = some c₁) (h₂ : c.recordBatches S p batches₂ = some c₂) :
    SameEvidence c₁ c₂ := by
  have hspans : ∀ k, (c₁.spans.find? k).map Span.untimed =
      (c₂.spans.find? k).map Span.untimed := by
    rintro ⟨p', t, x⟩
    by_cases hp : p' = p
    · rw [hp, find?_spans_recordBatches hnone₁ h₁, find?_spans_recordBatches hnone₂ h₂, hsame]
    · rw [(recordBatches_of_ne hnone₁ h₁ hp).2.1, (recordBatches_of_ne hnone₂ h₂ hp).2.1]
  have hbindings : ∀ k, c₁.binding k = c₂.binding k := by
    rintro ⟨p', t⟩
    by_cases hp : p' = p
    · rw [hp, binding_recordBatches hnone₁ h₁, binding_recordBatches hnone₂ h₂, hsame]
    · rw [binding, binding, (recordBatches_of_ne hnone₁ h₁ hp).1,
        (recordBatches_of_ne hnone₂ h₂ hp).1]
  -- a trace is stored in both or in neither, and bound alike
  have htraces : ∀ k, (c₁.callTraces.find? k).map (·.callId) =
      (c₂.callTraces.find? k).map (·.callId) := by
    rintro ⟨p', t⟩
    by_cases hp : p' = p
    · subst hp
      have hiff : (c₁.callTraces.find? (p', t)).isSome = true ↔
          (c₂.callTraces.find? (p', t)).isSome = true := by
        rw [isSome_callTraces_recordBatches hnone₁ h₁, isSome_callTraces_recordBatches hnone₂ h₂,
          hsame]
      refine map_eq_map_of_isSome_iff hiff fun r₁ r₂ hr₁ hr₂ => ?_
      have hbind := hbindings (p', t)
      rw [binding, binding, hr₁, hr₂] at hbind
      exact hbind
    · rw [(recordBatches_of_ne hnone₁ h₁ hp).1, (recordBatches_of_ne hnone₂ h₂ hp).1]
  refine ⟨hspans, htraces, fun k => ?_⟩
  have hstored : ∀ {batches batches' : List SpanBatch} {d d' : Catalog},
      (∀ b ∈ batches, c.NoneTombstoned p b.now) → (∀ b ∈ batches', c.NoneTombstoned p b.now) →
      c.recordBatches S p batches = some d → c.recordBatches S p batches' = some d' →
      (∀ k, d.binding k = d'.binding k) → (d.calls.find? k).isSome = true →
      (d'.calls.find? k).isSome = true := by
    intro batches batches' d d' hnone hnone' h h' hbinds hk
    cases hr : c.calls.find? k with
    | some r => exact isSome_calls_recordBatches hnone' h' (by rw [hr]; rfl)
    | none =>
        obtain ⟨p', callId⟩ := k
        by_cases hp : p' = p
        · rw [hp] at hr hk ⊢
          obtain ⟨t, ht⟩ := exists_binding_recordBatches hnone h hr hk
          rw [hbinds] at ht
          exact (linked_recordBatches hnone' h' hl).trace_call _ _ ht
        · rw [(recordBatches_of_ne hnone h hp).2.2, hr] at hk
          cases hk
  have hc₁ := counted_recordBatches hnone₁ h₁ hl hc
  have hc₂ := counted_recordBatches hnone₂ h₂ hl hc
  have hiff : (c₁.calls.find? k).isSome = true ↔ (c₂.calls.find? k).isSome = true :=
    ⟨hstored hnone₁ hnone₂ h₁ h₂ hbindings,
      hstored hnone₂ hnone₁ h₂ h₁ fun k => (hbindings k).symm⟩
  refine map_eq_map_of_isSome_iff hiff fun r₁ r₂ hr₁ hr₂ => ?_
  rw [hc₁ k r₁ hr₁, hc₂ k r₂ hr₂, tally_callSpans_congr hspans hbindings]

end Catalog

/-- **Batching does not matter**: from any reachable catalog, without a live
tombstone, a sequence of spans leaves the same rows, bindings, span counts
and end signals however it is split into batches. -/
theorem sameEvidence_of_split {S : CallStore} {ops : List Op} {p : ProjectId}
    {batches₁ batches₂ : List SpanBatch} {c₁ c₂ : Catalog}
    (hsame : arrivals batches₁ = arrivals batches₂)
    (hnone : ∀ b ∈ batches₁ ++ batches₂, (worldAfter S ops).catalog.NoneTombstoned p b.now)
    (h₁ : (worldAfter S ops).catalog.recordBatches S p batches₁ = some c₁)
    (h₂ : (worldAfter S ops).catalog.recordBatches S p batches₂ = some c₂) :
    SameEvidence c₁ c₂ :=
  Catalog.sameEvidence_of_arrivals_eq (linked_worldAfter S ops) (counted_worldAfter S ops) hsame
    (fun b hb => hnone b (List.mem_append_left _ hb))
    (fun b hb => hnone b (List.mem_append_right _ hb)) h₁ h₂

/-- A new project. -/
def newProject : Catalog := (worldAfter plainStore [.provisionProject demoProject .full]).catalog

/-- A trace's unnamed span, one that names a key, and a conflicting re-send
of the first: in one batch, and in three. -/
theorem sameEvidence_of_split_threeSpans :
    ∃ c₁ c₂,
      newProject.recordBatches plainStore demoProject
        [⟨[demoSpan 1 1 "app" "a" none, demoSpan 1 2 "app" "b" (some "k"),
          { demoSpan 1 1 "app" "c" none with digest := 9 }], 0, 10⟩] = some c₁ ∧
      newProject.recordBatches plainStore demoProject
        [⟨[demoSpan 1 1 "app" "a" none], 0, 10⟩, ⟨[demoSpan 1 2 "app" "b" (some "k")], 0, 11⟩,
          ⟨[{ demoSpan 1 1 "app" "c" none with digest := 9 }], 0, 12⟩] = some c₂ ∧
      SameEvidence c₁ c₂ := by
  have hsome₁ : (newProject.recordBatches plainStore demoProject
      [⟨[demoSpan 1 1 "app" "a" none, demoSpan 1 2 "app" "b" (some "k"),
        { demoSpan 1 1 "app" "c" none with digest := 9 }], 0, 10⟩]).isSome = true := by decide
  have hsome₂ : (newProject.recordBatches plainStore demoProject
      [⟨[demoSpan 1 1 "app" "a" none], 0, 10⟩, ⟨[demoSpan 1 2 "app" "b" (some "k")], 0, 11⟩,
        ⟨[{ demoSpan 1 1 "app" "c" none with digest := 9 }], 0, 12⟩]).isSome = true := by decide
  obtain ⟨c₁, h₁⟩ := Option.isSome_iff_exists.mp hsome₁
  obtain ⟨c₂, h₂⟩ := Option.isSome_iff_exists.mp hsome₂
  refine ⟨c₁, c₂, h₁, h₂, sameEvidence_of_split (by rfl) (fun b _ fingerprint => ?_) h₁ h₂⟩
  rfl

end Earshot
