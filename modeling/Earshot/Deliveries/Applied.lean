import Earshot.Deliveries.Fenced
import Earshot.Effects.Names
import Earshot.Media.Coupled
import Earshot.Media.Counts
/-!
# What an apply commits

All of it or nothing: the delivery's spans in the call its receipt then
names, its recordings with their fetches, and the receipt (`Applied`). The
receipt names the call of its key, and the spans go where their trace is
bound: the two are one as long as no other span bound the trace to another
call, and no purge of such a call left a tombstone of it (`Receives`). A key a
purge left a tombstone of has its receipt only.
-/

namespace Earshot

open Relational Catalog

variable {α : Type} {S : CallStore} {C : Connectors α}

/-! ## Recordings -/

namespace FetchWorld

variable {w w' w'' : FetchWorld} {p : ProjectId} {callId endpointId : String} {now : UnixNano}
variable {recordings : List ProviderRecording}

/-- **What holding recordings does**: those that are not there are inserted,
each with its fetch, as long as the call holds fewer than a revision does. -/
structure Holds (p : ProjectId) (callId endpointId : String) (now : UnixNano)
    (recordings : List ProviderRecording) (w w' : FetchWorld) : Prop where
  grows : w.recordings.rows.Sublist w'.recordings.rows
  here : ∀ recording ∈ recordings,
    (w'.recordings.find? (p, recording.recordingId)).isSome = true ∨
      MAX_REVISION_RECORDINGS ≤ w'.world.catalog.recordingsHeld (p, callId)
  fetched : ∀ r ∈ w'.recordings, r ∈ w.recordings ∨ ∃ recording ∈ recordings,
    r = heldRecording p callId recording now ∧ ∃ f, w'.fetches.jobs.find? r.key = some f ∧
      f.state = .pending ∧ f.columns.endpointId = endpointId
  /-- A fetch there was may only have a fresher URL. -/
  fetches : ∀ k f, w.fetches.jobs.find? k = some f → ∃ f', w'.fetches.jobs.find? k = some f' ∧
    f'.state = f.state ∧ f'.columns.endpointId = f.columns.endpointId

/-- Only recordings may differ. -/
def RecordingsOnly (w w' : FetchWorld) : Prop :=
  w'.world.catalog = { w.world.catalog with recordings := w'.recordings }

theorem RecordingsOnly.trans (h : RecordingsOnly w w') (h' : RecordingsOnly w' w'') :
    RecordingsOnly w w'' := by
  unfold RecordingsOnly at h h' ⊢
  rw [h', h]

theorem Holds.refl : Holds p callId endpointId now [] w w :=
  ⟨List.Sublist.refl _, fun _ h => absurd h List.not_mem_nil, fun _ h => Or.inl h,
    fun _ f h => ⟨f, h, rfl, rfl⟩⟩

theorem Holds.isSome (h : Holds p callId endpointId now recordings w w') {k : ProjectId × String}
    (hk : (w.recordings.find? k).isSome = true) : (w'.recordings.find? k).isSome = true := by
  obtain ⟨r, hr⟩ := Option.isSome_iff_exists.mp hk
  rw [Table.find?_isSome_iff]
  exact ⟨r, h.grows.subset (Table.mem_of_find? hr), Table.key_of_find? hr⟩

theorem Holds.trans {recordings' : List ProviderRecording}
    (h : Holds p callId endpointId now recordings w w')
    (h' : Holds p callId endpointId now recordings' w' w'') :
    Holds p callId endpointId now (recordings ++ recordings') w w'' where
  grows := h.grows.trans h'.grows
  here recording hmem := by
    rcases List.mem_append.mp hmem with hmem | hmem
    · refine (h.here recording hmem).imp h'.isSome fun hheld => ?_
      exact hheld.trans (h'.grows.countP_le)
    · exact h'.here recording hmem
  fetched r hr := by
    rcases h'.fetched r hr with hr | ⟨recording, hmem, heq, hfetch⟩
    · rcases h.fetched r hr with hr | ⟨recording, hmem, heq, f, hf, hstate, hendpoint⟩
      · exact Or.inl hr
      · obtain ⟨f', hf', hstate', hendpoint'⟩ := h'.fetches _ f hf
        exact Or.inr ⟨recording, List.mem_append_left _ hmem, heq, f', hf', hstate'.trans hstate,
          hendpoint'.trans hendpoint⟩
    · exact Or.inr ⟨recording, List.mem_append_right _ hmem, heq, hfetch⟩
  fetches k f hf := by
    obtain ⟨f', hf', hstate, hendpoint⟩ := h.fetches k f hf
    obtain ⟨f'', hf'', hstate', hendpoint'⟩ := h'.fetches k f' hf'
    exact ⟨f'', hf'', hstate'.trans hstate, hendpoint'.trans hendpoint⟩

/-- A fresher URL changes nothing but the URL of a fetch. -/
theorem refreshUrl_spec {recording : ProviderRecording}
    (hrun : refreshUrl S w p recording now = some w') :
    w'.world = w.world ∧ w'.claims = w.claims ∧
      (∀ k, (w'.fetches.jobs.find? k).isSome = (w.fetches.jobs.find? k).isSome) ∧
      ∀ k f, w.fetches.jobs.find? k = some f → ∃ f', w'.fetches.jobs.find? k = some f' ∧
        f'.state = f.state ∧ f'.columns.endpointId = f.columns.endpointId := by
  unfold refreshUrl at hrun
  split at hrun
  · obtain rfl := Option.some.inj hrun
    exact ⟨rfl, rfl, fun _ => rfl, fun k f hf => ⟨f, hf, rfl, rfl⟩⟩
  · rename_i url _
    obtain rfl := Option.some.inj hrun
    have hfind : ∀ k, (w.fetches.jobs.write (p, recording.recordingId)
        (refresh · url recording.urlExpiresUnixNano now)
        (refresh_key · url recording.urlExpiresUnixNano now)).find? k =
        if k = (p, recording.recordingId) then (w.fetches.jobs.find? k).map
          (refresh · url recording.urlExpiresUnixNano now) else w.fetches.jobs.find? k := by
      intro k
      rw [JobTable.find?_write]
      by_cases hk : k = (p, recording.recordingId)
      · rw [if_pos hk, if_pos hk, hk]
      · rw [if_neg hk, if_neg hk]
    refine ⟨rfl, rfl, fun k => ?_, fun k f hf => ?_⟩
    · refine (congrArg Option.isSome (hfind k)).trans ?_
      split
      · rw [Option.isSome_map]
      · rfl
    · by_cases hk : k = (p, recording.recordingId)
      · refine ⟨_, (hfind k).trans (by rw [if_pos hk, hf]; rfl), (refresh_state _ _ _ _).1, ?_⟩
        unfold refresh
        split <;> rfl
      · exact ⟨f, (hfind k).trans (by rw [if_neg hk, hf]), rfl, rfl⟩

theorem coupled_refreshUrl {recording : ProviderRecording} (h : Coupled w)
    (hrun : refreshUrl S w p recording now = some w') : Coupled w' := by
  unfold refreshUrl at hrun
  split at hrun
  · obtain rfl := Option.some.inj hrun
    exact h
  · exact h.of_step hrun

/-- **One recording** is there, or is inserted with its fetch, or the call is
full. -/
theorem holdOne_spec {recording : ProviderRecording} {created created' : List String}
    (h : Coupled w) (hl : w.world.catalog.Linked)
    (hrun : holdOne S p callId endpointId now (w, created) recording = some (w', created')) :
    Holds p callId endpointId now [recording] w w' ∧ RecordingsOnly w w' ∧ Coupled w' ∧
      w'.world.catalog.Linked := by
  unfold holdOne at hrun
  dsimp only at hrun
  split at hrun
  · rename_i hthere
    obtain ⟨w₁, hrefresh, heq⟩ := Option.map_eq_some_iff.mp hrun
    obtain ⟨rfl, -⟩ := Prod.mk.inj heq
    obtain ⟨hworld, -, -, hfetches⟩ := refreshUrl_spec hrefresh
    have hrecordings : w₁.recordings = w.recordings := by rw [recordings, recordings, hworld]
    refine ⟨⟨?_, ?_, ?_, hfetches⟩, ?_, coupled_refreshUrl h hrefresh, hworld ▸ hl⟩
    · rw [hrecordings]
    · intro recording' hmem
      obtain rfl := List.mem_singleton.mp hmem
      rw [hrecordings]
      exact Or.inl hthere
    · intro r hr
      exact Or.inl (hrecordings ▸ hr)
    · rw [RecordingsOnly, hrecordings, hworld]
      rfl
  · split at hrun
    · rename_i hfull
      obtain ⟨rfl, -⟩ := Prod.mk.inj (Option.some.inj hrun)
      exact ⟨⟨List.Sublist.refl _, fun _ _ => Or.inr hfull, fun r hr => Or.inl hr,
        fun k f hf => ⟨f, hf, rfl, rfl⟩⟩, rfl, h, hl⟩
    · obtain ⟨w₁, hstep, heq⟩ := Option.map_eq_some_iff.mp hrun
      obtain ⟨rfl, -⟩ := Prod.mk.inj heq
      have hafter := h.of_step hstep
      have hlinked := linked_onCatalog hl (onCatalog_of_step hstep)
      have hcoupled := h.rows (p, recording.recordingId)
      obtain ⟨hnone, hstep⟩ := Option.ite_none_left_eq_some.mp hstep
      obtain ⟨-, hstep⟩ := Option.ite_none_left_eq_some.mp hstep
      obtain ⟨-, hstep⟩ := Option.ite_none_left_eq_some.mp hstep
      obtain rfl := Option.some.inj hstep
      have hnew : w.recordings.find? (p, recording.recordingId) = none := by simpa using hnone
      have hfetch : w.fetches.jobs.find? (p, recording.recordingId) = none := by
        cases hf : w.fetches.jobs.find? (p, recording.recordingId) with
        | none => rfl
        | some f =>
            obtain ⟨r, hr, -⟩ := hcoupled f hf
            rw [hnew] at hr
            cases hr
      have hrows : (w.recordings.insert (heldRecording p callId recording now)).rows =
          w.recordings.rows ++ [heldRecording p callId recording now] :=
        Table.rows_insert_of_new hnew
      have hjobs : ∀ columns, next w.fetches (.add (p, recording.recordingId) columns now) =
          ⟨w.fetches.jobs.add (p, recording.recordingId) columns now,
            .added (p, recording.recordingId) :: w.fetches.log⟩ := by
        intro columns
        refine Transition.next_of_some ?_
        show (if (w.fetches.jobs.find? (p, recording.recordingId)).isNone = true then _ else _) = _
        rw [hfetch]
        rfl
      refine ⟨⟨?_, fun recording' hmem => ?_, fun r hr => ?_, fun k f hf => ?_⟩, rfl, hafter,
        hlinked⟩
      · show w.recordings.rows.Sublist (w.recordings.insert _).rows
        rw [hrows]
        exact List.sublist_append_left _ _
      · obtain rfl := List.mem_singleton.mp hmem
        refine Or.inl (Table.find?_isSome_iff.mpr ⟨heldRecording p callId recording' now, ?_, rfl⟩)
        show _ ∈ (w.recordings.insert _).rows
        rw [hrows]
        exact List.mem_append_right _ (List.mem_singleton_self _)
      · have hr' : r ∈ (w.recordings.insert (heldRecording p callId recording now)).rows := hr
        rw [hrows] at hr'
        rcases List.mem_append.mp hr' with hr' | hr'
        · exact Or.inl hr'
        · obtain rfl := List.mem_singleton.mp hr'
          refine Or.inr ⟨recording, List.mem_singleton_self _, rfl, ?_⟩
          show ∃ f, (next w.fetches _).jobs.find? (p, recording.recordingId) = some f ∧ _
          rw [hjobs, JobTable.find?_add, if_pos rfl, hfetch, Option.none_or]
          exact ⟨_, rfl, rfl, rfl⟩
      · show ∃ f', (next w.fetches _).jobs.find? k = some f' ∧ _
        have hne : k ≠ (p, recording.recordingId) := by
          rintro rfl
          rw [hfetch] at hf
          cases hf
        rw [hjobs, JobTable.find?_add, if_neg hne]
        exact ⟨f, hf, rfl, rfl⟩

theorem foldl_holdOne_spec {created : List String} {out : FetchWorld × List String}
    (h : Coupled w) (hl : w.world.catalog.Linked)
    (hrun : recordings.foldlM (holdOne S p callId endpointId now) (w, created) = some out) :
    Holds p callId endpointId now recordings w out.1 ∧ RecordingsOnly w out.1 ∧ Coupled out.1 ∧
      out.1.world.catalog.Linked := by
  induction recordings generalizing w created with
  | nil =>
    obtain rfl := Option.some.inj hrun
    exact ⟨.refl, rfl, h, hl⟩
  | cons recording recordings ih =>
    rw [List.foldlM_cons, Option.bind_eq_bind, Option.bind_eq_some_iff] at hrun
    obtain ⟨⟨w₁, created₁⟩, hone, hrest⟩ := hrun
    obtain ⟨hholds, honly, hcoupled, hlinked⟩ := holdOne_spec h hl hone
    obtain ⟨hholds', honly', hend⟩ := ih hcoupled hlinked hrest
    exact ⟨hholds.trans hholds', honly.trans honly', hend⟩

/-- Under either preset, the recordings it holds are held. -/
theorem holdUnder_spec {preset : CapturePreset} (h : Coupled w) (hl : w.world.catalog.Linked)
    (hrun : w.holdUnder S preset p callId endpointId recordings now = some w') :
    Holds p callId endpointId now (if preset = .full then recordings else []) w w' ∧
      RecordingsOnly w w' ∧ Coupled w' ∧ w'.world.catalog.Linked := by
  cases preset with
  | full =>
    obtain ⟨out, hhold, rfl⟩ := Option.map_eq_some_iff.mp hrun
    rw [if_pos rfl]
    exact foldl_holdOne_spec h hl hhold
  | metadataOnly =>
    obtain rfl := Option.some.inj hrun
    rw [if_neg (by simp)]
    exact ⟨.refl, rfl, h, hl⟩

end FetchWorld

/-! ## Spans -/

theorem mem_otlpSpans {evidence : ProviderEvidence α} {sessionKey version : String}
    {preset : CapturePreset} {spans : List Prepared}
    (h : otlpSpans C evidence sessionKey version preset = some spans) :
    spans ≠ [] ∧ ∀ s ∈ spans, s.traceId = C.traceId evidence.provider sessionKey ∧
      s.key = some ⟨sessionKey, .earshotSessionId⟩ := by
  unfold otlpSpans at h
  split at h
  · obtain rfl := Option.some.inj h
    refine ⟨by simp, fun s hs => ?_⟩
    obtain ⟨item, -, rfl⟩ := List.mem_map.mp hs
    exact ⟨rfl, rfl⟩
  · cases h

/-- A delivery's spans are all in its trace and name its key. -/
theorem Delivery.mem_spans (d : Delivery α) (preset : CapturePreset) :
    d.spans C preset ≠ [] ∧ ∀ s ∈ d.spans C preset, s.traceId = d.traceId C ∧
      s.key = some ⟨d.sessionKey, .earshotSessionId⟩ := by
  have hcall : ∃ spans, otlpSpans C d.evidence d.sessionKey d.translatorVersion preset =
      some spans := by
    obtain ⟨call, hone⟩ := List.length_eq_one_iff.mp d.oneCall
    unfold otlpSpans
    rw [hone]
    exact ⟨_, rfl⟩
  obtain ⟨spans, hspans⟩ := hcall
  rw [Delivery.spans, hspans]
  exact mem_otlpSpans hspans

/-- The key a delivery's spans name for its trace. -/
theorem Delivery.namedKey_spans (d : Delivery α) (preset : CapturePreset) :
    namedKey (d.spans C preset) (d.traceId C) = some ⟨d.sessionKey, .earshotSessionId⟩ := by
  obtain ⟨hne, hspans⟩ := d.mem_spans (C := C) preset
  have hall : (d.spans C preset).filter (·.traceId = d.traceId C) = d.spans C preset :=
    List.filter_eq_self.mpr fun s hs => decide_eq_true (hspans s hs).1
  rw [namedKey, hall, firstKey]
  cases hlist : d.spans C preset with
  | nil => exact absurd hlist hne
  | cons s rest =>
    have hs : s ∈ d.spans C preset := by
      rw [hlist]
      exact List.mem_cons_self
    rw [List.findSome?_cons, (hspans s hs).2]

section Batch

variable {c c' d : Catalog} {p : ProjectId} {prepared : List Prepared} {preset : CapturePreset}
variable {now : UnixNano} {delivery : Delivery α}

theorem traceKey_of_key {row : Span} {t : TraceId} {x : SpanId} (h : row.key = (p, t, x)) :
    row.traceKey = (p, t) := by
  obtain ⟨hp, hrest⟩ := Prod.mk.inj h
  exact Prod.ext hp (Prod.mk.inj hrest).1

/-- Every span of a trace that is kept is stored, now or before. -/
theorem Recorded.exists_span (h : Recorded S c p prepared preset now d) {s : Prepared}
    (hs : s ∈ prepared) (hkept : s.traceId ∈ keptIds S c p prepared now) :
    ∃ row ∈ d.spans, row.key = (p, s.traceId, s.spanId) := by
  cases hr : c.spans.find? (p, s.traceId, s.spanId) with
  | some row =>
    have hkey : row.key = (p, s.traceId, s.spanId) := Table.key_of_find? hr
    refine ⟨row, h.mem_spans.mpr (Or.inl ⟨Table.mem_of_find? hr, ?_⟩), hkey⟩
    rw [traceKey_of_key hkey]
    refine Bool.eq_false_of_not_eq_true fun hdrops => ?_
    exact (mem_keptIds.mp hkept).2 (dropsKey_goneTraces.mp hdrops).2.2.2
  | none =>
    have hsome : (prepared.find? fun x => x.traceId = s.traceId && x.spanId = s.spanId).isSome := by
      rw [List.find?_isSome]
      exact ⟨s, hs, by simp⟩
    obtain ⟨x, hx⟩ := Option.isSome_iff_exists.mp hsome
    have hxs := List.find?_some hx
    simp only [Bool.and_eq_true, decide_eq_true_eq] at hxs
    refine ⟨spanRow p now x, h.mem_spans.mpr (Or.inr (mem_newRows.mpr ⟨s.traceId, hkept, x, ?_,
      rfl⟩)), ?_⟩
    · rw [mem_newSpans, hxs.2]
      exact ⟨hx, fun _ => hr⟩
    · rw [Span.key, spanRow, hxs.1, hxs.2]

/-- **The key's call receives the trace**: the trace is bound to no other, and
no tombstone of its own drops it. -/
def Catalog.Receives (S : CallStore) (c : Catalog) (p : ProjectId) (t : TraceId) (key : String)
    (now : UnixNano) : Prop :=
  (∀ callId ∈ c.binding (p, t), callId = DeliveryWorld.callOf S c p key) ∧
    (c.callTraces.find? (p, t) = none →
      c.tombstoned p (S.traceKeyFingerprint p t) now = false)

instance {t : TraceId} {key : String} : Decidable (c.Receives S p t key now) :=
  inferInstanceAs (Decidable (_ ∧ (_ → _)))

/-- **Where a batch of a delivery leaves its trace**, when the key is not
tombstoned. -/
theorem binding_recorded_iff_receives {preset' : CapturePreset}
    (hlive : c.tombstoned delivery.connector.projectId
      (S.keyFingerprint delivery.connector.projectId delivery.sessionKey) now = false)
    (hrec : Recorded S c delivery.connector.projectId (delivery.spans C preset) preset' now d) :
    d.binding (delivery.connector.projectId, delivery.traceId C) =
        some (DeliveryWorld.callOf S c delivery.connector.projectId delivery.sessionKey) ↔
      c.Receives S delivery.connector.projectId (delivery.traceId C) delivery.sessionKey now := by
  have hkey := delivery.namedKey_spans (C := C) preset
  have hcarried : delivery.traceId C ∈ traceIds (delivery.spans C preset) := by
    obtain ⟨hne, hspans⟩ := delivery.mem_spans (C := C) preset
    obtain ⟨s, hs⟩ := List.exists_mem_of_ne_nil _ hne
    exact mem_traceIds.mpr ⟨s, hs, (hspans s hs).1⟩
  cases hbound : c.binding (delivery.connector.projectId, delivery.traceId C) with
  | some callId =>
    have hsome : (c.callTraces.find? (delivery.connector.projectId, delivery.traceId C)) ≠ none :=
      fun hrow => by
        rw [binding, hrow] at hbound
        cases hbound
    rw [hrec.binding_of_some hbound, Catalog.Receives, hbound]
    constructor
    · exact fun heq => ⟨fun _ hmem => Option.some.inj (hmem.symm.trans heq),
        fun hrow => absurd hrow hsome⟩
    · exact fun hreceives => congrArg some (hreceives.1 callId rfl)
  | none =>
    by_cases hpurged : purgedTrace S c delivery.connector.projectId (delivery.spans C preset) now
        (delivery.traceId C)
    · have hretired : c.callTraces.find? (delivery.connector.projectId, delivery.traceId C) = none ∧
          c.tombstoned delivery.connector.projectId
            (S.traceKeyFingerprint delivery.connector.projectId (delivery.traceId C)) now = true :=
        hpurged.2.resolve_right (by
          rintro ⟨key, hnamed, hdead⟩
          rw [hkey] at hnamed
          rw [← Option.some.inj hnamed, hlive] at hdead
          cases hdead)
      have hnone : d.binding (delivery.connector.projectId, delivery.traceId C) = none := by
        rw [hrec.binding, if_neg fun hk => (mem_keptIds.mp hk.2).2 hpurged, hbound]
      refine iff_of_false (fun hsome => ?_) fun hreceives => ?_
      · rw [hnone] at hsome
        cases hsome
      · have hlive' := hreceives.2 hretired.1
        rw [hretired.2] at hlive'
        cases hlive'
    · refine iff_of_true ?_ ⟨fun callId hmem => ?_, fun hrow => ?_⟩
      · rw [hrec.binding, if_pos ⟨rfl, mem_keptIds.mpr ⟨hcarried, hpurged⟩⟩,
          destination_of_named hbound hpurged hkey]
        rfl
      · rw [hbound] at hmem
        cases hmem
      · exact Bool.eq_false_of_not_eq_true fun hdead => hpurged ⟨hbound, .inl ⟨hrow, hdead⟩⟩

/-- **What is stored of a delivery**: its spans, in the call. -/
structure Stores (C : Connectors α) (delivery : Delivery α) (preset : CapturePreset)
    (callId : String) (c : Catalog) : Prop where
  call : (c.calls.find? (delivery.connector.projectId, callId)).isSome = true
  spans : ∀ s ∈ delivery.spans C preset,
    ∃ row ∈ c.callSpans (delivery.connector.projectId, callId),
      row.key = (delivery.connector.projectId, s.traceId, s.spanId)

/-- The spans are stored in the call their trace is bound to. -/
theorem stores_of_binding {preset' : CapturePreset} {callId : String}
    (hrec : Recorded S c delivery.connector.projectId (delivery.spans C preset) preset' now d)
    (htraces : c'.callTraces = d.callTraces) (hrows : c'.spans = d.spans) (hl : c'.Linked)
    (hbinding : c'.binding (delivery.connector.projectId, delivery.traceId C) = some callId) :
    Stores C delivery preset callId c' := by
  obtain ⟨-, hspans⟩ := delivery.mem_spans (C := C) preset
  refine ⟨hl.trace_call _ _ hbinding, fun s hs => ?_⟩
  have htrace := (hspans s hs).1
  have hkept : delivery.traceId C ∈
      keptIds S c delivery.connector.projectId (delivery.spans C preset) now := by
    refine mem_keptIds.mpr ⟨mem_traceIds.mpr ⟨s, hs, htrace⟩, fun hpurged => ?_⟩
    rw [binding_congr htraces, hrec.binding,
      if_neg fun hk => (mem_keptIds.mp hk.2).2 hpurged, hpurged.1] at hbinding
    cases hbinding
  obtain ⟨row, hrow, hkey⟩ := hrec.exists_span hs (htrace ▸ hkept)
  refine ⟨row, mem_callSpans.mpr ⟨hrows ▸ hrow, congrArg Prod.fst hkey, ?_⟩, hkey⟩
  rw [traceKey_of_key hkey, htrace, hbinding]

/-- A delivery stored in a call has its trace bound to it. -/
theorem Stores.binding {callId : String} (h : Stores C delivery preset callId c) :
    c.binding (delivery.connector.projectId, delivery.traceId C) = some callId := by
  obtain ⟨hne, hspans⟩ := delivery.mem_spans (C := C) preset
  obtain ⟨s, hs⟩ := List.exists_mem_of_ne_nil _ hne
  obtain ⟨row, hrow, hkey⟩ := h.spans s hs
  have hbinding := (mem_callSpans.mp hrow).2.2
  rw [traceKey_of_key hkey, (hspans s hs).1] at hbinding
  exact hbinding

end Batch

/-! ## Applies -/

namespace DeliveryWorld

variable {w w' : DeliveryWorld α} {h : HeldDelivery α} {now : UnixNano} {op : DeliveryOp α}

/-- **The receipt ends**, leased under the token of the handler and with the
content of its delivery; no other receipt changes. -/
structure Ended (w : DeliveryWorld α) (h : HeldDelivery α) (now : UnixNano)
    (callId : Option String) (w' : DeliveryWorld α) : Prop where
  receipt : ∃ row, w.receipts.find? h.receiptId = some row ∧ row.state = .processing ∧
    row.attemptCount = h.token ∧ Carries row h.delivery ∧
    w'.receipts.find? h.receiptId = some (finished callId now row)
  others : ∀ id, id ≠ h.receiptId → w'.receipts.find? id = w.receipts.find? id
  log : w'.log = .applied h.receiptId h.token callId :: w.log

/-- **What an apply commits**: its evidence and its receipt. -/
inductive Applied (S : CallStore) (C : Connectors α) (w : DeliveryWorld α) (h : HeldDelivery α)
    (now : UnixNano) (w' : DeliveryWorld α) : Prop where
  /-- A key a purge left a tombstone of has its receipt only. -/
  | purged (ended : Ended w h now none w')
      (tombstoned : w.catalog.tombstoned h.delivery.connector.projectId
        (S.keyFingerprint h.delivery.connector.projectId h.delivery.sessionKey) now = true)
      (spans : w'.catalog.spans = w.catalog.spans)
      (recordings : w'.catalog.recordings = w.catalog.recordings)
      (fetches : w'.fetches.fetches = w.fetches.fetches)
  /-- The spans are stored in the call the receipt names, and under the full
  preset its recordings and their fetches are. -/
  | stored (preset : CapturePreset) (callId : String) (ended : Ended w h now (some callId) w')
      (reads : w.catalog.readPreset h.delivery.connector.projectId = some preset)
      (live : w.catalog.tombstoned h.delivery.connector.projectId
        (S.keyFingerprint h.delivery.connector.projectId h.delivery.sessionKey) now = false)
      (stores : Stores C h.delivery preset callId w'.catalog)
      (holds : FetchWorld.Holds h.delivery.connector.projectId callId
        h.delivery.connector.endpointId now
        (if preset = .full then h.delivery.providerRecordings C else []) w.fetches w'.fetches)

/-- What is true of every state. -/
structure Sound (w : DeliveryWorld α) : Prop where
  fenced : w.Fenced
  coupled : w.fetches.Coupled
  linked : w.catalog.Linked

/-- **The receipt's call is the spans' call**: a delivery that is applied with
its key not tombstoned finds its trace where its key's call receives it. -/
def Undisturbed (S : CallStore) (C : Connectors α) (w : DeliveryWorld α) : DeliveryOp α → Prop
  | .apply holder now => ∀ h ∈ w.held[holder]?,
      w.catalog.tombstoned h.delivery.connector.projectId
        (S.keyFingerprint h.delivery.connector.projectId h.delivery.sessionKey) now = false →
      w.catalog.Receives S h.delivery.connector.projectId (h.delivery.traceId C)
        h.delivery.sessionKey now
  | _ => True

theorem ended_of_finish {w₁ : DeliveryWorld α} {callId : Option String} (hw : w.Fenced)
    (hheld : h ∈ w.held) (hrun : w₁.finish h.receiptId h.token callId now = some w')
    (hreceipts : w₁.receipts = w.receipts) (hlog : w₁.log = w.log) : Ended w h now callId w' := by
  obtain ⟨howns, hrun⟩ := Option.ite_none_right_eq_some.mp hrun
  obtain rfl := Option.some.inj hrun
  obtain ⟨row, hrow, hstate, htoken⟩ := owns_iff.mp howns
  have hfind := find?_updateReceipt (finished callId now) (fun _ => rfl) hrow
  have hid : row.receiptId = h.receiptId := Table.key_of_find? hrow
  obtain ⟨row', hrow', hclaims⟩ := hw.held h hheld
  rw [hreceipts] at hrow
  obtain rfl := Option.some.inj (hrow'.symm.trans hrow)
  refine ⟨⟨row', hrow, hstate, htoken, hclaims.carries htoken.symm, ?_⟩, fun id hne => ?_, ?_⟩
  · exact (hfind h.receiptId).trans (if_pos hid.symm)
  · refine (hfind id).trans ((if_neg fun heq => hne (heq.trans hid)).trans ?_)
    rw [hreceipts]
  · show ReceiptEvent.applied h.receiptId h.token callId :: w₁.log = _
    rw [hlog]

theorem finish_eq_some {w₁ : DeliveryWorld α} {receiptId : String} {token : ℕ}
    {callId : Option String} (hrun : w₁.finish receiptId token callId now = some w') :
    w'.fetches = w₁.fetches := by
  obtain ⟨-, hrun⟩ := Option.ite_none_right_eq_some.mp hrun
  obtain rfl := Option.some.inj hrun
  rfl

/-- The batch of a delivery touches no recording and no fetch. -/
theorem recorded_spec {fetches recorded : FetchWorld} {p : ProjectId} {prepared : List Prepared}
    (hcoupled : fetches.Coupled)
    (hrun : FetchWorld.step S fetches (.catalog (.recordSpans p prepared 0 now)) = some recorded) :
    ∃ preset d, Recorded S fetches.world.catalog p prepared preset now d ∧
      OnlyCalls d recorded.world.catalog ∧ recorded.recordings = fetches.recordings ∧
      ∀ k, recorded.fetches.jobs.find? k = fetches.fetches.jobs.find? k := by
  obtain ⟨world, hop, rfl⟩ := Option.map_eq_some_iff.mp hrun
  obtain ⟨preset, d, hrec, honly, -⟩ := recorded_of_catalogStep (catalogStep_of_step hop)
  have hrecordings : world.catalog.recordings = fetches.recordings :=
    honly.recordings.trans hrec.recordings
  refine ⟨preset, d, hrec, honly, hrecordings, fun k => ?_⟩
  refine (FetchWorld.find?_cascade _ _).trans ?_
  cases hf : fetches.fetches.jobs.find? k with
  | none => exact ite_self _
  | some f =>
    obtain ⟨r, hr, -⟩ := hcoupled.rows k f hf
    rw [hrecordings, hr]
    rfl

/-- **An apply under a tombstone of the key** commits its receipt. -/
theorem purged_of_apply {preset : CapturePreset} (hw : w.Sound) (hheld : h ∈ w.held)
    (htombstoned : w.catalog.tombstoned h.delivery.connector.projectId
      (S.keyFingerprint h.delivery.connector.projectId h.delivery.sessionKey) now = true)
    (hrun : ({ w with fetches := { w.fetches with world := { w.fetches.world with
      catalog := w.catalog.bumpCounter h.delivery.connector.projectId .purgedCallEvidenceDropped
        (h.delivery.spans C preset).length } } } : DeliveryWorld α).finish h.receiptId h.token none
          now = some w') :
    Applied S C w h now w' ∧ w'.fetches.Coupled ∧ w'.catalog.Linked := by
  have hended := ended_of_finish hw.fenced hheld hrun rfl rfl
  have hfetches := finish_eq_some hrun
  have honly := onlyCalls_bumpCounter (c := w.catalog) h.delivery.connector.projectId
    .purgedCallEvidenceDropped (h.delivery.spans C preset).length
  have hcatalog : w'.catalog = w.catalog.bumpCounter h.delivery.connector.projectId
      .purgedCallEvidenceDropped (h.delivery.spans C preset).length := by
    rw [catalog, hfetches]
  refine ⟨.purged hended htombstoned ?_ ?_ ?_, ?_, ?_⟩
  · rw [hcatalog, honly.spans]
  · rw [hcatalog, honly.recordings]
  · rw [hfetches]
  · rw [hfetches]
    refine hw.coupled.advance ⟨fun _ h => h, fun _ _ h => h,
      fun k r hr hstate _ => ⟨r, ?_, hstate⟩⟩ rfl rfl fun k => ?_
    · exact (congrArg (Table.find? · k) honly.recordings).trans hr
    · have hrows := hw.coupled.rows k
      rw [FetchWorld.recordings] at hrows ⊢
      exact honly.recordings ▸ hrows
  · rw [hcatalog]
    exact hw.linked.bumpCounter _ _

/-- **An apply commits its evidence with its receipt** exactly when its key's
call receives its trace. -/
theorem applied_iff_of_apply (hw : w.Sound) (hheld : h ∈ w.held)
    (hrun : w.apply S C h now = some w') :
    (Applied S C w h now w' ↔ (w.catalog.tombstoned h.delivery.connector.projectId
        (S.keyFingerprint h.delivery.connector.projectId h.delivery.sessionKey) now = false →
      w.catalog.Receives S h.delivery.connector.projectId (h.delivery.traceId C)
        h.delivery.sessionKey now)) ∧ w'.Sound := by
  have hfenced := hw.fenced.of_receiptStep (receiptStep_apply hrun)
  simp only [apply, Option.bind_eq_bind, Option.bind_eq_some_iff] at hrun
  obtain ⟨row, -, hrun⟩ := hrun
  obtain ⟨-, hrun⟩ := Option.ite_none_right_eq_some.mp hrun
  obtain ⟨preset, hpreset, hrun⟩ := Option.bind_eq_some_iff.mp hrun
  split at hrun
  · next htombstoned =>
    obtain ⟨happlied, hcoupled, hlinked⟩ := purged_of_apply hw hheld htombstoned hrun
    refine ⟨iff_of_true happlied fun hlive => ?_, hfenced, hcoupled, hlinked⟩
    rw [htombstoned] at hlive
    cases hlive
  · next hlive =>
    have hlive := Bool.eq_false_of_not_eq_true hlive
    obtain ⟨recorded, hrecord, hrun⟩ := Option.bind_eq_some_iff.mp hrun
    obtain ⟨fetches, hhold, hrun⟩ := Option.bind_eq_some_iff.mp hrun
    have hended := ended_of_finish hw.fenced hheld hrun rfl rfl
    have hfetches := finish_eq_some hrun
    obtain ⟨preset', d, hrec, honly, hrecordings, hjobs⟩ := recorded_spec hw.coupled hrecord
    obtain ⟨hholds, hframe, hcoupled, hlinked⟩ := FetchWorld.holdUnder_spec
      (hw.coupled.of_step hrecord)
      (FetchWorld.linked_onCatalog hw.linked (FetchWorld.onCatalog_of_step hrecord)) hhold
    have hcatalog : w'.catalog =
        { recorded.world.catalog with recordings := fetches.recordings } := by
      rw [catalog, hfetches]
      exact hframe
    have hlinked' : w'.catalog.Linked := by
      rw [catalog, hfetches]
      exact hlinked
    -- the call that is named is the key's before the batch as after it
    have hcall : callOf S recorded.world.catalog h.delivery.connector.projectId
        h.delivery.sessionKey =
          callOf S w.catalog h.delivery.connector.projectId h.delivery.sessionKey := by
      rw [callOf, callOf,
        generation_congr (honly.callKeyGenerations.trans hrec.callKeyGenerations)]
      rfl
    have hbinding : w'.catalog.binding (h.delivery.connector.projectId, h.delivery.traceId C) =
        d.binding (h.delivery.connector.projectId, h.delivery.traceId C) := by
      rw [hcatalog]
      exact binding_congr honly.callTraces _
    have hreceives := binding_recorded_iff_receives hlive hrec
    refine ⟨⟨fun happlied _ => hreceives.mp ?_, fun hall => ?_⟩, hfenced, hfetches ▸ hcoupled,
      hlinked'⟩
    · cases happlied with
      | purged _ hdead =>
        rw [hlive] at hdead
        cases hdead
      | stored _ callId hended' _ _ hstores =>
        have hsame := hended'.log.symm.trans hended.log
        rw [← hbinding, hstores.binding, ← hcall]
        exact congrArg some (by simpa using hsame)
    · have hbound := hreceives.mpr (hall hlive)
      refine .stored preset _ hended hpreset hlive ?_ ?_
      · refine stores_of_binding hrec ?_ ?_ hlinked' ?_
        · rw [hcatalog]
          exact honly.callTraces
        · rw [hcatalog]
          exact honly.spans
        · rw [hbinding, hbound, hcall]
      · rw [hfetches]
        refine ⟨?_, hholds.here, fun r hr => ?_, fun k f hf => ?_⟩
        · rw [← hrecordings]
          exact hholds.grows
        · rw [← hrecordings]
          exact hholds.fetched r hr
        · exact hholds.fetches k f ((hjobs k).trans hf)

/-- A replayed delivery's refresh changes no row but the URLs of fetches. -/
theorem refreshFetchUrls_spec {d : Delivery α} (hcoupled : w.fetches.Coupled)
    (hrun : w.refreshFetchUrls S C d now = some w') :
    w'.catalog = w.catalog ∧ w'.log = w.log ∧ w'.fetches.Coupled ∧
      ∀ k, (w'.fetches.fetches.jobs.find? k).isSome = (w.fetches.fetches.jobs.find? k).isSome := by
  obtain ⟨fetches, hfold, rfl⟩ := Option.map_eq_some_iff.mp hrun
  have hall : ∀ (recordings : List ProviderRecording) (f f' : FetchWorld), f.Coupled →
      recordings.foldlM (fun fetches recording =>
        FetchWorld.refreshUrl S fetches d.connector.projectId recording now) f = some f' →
      f'.world = f.world ∧ f'.Coupled ∧
        ∀ k, (f'.fetches.jobs.find? k).isSome = (f.fetches.jobs.find? k).isSome := by
    intro recordings
    induction recordings with
    | nil =>
      intro f f' hf hfold
      obtain rfl := Option.some.inj hfold
      exact ⟨rfl, hf, fun _ => rfl⟩
    | cons recording recordings ih =>
      intro f f' hf hfold
      rw [List.foldlM_cons, Option.bind_eq_bind, Option.bind_eq_some_iff] at hfold
      obtain ⟨f₁, hone, hrest⟩ := hfold
      obtain ⟨hworld, -, hsome, -⟩ := FetchWorld.refreshUrl_spec hone
      obtain ⟨hworld', hcoupled', hsome'⟩ := ih f₁ f' (FetchWorld.coupled_refreshUrl hf hone) hrest
      exact ⟨hworld'.trans hworld, hcoupled', fun k => (hsome' k).trans (hsome k)⟩
  obtain ⟨hworld, hcoupled', hsome⟩ := hall _ _ _ hcoupled hfold
  exact ⟨congrArg World.catalog hworld, rfl, hcoupled', hsome⟩

/-! ## Every run -/

theorem sound_init (S : CallStore) : (init : DeliveryWorld α).Sound where
  fenced := fenced_init
  coupled := FetchWorld.coupled_after S []
  linked := linked_empty

/-- **Every transaction keeps the state sound.** -/
theorem Sound.of_step (hw : w.Sound) (hrun : step S C w op = some w') : w'.Sound := by
  have hfenced := hw.fenced.of_receiptStep (receiptStep_of_step hrun)
  have hsame : w'.fetches = w.fetches → w'.Sound := by
    intro hfetches
    refine ⟨hfenced, ?_, ?_⟩
    · rw [hfetches]
      exact hw.coupled
    · rw [catalog, hfetches]
      exact hw.linked
  cases op with
  | other op =>
    obtain ⟨fetches, hstep, rfl⟩ := Option.map_eq_some_iff.mp hrun
    exact ⟨hfenced, hw.coupled.of_step hstep,
      FetchWorld.linked_onCatalog hw.linked (FetchWorld.onCatalog_of_step hstep)⟩
  | configure connector =>
    obtain rfl := Option.some.inj hrun
    exact hsame rfl
  | claim d => exact hsame (receiptStep_claim hrun).2
  | apply holder now =>
    obtain ⟨h, hholder, happly⟩ := Option.bind_eq_some_iff.mp hrun
    exact (applied_iff_of_apply hw (List.mem_of_getElem? hholder) happly).2
  | fail =>
    obtain ⟨h, -, hfail⟩ := Option.bind_eq_some_iff.mp hrun
    exact hsame (receiptStep_fail hfail).2
  | refreshFetchUrls d now =>
    obtain ⟨hcatalog, -, hcoupled, -⟩ := refreshFetchUrls_spec hw.coupled hrun
    exact ⟨hfenced, hcoupled, hcatalog ▸ hw.linked⟩

end DeliveryWorld

end Earshot
