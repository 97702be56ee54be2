import Earshot.History.Batching
/-!
# Delivering a batch twice

A client that got no answer sends its batch again. Once a batch that drops
no trace has committed, the catalog holds it (`Catalog.Holds`): each of its
spans is stored, and each of its traces is bound or waits for a key the
batch does not name. Every later operation keeps it, short of one that
deletes a trace, and a batch the catalog holds changes no row
(`Recorded.sameRows`). A batch under a live tombstone is dropped instead,
and stored when the tombstone has expired (`not_harmlessResend_expired`).
-/

namespace Earshot

open Relational

/-- The rows of every table are the same, but for the counters and the
resources. -/
structure SameRows (c c' : Catalog) : Prop where
  projects : c'.projects = c.projects
  calls : ∀ k, c'.calls.find? k = c.calls.find? k
  callTraces : ∀ k, c'.callTraces.find? k = c.callTraces.find? k
  spans : c'.spans.rows = c.spans.rows
  recordings : c'.recordings = c.recordings
  callRevisions : c'.callRevisions = c.callRevisions
  callKeyGenerations : c'.callKeyGenerations = c.callKeyGenerations
  callTombstones : c'.callTombstones = c.callTombstones

theorem SameRows.of_onlyCalls {c d c' : Catalog} (h : SameRows c d) (honly : Catalog.OnlyCalls d c')
    (hcalls : c'.calls = d.calls) : SameRows c c' where
  projects := honly.projects.trans h.projects
  calls k := by rw [hcalls, h.calls]
  callTraces k := by rw [honly.callTraces, h.callTraces]
  spans := by rw [honly.spans, h.spans]
  recordings := honly.recordings.trans h.recordings
  callRevisions := honly.callRevisions.trans h.callRevisions
  callKeyGenerations := honly.callKeyGenerations.trans h.callKeyGenerations
  callTombstones := honly.callTombstones.trans h.callTombstones

/-- **The catalog holds the batch**: its spans are stored, and its unbound
traces are ones it names no key for. -/
structure Catalog.HoldsBatch (c : Catalog) (p : ProjectId) (prepared : List Prepared) : Prop where
  trace : ∀ t ∈ traceIds prepared, (c.callTraces.find? (p, t)).isSome = true
  span : ∀ s ∈ prepared, (c.spans.find? (p, s.traceId, s.spanId)).isSome = true
  unnamed : ∀ t, c.binding (p, t) = none → namedKey prepared t = none

namespace Catalog

variable {S : CallStore} {c c' : Catalog} {p p' : ProjectId} {prepared prepared' : List Prepared}
variable {preset : CapturePreset} {now : UnixNano} {t : TraceId}

/-! ## The first delivery -/

/-- A batch that drops none of its traces is held. -/
theorem holdsBatch_recorded (h : Recorded S c p prepared preset now c')
    (hkept : ∀ t ∈ traceIds prepared, ¬ purgedTrace S c p prepared now t) :
    HoldsBatch c' p prepared := by
  have hids : ∀ t ∈ traceIds prepared, t ∈ keptIds S c p prepared now :=
    fun t ht => mem_keptIds.mpr ⟨ht, hkept t ht⟩
  refine ⟨fun t ht => ?_, fun s hs => ?_, fun t hb => ?_⟩
  · rw [h.callTraces, if_pos ⟨rfl, hids t ht⟩]
    rfl
  · have ht : s.traceId ∈ traceIds prepared := mem_traceIds.mpr ⟨s, hs, rfl⟩
    rw [Table.find?_isSome_iff]
    cases hr : c.spans.find? (p, s.traceId, s.spanId) with
    | some r =>
        obtain ⟨hmem, hkey⟩ := Table.find?_eq_some.mp hr
        refine ⟨r, h.mem_spans.mpr (Or.inl ⟨hmem, ?_⟩), hkey⟩
        rw [← Bool.not_eq_true]
        intro hd
        have htrace : r.traceId = s.traceId := congrArg (fun k => k.2.1) hkey
        exact hkept _ ht (htrace ▸ (dropsKey_goneTraces.mp hd).2.2.2)
    | none =>
        -- the first span of the batch with this ID is new
        have hsome : (prepared.find? fun x =>
            x.traceId = s.traceId && x.spanId = s.spanId).isSome = true := by
          rw [List.find?_isSome]
          exact ⟨s, hs, by simp⟩
        obtain ⟨x, hx⟩ := Option.isSome_iff_exists.mp hsome
        have hxs := List.find?_some hx
        rw [Bool.and_eq_true, decide_eq_true_eq, decide_eq_true_eq] at hxs
        have hnew : x ∈ newSpans S c p prepared now s.traceId := by
          rw [mem_newSpans, hxs.2]
          exact ⟨hx, fun _ => hr⟩
        refine ⟨spanRow p now x, h.mem_spans.mpr (Or.inr (mem_newRows.mpr
          ⟨s.traceId, hids _ ht, x, hnew, rfl⟩)), ?_⟩
        exact Prod.ext rfl (Prod.ext hxs.1 hxs.2)
  · by_cases ht : t ∈ traceIds prepared
    · rw [h.binding, if_pos ⟨rfl, hids t ht⟩] at hb
      by_contra hne
      obtain ⟨key, hkey⟩ := Option.ne_none_iff_exists'.mp hne
      cases hbound : c.binding (p, t) with
      | some callId =>
          rw [destination_of_bound hbound] at hb
          cases hb
      | none =>
          rw [destination_of_named hbound (hkept t ht) hkey] at hb
          cases hb
    · rw [namedKey, firstKey_eq_none]
      intro s hs
      rw [List.mem_filter, decide_eq_true_eq] at hs
      exact absurd (mem_traceIds.mpr ⟨s, hs⟩) ht

/-! ## What keeps it -/

/-- What deletes no trace of the batch, and unbinds none, keeps it held. -/
theorem HoldsBatch.of_kept (hheld : HoldsBatch c p prepared)
    (htrace : ∀ t ∈ traceIds prepared, (c.callTraces.find? (p, t)).isSome = true →
      (c'.callTraces.find? (p, t)).isSome = true)
    (hspan : ∀ t ∈ traceIds prepared, ∀ x, (c.spans.find? (p, t, x)).isSome = true →
      (c'.spans.find? (p, t, x)).isSome = true)
    (hbinding : ∀ t, c'.binding (p, t) = none → c.binding (p, t) = none) :
    HoldsBatch c' p prepared where
  trace t ht := htrace t ht (hheld.trace t ht)
  span s hs := hspan _ (mem_traceIds.mpr ⟨s, hs, rfl⟩) _ (hheld.span s hs)
  unnamed t hb := hheld.unnamed t (hbinding t hb)

theorem HoldsBatch.of_tables (hheld : HoldsBatch c p prepared)
    (htraces : c'.callTraces = c.callTraces)
    (hspans : c'.spans = c.spans) : HoldsBatch c' p prepared :=
  hheld.of_kept (fun t _ h => by rwa [htraces]) (fun t _ x h => by rwa [hspans])
    fun t h => by rwa [binding_congr htraces] at h

/-- Another batch keeps it, when it drops none of its traces. -/
theorem HoldsBatch.recorded (hheld : HoldsBatch c p prepared)
    (h : Recorded S c p' prepared' preset now c')
    (hkept : p' = p → ∀ t ∈ traceIds prepared, t ∈ traceIds prepared' →
      ¬ purgedTrace S c p prepared' now t) : HoldsBatch c' p prepared := by
  have hdrops : ∀ t ∈ traceIds prepared,
      dropsKey p' (goneTraces S c p' prepared' now) (p, t) = false := by
    intro t ht
    rw [← Bool.not_eq_true]
    intro hd
    obtain ⟨rfl, ht', -, hpurged⟩ := dropsKey_goneTraces.mp hd
    exact hkept rfl t ht ht' hpurged
  refine hheld.of_kept (fun t ht hsome => ?_) (fun t ht x hsome => ?_) fun t hb => ?_
  · rw [h.callTraces, hdrops t ht]
    split
    · rfl
    · rw [if_neg Bool.false_ne_true]
      exact hsome
  · obtain ⟨r, hmem, hkey⟩ := Table.find?_isSome_iff.mp hsome
    refine Table.find?_isSome_iff.mpr ⟨r, h.mem_spans.mpr (Or.inl ⟨hmem, ?_⟩), hkey⟩
    have htrace : r.traceKey = (p, t) := by
      obtain ⟨hp, hid⟩ := Prod.mk.inj hkey
      exact Prod.ext hp (Prod.mk.inj hid).1
    rw [htrace]
    exact hdrops t ht
  · by_contra hne
    obtain ⟨callId, hid⟩ := Option.ne_none_iff_exists'.mp hne
    rw [h.binding_of_some hid] at hb
    cases hb

/-- A claim marks spans and deletes none. -/
theorem HoldsBatch.claimed (hheld : HoldsBatch c p prepared) {r : Call} :
    HoldsBatch (c.claimed r now) p prepared := by
  refine hheld.of_kept (fun t _ h => h) (fun t _ x hsome => ?_) fun t h => h
  obtain ⟨s, hmem, hkey⟩ := Table.find?_isSome_iff.mp hsome
  exact Table.find?_isSome_iff.mpr ⟨_, mem_spans_claimed.mpr ⟨s, hmem, rfl⟩,
    (c.markSpan_key r.key r.nextRevision s).trans hkey⟩

end Catalog

/-- The operation deletes no trace of the batch: it is no purge, no
collection of parked traces, and no batch that drops one of the traces as
purged. -/
def Op.Keeps (S : CallStore) (c : Catalog) (p : ProjectId) (prepared : List Prepared) : Op → Prop
  | .recordSpans p' prepared' _ now =>
      p' = p → ∀ t ∈ traceIds prepared, t ∈ traceIds prepared' →
        ¬ purgedTrace S c p prepared' now t
  | .purgeCall _ _ => False
  | .collectParkedTraces _ _ _ => False
  | _ => True

theorem holdsBatch_step {S : CallStore} {c c' : Catalog} {p : ProjectId}
    {prepared : List Prepared} {op : Op} (hheld : c.HoldsBatch p prepared)
    (hop : op.Keeps S c p prepared) (h : CatalogStep S c op c') : c'.HoldsBatch p prepared := by
  have hstep := h
  cases h with
  | provisionProject | setCapturePreset | beginProjectDeletion | failStaleUploads
  | collectExpiredTombstones | releaseLeases => exact hheld.of_tables rfl rfl
  | recordSpans =>
      obtain ⟨_, d, hd, honly, -⟩ := recorded_of_catalogStep hstep
      exact (hheld.recorded hd hop).of_tables honly.callTraces honly.spans
  | createRecording hrun =>
      rcases Catalog.createRecording_cases hrun with rfl | rfl | ⟨-, -, c₁, h₁, rfl⟩
      · exact hheld
      · have honly := Catalog.onlyCalls_bumpCounter (c := c) (by assumption)
          .purgedCallEvidenceDropped 1
        exact hheld.of_tables honly.callTraces honly.spans
      · have honly := Catalog.onlyCalls_insertCalls h₁
        exact hheld.of_tables honly.callTraces honly.spans
  | finishUpload hrun =>
      obtain ⟨row, -, -, rfl⟩ := Catalog.finishUpload_eq_some hrun
      exact hheld.of_tables Catalog.onlyCalls_addCallEvidence.callTraces
        Catalog.onlyCalls_addCallEvidence.spans
  | collectParkedTraces => exact hop.elim
  | claim hrun =>
      obtain ⟨d, ha, ⟨-, rfl⟩ | ⟨r, preset, -, -, -, -, -, -, rfl⟩⟩ := Catalog.claim_cases hrun
      · exact hheld.of_tables ha.onlyCalls.callTraces ha.onlyCalls.spans
      · exact (hheld.of_tables ha.onlyCalls.callTraces ha.onlyCalls.spans).claimed
  | finish hrun =>
      obtain ⟨r, -, -, -, ⟨-, rfl⟩ | ⟨-, -, rfl⟩⟩ := Catalog.finish_cases hrun
      · exact hheld.of_tables rfl rfl
      · exact hheld.of_tables Catalog.onlyCalls_noteEvidencePastCap.callTraces
          Catalog.onlyCalls_noteEvidencePastCap.spans
  | fail hrun =>
      obtain ⟨r, -, -, -, attempts, due, rfl⟩ := Catalog.fail_eq_some hrun
      exact hheld.of_tables rfl rfl
  | purgeCall => exact hop.elim

/-! ## The second delivery -/

section Second

variable {S : CallStore} {c c' : Catalog} {p : ProjectId} {prepared : List Prepared}
variable {preset : CapturePreset} {now : UnixNano} {t : TraceId}

namespace Catalog.HoldsBatch

variable (hheld : c.HoldsBatch p prepared)

include hheld

theorem not_purgedTrace (ht : t ∈ traceIds prepared) : ¬ purgedTrace S c p prepared now t := by
  rintro ⟨hb, ⟨hrow, -⟩ | ⟨key, hkey, -⟩⟩
  · have hsome := hheld.trace t ht
    rw [hrow] at hsome
    cases hsome
  · rw [hheld.unnamed t hb] at hkey
    cases hkey

theorem newSpans_eq_nil (ht : t ∈ traceIds prepared) : newSpans S c p prepared now t = [] := by
  refine List.eq_nil_iff_forall_not_mem.mpr fun s hs => ?_
  obtain ⟨hmem, hst⟩ := newSpans_subset hs
  have hnone := (mem_newSpans.mp hs).2 (hheld.trace t ht)
  have hsome := hheld.span s hmem
  rw [hst, hnone] at hsome
  cases hsome

/-- A trace goes where it is. -/
theorem destination_eq : destination S c p prepared now t = c.binding (p, t) := by
  cases hb : c.binding (p, t) with
  | some callId => exact destination_of_bound hb
  | none => exact destination_of_unnamed hb (hheld.unnamed t hb)

theorem mem_keptIds_iff : t ∈ keptIds S c p prepared now ↔ t ∈ traceIds prepared := by
  rw [mem_keptIds]
  exact ⟨And.left, fun ht => ⟨ht, hheld.not_purgedTrace ht⟩⟩

/-- No call is credited. -/
theorem spans_creditOf_eq_zero (callId : String) :
    (creditOf S c p prepared now callId).spans = 0 := by
  refine List.sum_eq_zero fun n hn => ?_
  obtain ⟨t, ht, rfl⟩ := List.mem_map.mp hn
  obtain ⟨hkept, hdest⟩ := List.mem_filter.mp ht
  have hbound : c.binding (p, t) = some callId := by
    rw [← hheld.destination_eq]
    exact of_decide_eq_true hdest
  rw [hheld.newSpans_eq_nil (hheld.mem_keptIds_iff.mp hkept), joiningSpans, hbound]
  simp

theorem newRows_eq_nil : newRows S c p prepared now = [] := by
  refine List.eq_nil_iff_forall_not_mem.mpr fun s hs => ?_
  obtain ⟨t, ht, x, hx, -⟩ := mem_newRows.mp hs
  rw [hheld.newSpans_eq_nil (hheld.mem_keptIds_iff.mp ht)] at hx
  exact absurd hx List.not_mem_nil

theorem keptRow_eq (ht : t ∈ traceIds prepared) (r : CallTrace) :
    keptRow S c p prepared now t r = r := by
  rw [keptRow, if_neg]
  rintro (hnew | ⟨-, hb, hdest⟩)
  · exact hnew (hheld.newSpans_eq_nil ht)
  · exact hdest (hheld.destination_eq.trans hb)

end Catalog.HoldsBatch

/-- **A batch the catalog holds changes no row.** -/
theorem Recorded.sameRows (hl : c.Linked) (hheld : c.HoldsBatch p prepared)
    (h : Recorded S c p prepared preset now c') : SameRows c c' := by
  have hdrops : ∀ k, Catalog.dropsKey p (goneTraces S c p prepared now) k = false := by
    intro k
    rw [← Bool.not_eq_true]
    intro hd
    obtain ⟨-, ht, -, hpurged⟩ := dropsKey_goneTraces.mp hd
    exact hheld.not_purgedTrace ht hpurged
  refine ⟨h.projects, fun k => ?_, fun k => ?_, ?_, h.recordings, h.callRevisions,
    h.callKeyGenerations, h.callTombstones⟩
  · obtain ⟨p', callId⟩ := k
    by_cases hp : p' = p
    · subst hp
      cases hr : c.calls.find? (p', callId) with
      | some r =>
          rw [h.calls_stored callId r hr, creditedRow,
            if_pos (hheld.spans_creditOf_eq_zero r.callId)]
      | none =>
          cases hr' : c'.calls.find? (p', callId) with
          | none => rfl
          | some r' =>
              -- a new call's trace would be bound to it already
              obtain ⟨t, ht⟩ := Catalog.exists_binding_of_new h hr (by rw [hr']; rfl)
              have hbound : c.binding (p', t) = some callId := by
                rw [h.binding] at ht
                split at ht
                · rwa [hheld.destination_eq] at ht
                · exact ht
              have hcall := hl.trace_call _ _ hbound
              rw [hr] at hcall
              cases hcall
    · exact h.calls_other _ hp
  · rw [h.callTraces, hdrops, if_neg Bool.false_ne_true]
    split
    · rename_i hk
      have ht := hheld.mem_keptIds_iff.mp hk.2
      have hsome := hheld.trace _ ht
      rw [← hk.1] at hsome
      obtain ⟨r, hr⟩ := Option.isSome_iff_exists.mp hsome
      rw [hr, hheld.keptRow_eq ht, Option.getD_some]
    · rfl
  · rw [h.spans, hheld.newRows_eq_nil, List.append_nil, List.filter_eq_self]
    intro s _
    rw [hdrops]
    rfl

end Second

/-! ## Both deliveries -/

/-- A batch that commits after `ops`, and again after `between`, changes no
row the second time. -/
def HarmlessResend (S : CallStore) (ops between : List Op) (p : ProjectId)
    (prepared : List Prepared) (rejected₁ rejected₂ : ℕ) (now₁ now₂ : UnixNano) : Prop :=
  ∀ w₁ w₂, step S (worldAfter S ops) (.recordSpans p prepared rejected₁ now₁) = some w₁ →
    step S (Transition.run (step S) w₁ between) (.recordSpans p prepared rejected₂ now₂) =
      some w₂ →
    SameRows (Transition.run (step S) w₁ between).catalog w₂.catalog

/-- **At-least-once delivery is harmless**: a batch whose first commit drops
no trace as purged changes no row when it commits again, after any
operations that delete none of its traces. -/
theorem harmlessResend_of_kept {S : CallStore} {ops between : List Op} {p : ProjectId}
    {prepared : List Prepared} {rejected₁ rejected₂ : ℕ} {now₁ now₂ : UnixNano}
    (hfirst : ∀ t ∈ traceIds prepared,
      ¬ purgedTrace S (worldAfter S ops).catalog p prepared now₁ t)
    (hbetween : ∀ w₁, step S (worldAfter S ops) (.recordSpans p prepared rejected₁ now₁) = some w₁ →
      ∀ pre op post, between = pre ++ op :: post →
        op.Keeps S (Transition.run (step S) w₁ pre).catalog p prepared) :
    HarmlessResend S ops between p prepared rejected₁ rejected₂ now₁ now₂ := by
  intro w₁ w₂ h₁ h₂
  -- the catalog links and holds the batch after the first commit
  have hheld₁ : w₁.catalog.Linked ∧ w₁.catalog.HoldsBatch p prepared := by
    refine ⟨linked_step (linked_worldAfter S ops) (catalogStep_of_step h₁), ?_⟩
    obtain ⟨preset, d, hrec, honly, -⟩ := recorded_of_catalogStep (catalogStep_of_step h₁)
    exact (Catalog.holdsBatch_recorded hrec hfirst).of_tables honly.callTraces honly.spans
  have hheld := Transition.run_induction_of_guarded
    (P := fun w => w.catalog.Linked ∧ w.catalog.HoldsBatch p prepared)
    (G := fun w op => op.Keeps S w.catalog p prepared)
    (fun w op w' hop hw h => ⟨linked_step hw.1 (catalogStep_of_step h),
      holdsBatch_step hw.2 hop (catalogStep_of_step h)⟩) between w₁ (hbetween w₁ h₁) hheld₁
  obtain ⟨preset, d, hrec, honly, hcalls⟩ := recorded_of_catalogStep (catalogStep_of_step h₂)
  exact (hrec.sameRows hheld.1 hheld.2).of_onlyCalls honly hcalls

/-- A batch of two spans, delivered before and after its call is claimed. -/
theorem harmlessResend_claimed :
    ∃ w₁ w₂,
      step plainStore (worldAfter plainStore [.provisionProject demoProject .full])
        (.recordSpans demoProject [demoSpan 1 1 "app" "a" none, demoSpan 1 2 "app" "b" (some "k")]
          0 10) = some w₁ ∧
      step plainStore (Transition.run (step plainStore) w₁ [.claim [] 100])
        (.recordSpans demoProject [demoSpan 1 1 "app" "a" none, demoSpan 1 2 "app" "b" (some "k")]
          0 110) = some w₂ ∧
      SameRows (Transition.run (step plainStore) w₁ [.claim [] 100]).catalog w₂.catalog := by
  have hsome₁ : (step plainStore (worldAfter plainStore [.provisionProject demoProject .full])
      (.recordSpans demoProject [demoSpan 1 1 "app" "a" none, demoSpan 1 2 "app" "b" (some "k")]
        0 10)).isSome = true := by decide
  have hsome₂ : (step plainStore
      (worldAfter plainStore ([.provisionProject demoProject .full] ++
        [.recordSpans demoProject
          [demoSpan 1 1 "app" "a" none, demoSpan 1 2 "app" "b" (some "k")] 0 10, .claim [] 100]))
      (.recordSpans demoProject [demoSpan 1 1 "app" "a" none, demoSpan 1 2 "app" "b" (some "k")]
        0 110)).isSome = true := by decide
  obtain ⟨w₁, h₁⟩ := Option.isSome_iff_exists.mp hsome₁
  obtain ⟨w₂, h₂⟩ := Option.isSome_iff_exists.mp hsome₂
  rw [worldAfter, Transition.run_append, Transition.run_cons, ← worldAfter,
    Transition.next_of_some h₁] at h₂
  refine ⟨w₁, w₂, h₁, h₂, harmlessResend_of_kept (fun t _ => ?_) (fun _ _ pre op post hops => ?_)
    w₁ w₂ h₁ h₂⟩
  · exact Catalog.not_purgedTrace fun _ => rfl
  · have hop : op ∈ [Op.claim [] 100] := by
      rw [hops]
      exact List.mem_append_right _ List.mem_cons_self
    rw [List.mem_singleton.mp hop]
    trivial

/-- A call recorded and purged. -/
def purgedRun : List Op :=
  demoRun [demoSpan 1 1 "app" "a" (some "k")] ++
    (worldAfter plainStore (demoRun [demoSpan 1 1 "app" "a" (some "k")])).catalog.calls.rows.map
      fun r => .purgeCall r.key 20

/-- Late evidence of the purged key is dropped while the tombstone is live,
and stored when it is sent again after the tombstone expired. -/
theorem not_harmlessResend_expired :
    ¬ HarmlessResend plainStore purgedRun [] demoProject [demoSpan 2 1 "app" "b" (some "k")]
      0 0 30 1000000000000000 := by
  intro h
  have hsome₁ : (step plainStore (worldAfter plainStore purgedRun) (.recordSpans demoProject
      [demoSpan 2 1 "app" "b" (some "k")] 0 30)).isSome = true := by decide
  have hsome₂ : (step plainStore (worldAfter plainStore (purgedRun ++ [.recordSpans demoProject
      [demoSpan 2 1 "app" "b" (some "k")] 0 30])) (.recordSpans demoProject
        [demoSpan 2 1 "app" "b" (some "k")] 0 1000000000000000)).isSome = true := by decide
  have hempty : (worldAfter plainStore (purgedRun ++ [.recordSpans demoProject
      [demoSpan 2 1 "app" "b" (some "k")] 0 30])).catalog.spans.rows.length = 0 := by decide
  have hstored : (worldAfter plainStore ((purgedRun ++ [.recordSpans demoProject
      [demoSpan 2 1 "app" "b" (some "k")] 0 30]) ++ [.recordSpans demoProject
        [demoSpan 2 1 "app" "b" (some "k")] 0 1000000000000000])).catalog.spans.rows.length = 1 := by
    decide
  obtain ⟨w₁, h₁⟩ := Option.isSome_iff_exists.mp hsome₁
  obtain ⟨w₂, h₂⟩ := Option.isSome_iff_exists.mp hsome₂
  rw [worldAfter_concat h₂] at hstored
  rw [worldAfter_concat h₁] at h₂ hempty
  rw [(h w₁ w₂ h₁ h₂).spans, Transition.run_nil, hempty] at hstored
  cases hstored

end Earshot
