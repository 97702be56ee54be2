import Earshot.Effects.Linked
/-!
# Resource rows and span rows

A span's resource is stored once a digest. A row is inserted for every span
of a kept trace, before the batch knows which of them are new, and deleted
with the last span that names it. So every stored span's resource is
stored, and every resource is some stored span's, until a batch brings the
resource of a span it does not store (`inStep_iff`).
-/

namespace Earshot

open Relational

namespace Catalog

/-- A stored span of the project names the digest. -/
def Names (c : Catalog) (k : ProjectId × Digest) : Prop :=
  ∃ s ∈ c.spans, s.projectId = k.1 ∧ s.resourceDigest = k.2

/-- The digest's row is stored. -/
def HasResource (c : Catalog) (k : ProjectId × Digest) : Prop :=
  (c.otlpResources.find? k).isSome = true

instance (c : Catalog) (k : ProjectId × Digest) : Decidable (c.HasResource k) :=
  inferInstanceAs (Decidable (_ = true))

/-- **Resources and spans are in step**: a resource is stored exactly when a
stored span names it. -/
structure InStep (c : Catalog) : Prop where
  stored : ∀ k, c.Names k → c.HasResource k
  named : ∀ k, c.HasResource k → c.Names k

/-- A stored span that stays, or a span the batch stores, names the digest. -/
def Carries (S : CallStore) (c : Catalog) (p : ProjectId) (prepared : List Prepared)
    (now : UnixNano) (digest : Digest) : Prop :=
  (∃ s ∈ c.spans, s.projectId = p ∧ s.resourceDigest = digest ∧
    ¬ (s.traceId ∈ traceIds prepared ∧ purgedTrace S c p prepared now s.traceId)) ∨
  ∃ x ∈ prepared, x.resourceDigest = digest ∧ ¬ purgedTrace S c p prepared now x.traceId ∧
    prepared.find? (fun y => y.traceId = x.traceId && y.spanId = x.spanId) = some x ∧
    c.spans.find? (p, x.traceId, x.spanId) = none

/-- The batch brings a resource that no span will name. -/
def Orphans (S : CallStore) (c : Catalog) (p : ProjectId) (prepared : List Prepared)
    (now : UnixNano) : Prop :=
  ∃ s ∈ prepared, ¬ purgedTrace S c p prepared now s.traceId ∧
    ¬ c.Carries S p prepared now s.resourceDigest

variable {S : CallStore} {c c' d : Catalog} {p : ProjectId} {prepared : List Prepared}
variable {preset : CapturePreset} {now : UnixNano} {k : ProjectId × Digest}

theorem names_congr (h : c'.spans = c.spans) : c'.Names k ↔ c.Names k := by
  rw [Names, Names, h]

theorem inStep_empty : InStep empty := by
  refine ⟨fun k hk => ?_, fun k hk => ?_⟩
  · obtain ⟨s, hs, -⟩ := hk
    exact absurd hs List.not_mem_nil
  · exact absurd hk Bool.false_ne_true

theorem InStep.of_tables (h : InStep c) (hspans : c'.spans = c.spans)
    (hresources : c'.otlpResources = c.otlpResources) : InStep c' where
  stored k hk := by
    rw [HasResource, hresources]
    exact h.stored k ((names_congr hspans).mp hk)
  named k hk := by
    rw [HasResource, hresources] at hk
    exact (names_congr hspans).mpr (h.named k hk)

/-! ## Deleting -/

theorem hasResource_deleteUnreferencedResources {digests : List Digest} :
    (c.deleteUnreferencedResources p digests).HasResource k ↔
      c.HasResource k ∧ (k.1 = p → k.2 ∈ digests → c.Names k) := by
  have hnames : (c.spans.rows.any fun s => s.projectId == k.1 && s.resourceDigest == k.2) = true ↔
      c.Names k := by simp [Names, Table.mem_def]
  rw [HasResource, deleteUnreferencedResources, Table.find?_delete, HasResource]
  cases hr : c.otlpResources.find? k with
  | none => simp
  | some r =>
      obtain rfl : r.key = k := Table.key_of_find? hr
      rw [Option.isSome_filter, Option.any_some, Option.isSome_some, ← hnames]
      simp only [OtlpResource.key, Bool.not_eq_true', Bool.and_eq_false_imp, Bool.and_eq_true,
        beq_iff_eq, List.contains_iff_mem, Bool.not_eq_false', and_imp, true_and]
      constructor
      · rintro h rfl hd
        exact h rfl hd
      · rintro h rfl hd
        exact h rfl hd

/-- Of one digest: a span that names it has its row. -/
def Stored (c : Catalog) : Prop := ∀ k, c.Names k → c.HasResource k

/-- **A deletion that takes some spans, then the listed resources no span
names**, keeps both halves when it lists the spans' digests. -/
theorem resources_deleted {digests : List Digest} (hspans : ∀ s ∈ d.spans, s ∈ c.spans)
    (hresources : d.otlpResources = c.otlpResources)
    (hdigests : ∀ s ∈ c.spans, s ∉ d.spans → s.projectId = p ∧ s.resourceDigest ∈ digests) :
    (Stored c → Stored (d.deleteUnreferencedResources p digests)) ∧
      ∀ k, (c.HasResource k → c.Names k) → (d.deleteUnreferencedResources p digests).HasResource k →
        (d.deleteUnreferencedResources p digests).Names k := by
  have hhas : ∀ k, d.HasResource k ↔ c.HasResource k := fun k => by
    rw [HasResource, HasResource, hresources]
  refine ⟨fun hstored k hk => ?_, fun k hnamed hk => ?_⟩
  · have hd : d.Names k := hk
    obtain ⟨s, hs, hsk⟩ := hd
    rw [hasResource_deleteUnreferencedResources, hhas]
    exact ⟨hstored k ⟨s, hspans s hs, hsk⟩, fun _ _ => hk⟩
  · rw [hasResource_deleteUnreferencedResources, hhas] at hk
    obtain ⟨s, hs, hp, hdigest⟩ := hnamed hk.1
    by_cases hstays : s ∈ d.spans
    · exact ⟨s, hstays, hp, hdigest⟩
    · -- the span is gone, so its digest was listed
      obtain ⟨hsp, hlisted⟩ := hdigests s hs hstays
      exact hk.2 (hp.symm.trans hsp) (hdigest ▸ hlisted)

theorem resources_deleteTrace {t : TraceId} :
    (Stored c → Stored (c.deleteTrace p t)) ∧
      ∀ k, (c.HasResource k → c.Names k) → (c.deleteTrace p t).HasResource k →
        (c.deleteTrace p t).Names k := by
  have hmem : ∀ s, s ∈ c.spans.delete (·.traceKey = (p, t)) ↔ s ∈ c.spans ∧ s.traceKey ≠ (p, t) :=
    fun s => by rw [Table.mem_delete, decide_eq_false_iff_not]
  refine resources_deleted (fun s hs => ((hmem s).mp hs).1) rfl fun s hs hno => ?_
  have hkey : s.traceKey = (p, t) := by
    by_contra hne
    exact hno ((hmem s).mpr ⟨hs, hne⟩)
  exact ⟨congrArg Prod.fst hkey, List.mem_map_of_mem (mem_spansOf.mpr ⟨hs, hkey⟩)⟩

theorem resources_dropTraces (c : Catalog) (p : ProjectId) (gone : List Trace) :
    (Stored c → Stored (c.dropTraces p gone)) ∧
      ∀ k, (c.HasResource k → c.Names k) → (c.dropTraces p gone).HasResource k →
        (c.dropTraces p gone).Names k := by
  unfold dropTraces
  generalize gone.filter (·.row.isSome) = l
  induction l generalizing c with
  | nil => exact ⟨id, fun _ h => h⟩
  | cons tr l ih =>
      obtain ⟨hstored, hnamed⟩ := resources_deleteTrace (c := c) (p := p) (t := tr.traceId)
      rw [List.foldl_cons]
      exact ⟨fun h => (ih _).1 (hstored h), fun k h => (ih _).2 k (hnamed k h)⟩

theorem resources_deleteCall {k' : CallKey} :
    (Stored c → Stored (c.deleteCall k')) ∧
      ∀ k, (c.HasResource k → c.Names k) → (c.deleteCall k').HasResource k →
        (c.deleteCall k').Names k := by
  refine resources_deleted (fun s hs => (mem_spans_deleteCall.mp hs).1) rfl fun s hs hno => ?_
  have hbound : c.bound k' s.traceKey = true := by
    rw [← Bool.not_eq_false]
    exact fun hb => hno (mem_spans_deleteCall.mpr ⟨hs, hb⟩)
  refine ⟨(bound_iff.mp hbound).1, List.mem_map_of_mem ?_⟩
  exact List.mem_filter.mpr ⟨hs, hbound⟩

/-! ## Batches -/

/-- The resources after a batch: those its drops left, and those of the
spans of its kept traces. -/
theorem hasResource_record {counts : Counts}
    (h : record S c p prepared preset now = some (c', counts)) :
    c'.HasResource k ↔ (c.dropTraces p (goneTraces S c p prepared now)).HasResource k ∨
      (k.1 = p ∧ ∃ s ∈ prepared, ¬ purgedTrace S c p prepared now s.traceId ∧
        s.resourceDigest = k.2) := by
  obtain ⟨c₂, c₄, h₂, h₄, rfl⟩ := record_eq_some h
  have hadd : OnlyCalls
      (c₄.updateTraces p ((keptIds S c p prepared now).map (outcome S c p prepared now)) now)
      ((c₄.updateTraces p ((keptIds S c p prepared now).map (outcome S c p prepared now))
        now).addEvidence S p (batchEvidence S c p prepared now) now) := onlyCalls_addEvidence
  have htables : ((c₄.updateTraces p ((keptIds S c p prepared now).map
      (outcome S c p prepared now)) now).addEvidence S p (batchEvidence S c p prepared now)
        now).otlpResources =
      (c.dropTraces p (goneTraces S c p prepared now)).otlpResources.insertAll
        (((keptTraces S c p prepared now).flatMap (·.spans)).reverse.map fun s =>
          ⟨p, s.resourceDigest, s.resourcePayload⟩) := by
    rw [hadd.otlpResources, updateTraces, (insertSpans_eq_some h₄).1]
    exact congrArg (fun t => Table.insertAll t _) (onlyCalls_insertCalls h₂).otlpResources
  rw [HasResource, htables, Table.find?_insertAll, Option.isSome_or, Bool.or_eq_true, HasResource]
  refine or_congr Iff.rfl ?_
  rw [List.find?_isSome, keptTraces_eq]
  constructor
  · rintro ⟨r, hr, hkey⟩
    obtain ⟨s, hs, rfl⟩ := List.mem_map.mp hr
    rw [List.mem_reverse, List.mem_flatMap] at hs
    obtain ⟨tr, htr, hs⟩ := hs
    obtain ⟨t, ht, rfl⟩ := List.mem_map.mp htr
    rw [keptTrace_spans, List.mem_filter, decide_eq_true_eq] at hs
    obtain rfl := of_decide_eq_true hkey
    exact ⟨rfl, s, hs.1, by rw [hs.2]; exact (mem_keptIds.mp ht).2, rfl⟩
  · rintro ⟨hp, s, hs, hkept, hdigest⟩
    refine ⟨⟨p, s.resourceDigest, s.resourcePayload⟩, List.mem_map_of_mem ?_,
      decide_eq_true (Prod.ext hp.symm hdigest)⟩
    rw [List.mem_reverse, List.mem_flatMap]
    refine ⟨_, List.mem_map_of_mem (mem_keptIds.mpr ⟨mem_traceIds.mpr ⟨s, hs, rfl⟩, hkept⟩), ?_⟩
    rw [keptTrace_spans, List.mem_filter]
    exact ⟨hs, decide_eq_true rfl⟩

/-- What is named after a batch. -/
theorem names_recorded (hl : Linked c) (h : Recorded S c p prepared preset now c')
    {digest : Digest} : c'.Names (p, digest) ↔ c.Carries S p prepared now digest := by
  constructor
  · rintro ⟨s, hs, hp, hdigest⟩
    rcases h.mem_spans.mp hs with ⟨hold, hstays⟩ | hnew
    · refine Or.inl ⟨s, hold, hp, hdigest, fun hpurged => ?_⟩
      have hkey : s.traceKey = (p, s.traceId) := Prod.ext hp rfl
      have hdrops : dropsKey p (goneTraces S c p prepared now) s.traceKey = true :=
        dropsKey_goneTraces.mpr ⟨hp, hpurged.1, hl.span_trace s hold, hpurged.2⟩
      rw [hstays] at hdrops
      cases hdrops
    · obtain ⟨t, ht, x, hx, rfl⟩ := mem_newRows.mp hnew
      obtain ⟨hmem, rfl⟩ := newSpans_subset hx
      obtain ⟨hfirst, hunstored⟩ := mem_newSpans.mp hx
      refine Or.inr ⟨x, hmem, hdigest, (mem_keptIds.mp ht).2, hfirst, ?_⟩
      cases hrow : c.callTraces.find? (p, x.traceId) with
      | some row => exact hunstored (by rw [hrow]; rfl)
      | none =>
          rw [Table.find?_eq_none]
          intro s hs hkey
          have htrace := hl.span_trace s hs
          have hsx : s.traceKey = (p, x.traceId) := by
            obtain ⟨hp, hid⟩ := Prod.mk.inj hkey
            exact Prod.ext hp (Prod.mk.inj hid).1
          rw [hsx, hrow] at htrace
          cases htrace
  · rintro (⟨s, hs, hp, hdigest, hkept⟩ | ⟨x, hx, hdigest, hkept, hfirst, hunstored⟩)
    · refine ⟨s, h.mem_spans.mpr (Or.inl ⟨hs, ?_⟩), hp, hdigest⟩
      rw [← Bool.not_eq_true]
      intro hd
      obtain ⟨-, ht, -, hpurged⟩ := dropsKey_goneTraces.mp hd
      exact hkept ⟨ht, hpurged⟩
    · refine ⟨spanRow p now x, h.mem_spans.mpr (Or.inr (mem_newRows.mpr
        ⟨x.traceId, ?_, x, ?_, rfl⟩)), rfl, hdigest⟩
      · exact mem_keptIds.mpr ⟨mem_traceIds.mpr ⟨x, hx, rfl⟩, hkept⟩
      · exact mem_newSpans.mpr ⟨hfirst, fun _ => hunstored⟩

/-- **A batch that orphans no resource keeps both tables in step.** -/
theorem InStep.record (hstep : InStep c) (hl : Linked c) {counts : Counts}
    (h : record S c p prepared preset now = some (c', counts))
    (hno : ¬ c.Orphans S p prepared now) : InStep c' := by
  have hrec := recorded_of_record h
  have hdrop := resources_dropTraces c p (goneTraces S c p prepared now)
  have hspans : ∀ s, s ∈ (c.dropTraces p (goneTraces S c p prepared now)).spans →
      s ∈ c'.spans := by
    intro s hs
    rw [Table.mem_def, spans_dropTraces, List.mem_filter, Bool.not_eq_true'] at hs
    exact hrec.mem_spans.mpr (Or.inl hs)
  refine ⟨fun k hk => ?_, fun k hk => ?_⟩
  · rw [hasResource_record h]
    obtain ⟨s, hs, hp, hdigest⟩ := hk
    rcases hrec.mem_spans.mp hs with ⟨hold, hstays⟩ | hnew
    · refine Or.inl (hdrop.1 hstep.stored k ⟨s, ?_, hp, hdigest⟩)
      rw [Table.mem_def, spans_dropTraces, List.mem_filter, hstays]
      exact ⟨hold, rfl⟩
    · obtain ⟨t, ht, x, hx, rfl⟩ := mem_newRows.mp hnew
      obtain ⟨hmem, rfl⟩ := newSpans_subset hx
      exact Or.inr ⟨hp.symm, x, hmem, (mem_keptIds.mp ht).2, hdigest⟩
  · rcases (hasResource_record h).mp hk with hold | ⟨hp, s, hs, hkept, hdigest⟩
    · obtain ⟨s, hs, hsk⟩ := hdrop.2 k (hstep.named k) hold
      exact ⟨s, hspans s hs, hsk⟩
    · obtain ⟨p', digest⟩ := k
      obtain rfl : p' = p := hp
      obtain rfl : s.resourceDigest = digest := hdigest
      rw [names_recorded hl hrec]
      by_contra hcarries
      exact hno ⟨s, hs, hkept, hcarries⟩

/-- **An orphaned resource is stored**, and no span names it. -/
theorem not_inStep_record (hl : Linked c) {counts : Counts}
    (h : record S c p prepared preset now = some (c', counts))
    (horphans : c.Orphans S p prepared now) : ¬ InStep c' := by
  intro hstep
  obtain ⟨s, hs, hkept, hcarries⟩ := horphans
  have hhas : c'.HasResource (p, s.resourceDigest) :=
    (hasResource_record h).mpr (Or.inr ⟨rfl, s, hs, hkept, rfl⟩)
  exact hcarries ((names_recorded hl (recorded_of_record h)).mp (hstep.named _ hhas))

/-! ## The other operations -/

theorem InStep.deleteTrace (h : InStep c) {t : TraceId} : InStep (c.deleteTrace p t) where
  stored := resources_deleteTrace.1 h.stored
  named k := resources_deleteTrace.2 k (h.named k)

theorem InStep.onlyCalls (h : InStep c) (honly : OnlyCalls c c') : InStep c' :=
  h.of_tables honly.spans honly.otlpResources

theorem InStep.collectParkedTrace (h : InStep c) {row : CallTrace} {created : UnixNano}
    (hrun : c.collectParkedTrace S row now created = some c') : InStep c' := by
  rcases collectParkedTrace_cases hrun with ⟨name, n, -, rfl⟩ | ⟨-, -, c₁, h₁, rfl⟩
  · exact h.deleteTrace.onlyCalls (onlyCalls_bumpCounter _ _ _)
  · exact (h.onlyCalls (onlyCalls_insertCall h₁)).of_tables rfl rfl

theorem InStep.claimed (h : InStep c) {r : Call} : InStep (c.claimed r now) := by
  have hnames : ∀ k, (c.claimed r now).Names k ↔ c.Names k := by
    intro k
    constructor
    · rintro ⟨s, hs, hsk⟩
      obtain ⟨s₀, hs₀, rfl⟩ := mem_spans_claimed.mp hs
      obtain ⟨-, -, -, hdigest, hp⟩ := c.markSpan_columns r.key r.nextRevision s₀
      rw [hdigest, hp] at hsk
      exact ⟨s₀, hs₀, hsk⟩
    · rintro ⟨s, hs, hsk⟩
      obtain ⟨-, -, -, hdigest, hp⟩ := c.markSpan_columns r.key r.nextRevision s
      refine ⟨_, mem_spans_claimed.mpr ⟨s, hs, rfl⟩, ?_⟩
      rw [hdigest, hp]
      exact hsk
  exact ⟨fun k hk => h.stored k ((hnames k).mp hk), fun k hk => (hnames k).mpr (h.named k hk)⟩

theorem InStep.purgeCall (h : InStep c) {k : CallKey} (hrun : c.purgeCall S k now = some c') :
    InStep c' := by
  obtain ⟨r, -, -, hkeys⟩ := purgeCall_eq_some hrun
  have hdeleted : InStep (c.deleteCall k) :=
    ⟨resources_deleteCall.1 h.stored, fun k' => resources_deleteCall.2 k' (h.named k')⟩
  exact hdeleted.of_tables hkeys.spans hkeys.otlpResources

end Catalog

/-! ## Runs -/

/-- The operation is a batch that orphans a resource. -/
def Op.Orphans (S : CallStore) (c : Catalog) : Op → Prop
  | .recordSpans p prepared _ now => c.Orphans S p prepared now
  | _ => False

theorem inStep_step {S : CallStore} {c c' : Catalog} {op : Op} (hl : c.Linked) (h : c.InStep)
    (hop : ¬ op.Orphans S c) (hstep : CatalogStep S c op c') : c'.InStep := by
  cases hstep with
  | provisionProject | setCapturePreset | beginProjectDeletion | failStaleUploads
  | collectExpiredTombstones | releaseLeases => exact h.of_tables rfl rfl
  | recordSpans hrec =>
      exact ((((h.record hl hrec hop).onlyCalls (Catalog.onlyCalls_bumpCounter _ _ _)).onlyCalls
        (Catalog.onlyCalls_bumpCounter _ _ _)).onlyCalls
          (Catalog.onlyCalls_bumpCounter _ _ _)).onlyCalls (Catalog.onlyCalls_bumpCounter _ _ _)
  | createRecording hrun =>
      rcases Catalog.createRecording_cases hrun with rfl | rfl | ⟨-, -, c₁, h₁, rfl⟩
      · exact h
      · exact h.onlyCalls (Catalog.onlyCalls_bumpCounter _ _ _)
      · exact (h.onlyCalls (Catalog.onlyCalls_insertCalls h₁)).of_tables rfl rfl
  | finishUpload hrun =>
      obtain ⟨row, -, -, rfl⟩ := Catalog.finishUpload_eq_some hrun
      exact h.of_tables Catalog.onlyCalls_addCallEvidence.spans
        Catalog.onlyCalls_addCallEvidence.otlpResources
  | collectParkedTraces hrun =>
      exact Catalog.collectParkedTraces_induction (P := Catalog.InStep)
        (fun d d' row hd _ _ hone => hd.collectParkedTrace hone) hrun h
  | claim hrun =>
      obtain ⟨d, ha, ⟨-, rfl⟩ | ⟨r, preset, -, -, -, -, -, -, rfl⟩⟩ := Catalog.claim_cases hrun
      · exact h.onlyCalls ha.onlyCalls
      · exact (h.onlyCalls ha.onlyCalls).claimed
  | finish hrun =>
      obtain ⟨r, -, -, -, ⟨-, rfl⟩ | ⟨-, -, rfl⟩⟩ := Catalog.finish_cases hrun
      · exact h.of_tables rfl rfl
      · exact h.of_tables Catalog.onlyCalls_noteEvidencePastCap.spans
          Catalog.onlyCalls_noteEvidencePastCap.otlpResources
  | fail hrun =>
      obtain ⟨r, -, -, -, attempts, due, rfl⟩ := Catalog.fail_eq_some hrun
      exact h.of_tables rfl rfl
  | purgeCall hrun => exact h.purgeCall hrun

theorem not_inStep_of_orphans {S : CallStore} {c c' : Catalog} {op : Op} (hl : c.Linked)
    (hop : op.Orphans S c) (hstep : CatalogStep S c op c') : ¬ c'.InStep := by
  cases hstep with
  | recordSpans hrec =>
      intro h
      refine Catalog.not_inStep_record hl hrec hop (h.of_tables ?_ ?_)
      · simp only [(Catalog.onlyCalls_bumpCounter _ _ _).spans]
      · simp only [(Catalog.onlyCalls_bumpCounter _ _ _).otlpResources]
  | _ => exact hop.elim

/-- **Resources and spans are in step exactly when no batch orphans a
resource**: in every state a run goes through, the stored resources are
those the stored spans name, if and only if each batch of the run that
commits brings no resource but of spans it stores or that are stored. -/
theorem inStep_iff (S : CallStore) (ops : List Op) :
    (∀ pre, pre <+: ops → (worldAfter S pre).catalog.InStep) ↔
      ∀ pre op post, ops = pre ++ op :: post → (step S (worldAfter S pre) op).isSome = true →
        ¬ op.Orphans S (worldAfter S pre).catalog := by
  refine Transition.forall_prefix_iff (I := fun w => w.catalog.Linked)
    (P := fun w => w.catalog.InStep) (G := fun w op => ¬ op.Orphans S w.catalog)
    (fun w op w' hl h => linked_step hl (catalogStep_of_step h))
    (fun w op w' hl hw hop h => inStep_step hl hw hop (catalogStep_of_step h))
    (fun w op w' hl _ hop h => not_inStep_of_orphans hl (not_not.mp hop) (catalogStep_of_step h))
    (s := .init) Catalog.linked_empty Catalog.inStep_empty ops

/-- One batch with a span, and a second of its ID with another resource. -/
def conflictRun : List Op :=
  demoRun [demoSpan 1 1 "app" "a" (some "k"),
    { demoSpan 1 1 "app" "a" (some "k") with resourceDigest := 2 }]

/-- The second span is a conflict: the first write stays, and the second's
resource is stored beside it. -/
theorem not_inStep_conflict : ¬ (worldAfter plainStore conflictRun).catalog.InStep := by
  intro h
  have hstored : (worldAfter plainStore conflictRun).catalog.HasResource (demoProject, 2) := by
    decide
  obtain ⟨s, hs, -, hdigest⟩ := h.named _ hstored
  have hall : ∀ s ∈ (worldAfter plainStore conflictRun).catalog.spans.rows,
      s.resourceDigest ≠ 2 := by decide
  exact hall s hs hdigest

end Earshot
