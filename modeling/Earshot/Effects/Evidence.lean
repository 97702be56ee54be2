import Earshot.Effects.Record
import Earshot.Calls.Parked
/-!
# What parked traces and recordings do to the catalog

The same for the other ways evidence comes in: the collection of parked
traces, one due trace at a time (`collectParkedTraces_induction`), and the
recordings, which change only their own table beside the calls.
-/

namespace Earshot

open Relational

namespace Catalog

variable {S : CallStore} {c c' : Catalog} {p : ProjectId} {now : UnixNano}

/-! ## Bindings -/

theorem bound_iff {k : CallKey} {t : ProjectId × TraceId} :
    c.bound k t = true ↔ t.1 = k.1 ∧ c.binding t = some k.2 := by
  rw [bound, binding]
  cases h : c.callTraces.find? t with
  | none => simp
  | some r =>
      have hkey : r.projectId = t.1 := congrArg Prod.fst (Table.key_of_find? h)
      simp [hkey]

theorem binding_congr (h : c'.callTraces = c.callTraces) (t : ProjectId × TraceId) :
    c'.binding t = c.binding t := by rw [binding, binding, h]

theorem bound_congr (h : c'.callTraces = c.callTraces) (k : CallKey) (t : ProjectId × TraceId) :
    c'.bound k t = c.bound k t := by rw [bound, bound, h]

theorem binding_of_mem {r : CallTrace} (h : r ∈ c.callTraces) : c.binding r.key = r.callId := by
  rw [binding, Table.find?_of_mem h, Option.bind_some]

theorem mem_spansOf {k : ProjectId × TraceId} {s : Span} :
    s ∈ c.spansOf k ↔ s ∈ c.spans ∧ s.traceKey = k := by
  rw [spansOf, List.mem_filter, Table.mem_def, decide_eq_true_eq]

theorem mem_callSpans {k : CallKey} {s : Span} :
    s ∈ c.callSpans k ↔ s ∈ c.spans ∧ s.projectId = k.1 ∧ c.binding s.traceKey = some k.2 := by
  rw [callSpans, List.mem_filter, bound_iff, Table.mem_def]
  exact Iff.rfl

end Catalog

/-! ## A batch's bindings -/

section Batch

variable {S : CallStore} {c c' : Catalog} {p : ProjectId} {prepared : List Prepared}
variable {preset : CapturePreset} {now : UnixNano}

/-- **A batch binds each trace it keeps to its destination**, and no other. -/
theorem Recorded.binding (h : Recorded S c p prepared preset now c') (k : ProjectId × TraceId) :
    c'.binding k = if k.1 = p ∧ k.2 ∈ keptIds S c p prepared now then
      destination S c p prepared now k.2 else c.binding k := by
  obtain ⟨p', t⟩ := k
  have hrow := h.callTraces (p', t)
  rw [Catalog.binding, hrow]
  by_cases hk : p' = p ∧ t ∈ keptIds S c p prepared now
  · obtain ⟨rfl, ht⟩ := hk
    rw [if_pos ⟨rfl, ht⟩, if_pos ⟨rfl, ht⟩, Option.bind_some, keptRow]
    split
    · rfl
    · rename_i hno
      rw [not_or] at hno
      cases hr : c.callTraces.find? (p', t) with
      | none => exact absurd (newSpans_ne_nil (mem_keptIds.mp ht).1 hr) hno.1
      | some r =>
          rw [Option.getD_some]
          have hb : c.binding (p', t) = r.callId := by
            rw [Catalog.binding, hr, Option.bind_some]
          cases hid : r.callId with
          | some callId =>
              rw [hid] at hb
              exact (destination_of_bound hb).symm
          | none =>
              by_contra hne
              rw [hid] at hb
              exact hno.2 ⟨by rw [hr]; rfl, hb, fun hd => hne hd.symm⟩
  · rw [if_neg hk, if_neg hk]
    by_cases hd : Catalog.dropsKey p (goneTraces S c p prepared now) (p', t) = true
    · obtain ⟨rfl, -, -, hpurged⟩ := dropsKey_goneTraces.mp hd
      rw [if_pos hd]
      exact hpurged.1.symm
    · rw [if_neg hd]
      rfl

/-- A bound trace stays bound. -/
theorem Recorded.binding_of_some (h : Recorded S c p prepared preset now c')
    {k : ProjectId × TraceId} {callId : String} (hb : c.binding k = some callId) :
    c'.binding k = some callId := by
  rw [h.binding]
  split
  · rename_i hk
    rw [← hk.1] at *
    exact destination_of_bound hb
  · exact hb

/-- Stored calls stay. -/
theorem Recorded.isSome_calls (h : Recorded S c p prepared preset now c') {k : CallKey}
    (hk : (c.calls.find? k).isSome = true) : (c'.calls.find? k).isSome = true := by
  obtain ⟨p', callId⟩ := k
  by_cases hp : p' = p
  · obtain ⟨r, hr⟩ := Option.isSome_iff_exists.mp hk
    rw [hp] at hr ⊢
    rw [h.calls_stored callId r hr]
    rfl
  · rw [h.calls_other _ hp]
    exact hk

theorem mem_newRows {s : Span} : s ∈ newRows S c p prepared now ↔
    ∃ t ∈ keptIds S c p prepared now, ∃ x ∈ newSpans S c p prepared now t,
      spanRow p now x = s := by
  simp [newRows]

/-- Which spans are stored after a batch. -/
theorem Recorded.mem_spans (h : Recorded S c p prepared preset now c') {s : Span} :
    s ∈ c'.spans ↔
      (s ∈ c.spans ∧
        Catalog.dropsKey p (goneTraces S c p prepared now) s.traceKey = false) ∨
      s ∈ newRows S c p prepared now := by
  rw [Table.mem_def, h.spans, List.mem_append, List.mem_filter, Table.mem_def]
  simp

/-- A new row lies in a kept trace of the batch's project. -/
theorem traceKey_of_mem_newRows {s : Span} (h : s ∈ newRows S c p prepared now) :
    s.projectId = p ∧ s.traceId ∈ keptIds S c p prepared now ∧ s.firstRevision = none ∧
      s.receivedUnixNano = now := by
  obtain ⟨t, ht, x, hx, rfl⟩ := mem_newRows.mp h
  have hxt := (newSpans_subset hx).2
  exact ⟨rfl, by rw [spanRow, hxt]; exact ht, rfl, rfl⟩

/-- **A batch's destination is a call.** -/
theorem Recorded.isSome_destination (h : Recorded S c p prepared preset now c')
    (hlinked : ∀ k callId, c.binding k = some callId →
      (c.calls.find? (k.1, callId)).isSome = true)
    {t : TraceId} {callId : String} (ht : t ∈ keptIds S c p prepared now)
    (hdest : destination S c p prepared now t = some callId) :
    (c'.calls.find? (p, callId)).isSome = true := by
  by_cases hstored : (c.calls.find? (p, callId)).isSome = true
  · exact h.isSome_calls hstored
  · -- the call is new, so every target of it was resolved as created
    obtain ⟨target, htarget, rfl⟩ := Option.map_eq_some_iff.mp hdest
    obtain ⟨u, hu, hid⟩ := exists_mem_batchTargets (resolved_mem_of_kept ht) htarget
    obtain ⟨t', ht', target', htarget', first, hag⟩ := mem_keptTargets hu
    have hid' : target'.callId = target.callId := by rw [← hid, hag]
    have hcreated : u.created = true := by
      rw [hag]
      change target'.created = true
      rcases resolveTarget_cases S c p prepared now t' with
        ⟨callId, hb, -, heq⟩ | ⟨-, -, heq⟩ | ⟨-, -, -, -, heq⟩ | ⟨-, -, key, -, -, heq⟩
      · rw [heq] at htarget'
        obtain rfl := Option.some.inj htarget'
        have hcall := hlinked _ _ hb
        change callId = target.callId at hid'
        rw [hid'] at hcall
        exact absurd hcall hstored
      · rw [heq] at htarget'
        cases htarget'
      · rw [heq] at htarget'
        cases htarget'
      · rw [heq] at htarget'
        obtain rfl := Option.some.inj htarget'
        change (c.calls.find? (p, (namedTarget S c p now key).callId)).isNone = true
        rw [hid', Option.isNone_iff_eq_none, ← Option.not_isSome_iff_eq_none]
        exact hstored
    have := h.calls_created u hu hcreated
    rwa [hid] at this

end Batch

namespace Catalog

variable {S : CallStore} {c c' : Catalog} {p : ProjectId} {now created : UnixNano}

/-! ## Parked traces -/

/-- **A due trace is deleted or promoted.** -/
theorem collectParkedTrace_cases {row : CallTrace}
    (h : c.collectParkedTrace S row now created = some c') :
    (∃ name n, name ≠ .revisionCapReached ∧
      c' = (c.deleteTrace row.projectId row.traceId).bumpCounter row.projectId name n) ∨
    (row.hasSessionSpan = true ∧
      c.tombstoned row.projectId (S.traceKeyFingerprint row.projectId row.traceId) now = false ∧
      ∃ c₁, c.insertCall (c.promotedCall S row created) = some c₁ ∧
        c' = c₁.bindTrace row.key (c.promotedCall S row created).callId) := by
  rw [collectParkedTrace] at h
  split at h
  · exact Or.inl ⟨_, _, by decide, (Option.some.inj h).symm⟩
  · rename_i hsession
    split at h
    · exact Or.inl ⟨_, _, by decide, (Option.some.inj h).symm⟩
    · rename_i htomb
      rw [promote, Option.bind_eq_bind, Option.bind_eq_some_iff] at h
      obtain ⟨c₁, h₁, h₂⟩ := h
      exact Or.inr ⟨by simpa using hsession, by simpa using htomb, c₁, h₁,
        (Option.some.inj h₂).symm⟩

theorem callRevisions_collectParkedTrace {row : CallTrace}
    (h : c.collectParkedTrace S row now created = some c') :
    c'.callRevisions = c.callRevisions := by
  rcases collectParkedTrace_cases h with ⟨name, n, -, rfl⟩ | ⟨-, -, c₁, h₁, rfl⟩
  · rw [(onlyCalls_bumpCounter _ _ _).callRevisions]
    rfl
  · exact (onlyCalls_insertCall h₁).callRevisions

/-- A collected trace keeps every stored call's row. -/
theorem find?_calls_collectParkedTrace {row : CallTrace} {k : CallKey} {r : Call}
    (h : c.collectParkedTrace S row now created = some c') (hr : c.calls.find? k = some r) :
    c'.calls.find? k = some r := by
  rcases collectParkedTrace_cases h with ⟨name, n, -, rfl⟩ | ⟨-, -, c₁, h₁, rfl⟩
  · rw [calls_bumpCounter]
    exact hr
  · change c₁.calls.find? k = some r
    rw [find?_insertCall h₁, hr, Option.some_or]

theorem find?_bindTrace {k k' : ProjectId × TraceId} {callId : String} :
    (c.bindTrace k callId).callTraces.find? k' =
      (c.callTraces.find? k').map fun r =>
        if k' = k then { r with callId := some callId } else r := by
  rw [bindTrace, Table.find?_patch]
  cases h : c.callTraces.find? k' with
  | none => rfl
  | some r => rw [Option.map_some, Option.map_some, Table.key_of_find? h]

theorem binding_bindTrace {k k' : ProjectId × TraceId} {callId : String}
    (h : (c.callTraces.find? k).isSome = true) :
    (c.bindTrace k callId).binding k' = if k' = k then some callId else c.binding k' := by
  rw [binding, find?_bindTrace, binding]
  by_cases hk : k' = k
  · obtain ⟨r, hr⟩ := Option.isSome_iff_exists.mp h
    rw [hk, hr, if_pos rfl, Option.map_some, if_pos rfl, Option.bind_some]
  · simp [hk]

/-- A collected trace leaves the other traces' rows as they were. -/
theorem find?_collectParkedTrace_of_ne {row : CallTrace}
    (h : c.collectParkedTrace S row now created = some c') {k : ProjectId × TraceId}
    (hk : k ≠ row.key) : c'.callTraces.find? k = c.callTraces.find? k := by
  rcases collectParkedTrace_cases h with ⟨name, n, -, rfl⟩ | ⟨-, -, c₁, h₁, rfl⟩
  · rw [(onlyCalls_bumpCounter _ _ _).callTraces, find?_callTraces_deleteTrace]
    exact if_neg hk
  · rw [find?_bindTrace, (onlyCalls_insertCall h₁).callTraces]
    simp [hk]

/-- The parked traces whose deadline passed. -/
theorem mem_dueParkedTraces {limit : ℕ} {row : CallTrace}
    (h : row ∈ c.dueParkedTraces S now limit) : row ∈ c.callTraces ∧ row.callId = none := by
  have hmem := (List.mem_insertionSort _).mp (List.mem_of_mem_take h)
  rw [List.mem_filter, Bool.and_eq_true, Option.isNone_iff_eq_none] at hmem
  exact ⟨hmem.1, hmem.2.1⟩

/-- A trace is due once. -/
theorem nodup_dueParkedTraces {limit : ℕ} :
    ((c.dueParkedTraces S now limit).map CallTrace.key).Nodup := by
  have hsorted : ((c.callTraces.rows.filter fun r =>
      r.callId.isNone && r.lastSpanReceivedUnixNano ≤ now - S.timings.longQuietNano).insertionSort
        dueBefore).map CallTrace.key |>.Nodup :=
    ((List.perm_insertionSort dueBefore _).map CallTrace.key).nodup_iff.mpr
      (c.callTraces.nodup.sublist (List.Sublist.map _ List.filter_sublist))
  exact hsorted.sublist (List.Sublist.map _ (List.take_sublist _ _))

/-- **The rule for a collection**: what each due trace preserves, while it
is stored and parked, the whole collection preserves. -/
theorem collectParkedTraces_induction {P : Catalog → Prop} {limit : ℕ}
    {clock : ProjectId × TraceId → UnixNano}
    (hstep : ∀ (d d' : Catalog) (row : CallTrace), P d → row ∈ d.callTraces → row.callId = none →
      d.collectParkedTrace S row now (clock row.key) = some d' → P d')
    (h : c.collectParkedTraces S now limit clock = some c') (hP : P c) : P c' := by
  have hfold : ∀ (rows : List CallTrace) (d : Catalog), P d →
      (∀ row ∈ rows, row ∈ d.callTraces ∧ row.callId = none) → (rows.map (·.key)).Nodup →
      rows.foldlM (fun d row => d.collectParkedTrace S row now (clock row.key)) d = some c' →
      P c' := by
    intro rows
    induction rows with
    | nil =>
        intro d hd _ _ hrun
        obtain rfl := Option.some.inj hrun
        exact hd
    | cons row rows ih =>
        intro d hd hrows hnd hrun
        rw [List.foldlM_cons, Option.bind_eq_bind, Option.bind_eq_some_iff] at hrun
        obtain ⟨d₁, hone, hrest⟩ := hrun
        rw [List.map_cons, List.nodup_cons] at hnd
        have hrow := hrows row List.mem_cons_self
        refine ih d₁ (hstep d d₁ row hd hrow.1 hrow.2 hone) (fun row' hrow' => ?_) hnd.2 hrest
        have hmem := hrows row' (List.mem_cons_of_mem _ hrow')
        have hne : row'.key ≠ row.key := fun heq =>
          hnd.1 (List.mem_map.mpr ⟨row', hrow', heq⟩)
        refine ⟨?_, hmem.2⟩
        have hfind := find?_collectParkedTrace_of_ne hone hne
        rw [Table.find?_of_mem hmem.1] at hfind
        exact Table.mem_of_find? hfind
  rw [collectParkedTraces] at h
  split at h
  · cases h
  · refine hfold _ c hP (fun row hrow => mem_dueParkedTraces hrow) nodup_dueParkedTraces h

end Catalog

end Earshot
