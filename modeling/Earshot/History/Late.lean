import Earshot.History.Resend
/-!
# Late evidence of a purged key

A batch drops a new trace whose first key is under a live tombstone, with
the trace's unnamed spans in that batch. Nothing remembers the trace: its
key's tombstone covers the key, and the trace has none of its own. So an
unnamed span that arrives in a batch after is parked as a new trace's, a
collection of parked traces may make a call of it, and a span that names
another key binds the trace to that key's call. What a run leaves of the
trace is decided by the keys its batches name first, and by the collections
that come to it while it is parked (`leavesNothing_iff`).
-/

namespace Earshot

open Relational

namespace Catalog

/-- Nothing of the trace is stored, and so no call has it. -/
structure Absent (c : Catalog) (k : ProjectId × TraceId) : Prop where
  row : c.callTraces.find? k = none
  spans : ∀ s ∈ c.spans, s.traceKey ≠ k

variable (S : CallStore) (c : Catalog) (p : ProjectId) (t : TraceId)

/-- A batch drops the spans of a trace that is not stored under a live
tombstone of the trace's own. -/
def Retired (now : UnixNano) : Prop := c.tombstoned p (S.traceKeyFingerprint p t) now = true

/-- The batch has spans of the trace, and the trace's own tombstone does not
answer for them. -/
def Meets (p' : ProjectId) (prepared : List Prepared) (now : UnixNano) : Prop :=
  p' = p ∧ t ∈ traceIds prepared ∧ ¬ (c.callTraces.find? (p, t) = none ∧ c.Retired S p t now)

/-- **The operation binds the trace to no call**: a batch that names a key for it
names first one under a live tombstone, and a collection that comes to it finds
no session span of it, or its own tombstone live. -/
def Harmless : Op → Prop
  | .recordSpans p' prepared _ now => c.Meets S p t p' prepared now →
      ∀ key ∈ namedKey prepared t, c.tombstoned p (S.keyFingerprint p key.value) now = true
  | .collectParkedTraces limit _ now =>
      ∀ row ∈ c.dueParkedTraces S now limit, row.key = (p, t) → row.hasSessionSpan = true →
        c.Retired S p t now
  | _ => True

/-- The batch names no key for the trace, and so parks it. -/
def Parks : Op → Prop
  | .recordSpans p' prepared _ now => c.Meets S p t p' prepared now ∧ namedKey prepared t = none
  | _ => False

/-- The batch names a key for the trace, or the collection comes to it. -/
def Clears : Op → Prop
  | .recordSpans p' prepared _ now => c.Meets S p t p' prepared now ∧ namedKey prepared t ≠ none
  | .collectParkedTraces limit _ now => ∃ row ∈ c.dueParkedTraces S now limit, row.key = (p, t)
  | _ => False

variable {S c p t}

instance {now : UnixNano} : Decidable (c.Retired S p t now) := inferInstanceAs
    (Decidable (_ = true))

instance {p' : ProjectId} {prepared : List Prepared} {now : UnixNano} :
    Decidable (c.Meets S p t p' prepared now) := inferInstanceAs (Decidable (_ ∧ _ ∧ ¬ (_ ∧ _)))

instance : (op : Op) → Decidable (c.Harmless S p t op)
  | .recordSpans p' prepared _ now => inferInstanceAs (Decidable (c.Meets S p t p' prepared now →
      ∀ key ∈ namedKey prepared t, c.tombstoned p (S.keyFingerprint p key.value) now = true))
  | .collectParkedTraces limit _ now => inferInstanceAs (Decidable
      (∀ row ∈ c.dueParkedTraces S now limit, row.key = (p, t) → row.hasSessionSpan = true →
        c.Retired S p t now))
  | .provisionProject .. | .setCapturePreset .. | .beginProjectDeletion .. | .createRecording ..
  | .finishUpload .. | .failStaleUploads .. | .claim .. | .finish .. | .fail .. | .releaseLeases
  | .purgeCall .. | .collectExpiredTombstones .. => .isTrue trivial

instance : (op : Op) → Decidable (c.Parks S p t op)
  | .recordSpans p' prepared _ now =>
      inferInstanceAs (Decidable (c.Meets S p t p' prepared now ∧ namedKey prepared t = none))
  | .provisionProject .. | .setCapturePreset .. | .beginProjectDeletion .. | .createRecording ..
  | .finishUpload .. | .failStaleUploads .. | .collectParkedTraces .. | .claim .. | .finish ..
  | .fail .. | .releaseLeases | .purgeCall .. | .collectExpiredTombstones .. => .isFalse id

instance : (op : Op) → Decidable (c.Clears S p t op)
  | .recordSpans p' prepared _ now =>
      inferInstanceAs (Decidable (c.Meets S p t p' prepared now ∧ namedKey prepared t ≠ none))
  | .collectParkedTraces limit _ now =>
      inferInstanceAs (Decidable (∃ row ∈ c.dueParkedTraces S now limit, row.key = (p, t)))
  | .provisionProject .. | .setCapturePreset .. | .beginProjectDeletion .. | .createRecording ..
  | .finishUpload .. | .failStaleUploads .. | .claim .. | .finish .. | .fail .. | .releaseLeases
  | .purgeCall .. | .collectExpiredTombstones .. => .isFalse id

end Catalog

section Run

variable (S : CallStore) (p : ProjectId) (t : TraceId)

/-- An operation that commits clears the trace. -/
def Cleared : World → List Op → Prop
  | _, [] => False
  | w, op :: ops => ((step S w op).isSome = true ∧ w.catalog.Clears S p t op) ∨
      Cleared (Transition.next (step S) w op) ops

/-- Each batch that commits and parks the trace is followed by an operation
that clears it. -/
def ParkedCleared : World → List Op → Prop
  | _, [] => True
  | w, op :: ops => ((step S w op).isSome = true → w.catalog.Parks S p t op →
        Cleared S p t (Transition.next (step S) w op) ops) ∧
      ParkedCleared (Transition.next (step S) w op) ops

instance Cleared.decidable : (w : World) → (ops : List Op) → Decidable (Cleared S p t w ops)
  | _, [] => .isFalse id
  | w, op :: ops => @instDecidableOr _ _ _ (Cleared.decidable (Transition.next (step S) w op) ops)

instance ParkedCleared.decidable :
    (w : World) → (ops : List Op) → Decidable (ParkedCleared S p t w ops)
  | _, [] => .isTrue trivial
  | w, op :: ops =>
      @instDecidableAnd _ _ _ (ParkedCleared.decidable (Transition.next (step S) w op) ops)

/-- **The run leaves nothing of the trace**: no call has it meanwhile, none of
its spans is stored at the end, and no collection after makes a call of it. -/
structure LeavesNothing (w : World) (later : List Op) : Prop where
  unbound : ∀ pre, pre <+: later →
    (Transition.run (step S) w pre).catalog.binding (p, t) = none
  absent : (Transition.run (step S) w later).catalog.Absent (p, t)
  collected : ∀ now limit clock c',
    (Transition.run (step S) w later).catalog.collectParkedTraces S now limit clock = some c' →
      c'.Absent (p, t)

end Run

namespace Catalog

variable {S : CallStore} {c c' d : Catalog} {p : ProjectId} {t : TraceId} {k : ProjectId × TraceId}
  {prepared : List Prepared}
  {preset : CapturePreset} {now : UnixNano} {op : Op} {p' : ProjectId}

theorem Linked.absent_iff (hl : Linked c) : c.Absent k ↔ c.callTraces.find? k = none := by
  refine ⟨Absent.row, fun hrow => ⟨hrow, fun s hs hk => ?_⟩⟩
  have htrace := hl.span_trace s hs
  rw [hk, hrow] at htrace
  cases htrace

theorem binding_of_row (hrow : c.callTraces.find? k = none) : c.binding k = none := by
  rw [binding, hrow, Option.bind_none]

/-! ## A batch -/

/-- A trace the batch has no span of stays as it was. -/
theorem row_of_not_carries (h : Recorded S c p' prepared preset now c')
    (hno : ¬ (p' = p ∧ t ∈ traceIds prepared)) :
    c'.callTraces.find? (p, t) = c.callTraces.find? (p, t) := by
  have hkept : ¬ (p = p' ∧ t ∈ keptIds S c p' prepared now) := fun hk =>
    hno ⟨hk.1.symm, (mem_keptIds.mp hk.2).1⟩
  have hdrop : ¬ dropsKey p' (goneTraces S c p' prepared now) (p, t) = true := fun hd =>
    hno ⟨(dropsKey_goneTraces.mp hd).1.symm, (dropsKey_goneTraces.mp hd).2.1⟩
  rw [h.callTraces, if_neg hkept, if_neg hdrop]

/-- Of a trace the batch has spans of, a row is left unless it is purged. -/
theorem row_eq_none_iff (h : Recorded S c p prepared preset now c') (hb : t ∈ traceIds prepared) :
    c'.callTraces.find? (p, t) = none ↔ purgedTrace S c p prepared now t := by
  by_cases hp : purgedTrace S c p prepared now t
  · refine iff_of_true ?_ hp
    have hkept : ¬ (p = p ∧ t ∈ keptIds S c p prepared now) := fun hk =>
      (mem_keptIds.mp hk.2).2 hp
    rw [h.callTraces, if_neg hkept]
    split
    · rfl
    · rename_i hdrop
      rw [dropsKey_goneTraces, not_and, not_and, not_and] at hdrop
      rw [← Option.not_isSome_iff_eq_none]
      exact fun hsome => hdrop rfl hb hsome hp
  · refine iff_of_false ?_ hp
    have hkept : p = p ∧ t ∈ keptIds S c p prepared now := ⟨rfl, mem_keptIds.mpr ⟨hb, hp⟩⟩
    rw [h.callTraces, if_pos hkept]
    exact Option.some_ne_none _

/-- A batch that the trace's own tombstone answers for leaves no row. -/
theorem row_of_not_meets (h : Recorded S c p' prepared preset now c')
    (hno : ¬ c.Meets S p t p' prepared now) :
    c'.callTraces.find? (p, t) = c.callTraces.find? (p, t) := by
  by_cases hcarries : p' = p ∧ t ∈ traceIds prepared
  · obtain ⟨rfl, hb⟩ := hcarries
    have hretired : c.callTraces.find? (p', t) = none ∧ c.Retired S p' t now := by
      by_contra hneither
      exact hno ⟨rfl, hb, hneither⟩
    rw [hretired.1, row_eq_none_iff h hb]
    exact ⟨binding_of_row hretired.1, Or.inl hretired⟩
  · exact row_of_not_carries h hcarries

/-- A batch that names no key for the trace parks it. -/
theorem row_of_unnamed (h : Recorded S c p' prepared preset now c')
    (hmeets : c.Meets S p t p' prepared now) (hkey : namedKey prepared t = none)
    (hunbound : c.binding (p, t) = none) :
    c'.callTraces.find? (p, t) ≠ none ∧ c'.binding (p, t) = none := by
  obtain ⟨rfl, hb, hneither⟩ := hmeets
  have hp : ¬ purgedTrace S c p' prepared now t := by
    rintro ⟨-, hretired | ⟨key, hnamed, -⟩⟩
    · exact hneither hretired
    · rw [hkey] at hnamed
      cases hnamed
  refine ⟨fun hrow => hp ((row_eq_none_iff h hb).mp hrow), ?_⟩
  rw [h.binding, if_pos ⟨rfl, mem_keptIds.mpr ⟨hb, hp⟩⟩]
  exact destination_of_unnamed hunbound hkey

/-- **A batch that names a key for an unbound trace** drops it when the key is
purged, and binds it when it is not. -/
theorem row_of_named (h : Recorded S c p' prepared preset now c')
    (hmeets : c.Meets S p t p' prepared now) {key : SessionKey}
    (hkey : namedKey prepared t = some key) (hunbound : c.binding (p, t) = none) :
    (c.tombstoned p (S.keyFingerprint p key.value) now = true ∧
      c'.callTraces.find? (p, t) = none) ∨
    (¬ c.tombstoned p (S.keyFingerprint p key.value) now = true ∧ c'.binding (p, t) ≠ none) := by
  obtain ⟨rfl, hb, hneither⟩ := hmeets
  by_cases hpurged : c.tombstoned p' (S.keyFingerprint p' key.value) now = true
  · exact Or.inl ⟨hpurged,
      (row_eq_none_iff h hb).mpr ⟨hunbound, Or.inr ⟨key, hkey, hpurged⟩⟩⟩
  · have hp : ¬ purgedTrace S c p' prepared now t := by
      rintro ⟨-, hretired | ⟨key', hnamed, hlive⟩⟩
      · exact hneither hretired
      · rw [hkey] at hnamed
        exact hpurged (Option.some.inj hnamed ▸ hlive)
    refine Or.inr ⟨hpurged, ?_⟩
    rw [h.binding, if_pos ⟨rfl, mem_keptIds.mpr ⟨hb, hp⟩⟩, destination_of_named hunbound hp hkey]
    exact Option.some_ne_none _

/-! ## A collection -/

/-- **What a collection does to a trace it comes to.** -/
theorem row_collectParkedTrace {row : CallTrace} {created : UnixNano}
    (hrow : (c.callTraces.find? row.key).isSome = true)
    (h : c.collectParkedTrace S row now created = some c') :
    (c'.callTraces.find? row.key = none ∧
      (row.hasSessionSpan = true → c.Retired S row.projectId row.traceId now)) ∨
    (c'.binding row.key ≠ none ∧ row.hasSessionSpan = true ∧
      ¬ c.Retired S row.projectId row.traceId now) := by
  rw [collectParkedTrace] at h
  split at h
  · next hsession =>
    refine Or.inl ⟨?_, fun hs => ?_⟩
    · rw [← Option.some.inj h, (onlyCalls_bumpCounter _ _ _).callTraces,
        find?_callTraces_deleteTrace]
      exact if_pos rfl
    · rw [hs] at hsession
      cases hsession
  · next hsession =>
    split at h
    · next hretired =>
      refine Or.inl ⟨?_, fun _ => hretired⟩
      rw [← Option.some.inj h, (onlyCalls_bumpCounter _ _ _).callTraces,
        find?_callTraces_deleteTrace]
      exact if_pos rfl
    · next hretired =>
      rw [promote, Option.bind_eq_bind, Option.bind_eq_some_iff] at h
      obtain ⟨c₁, h₁, h₂⟩ := h
      refine Or.inr ⟨?_, by simpa using hsession, hretired⟩
      have hstored : (c₁.callTraces.find? row.key).isSome = true := by
        rw [(onlyCalls_insertCall h₁).callTraces]
        exact hrow
      rw [← Option.some.inj h₂]
      change (c₁.bindTrace row.key _).binding row.key ≠ none
      rw [binding_bindTrace hstored, if_pos rfl]
      exact Option.some_ne_none _

theorem callTombstones_collectParkedTrace {row : CallTrace} {created : UnixNano}
    (h : c.collectParkedTrace S row now created = some c') :
    c'.callTombstones = c.callTombstones := by
  rcases collectParkedTrace_cases h with ⟨name, n, -, rfl⟩ | ⟨-, -, c₁, h₁, rfl⟩
  · exact (onlyCalls_bumpCounter _ _ _).callTombstones
  · exact (onlyCalls_insertCall h₁).callTombstones

/-- A pass over due traces leaves the others as they were, and does to each what
collecting it alone does. -/
theorem foldlM_collectParkedTrace {clock : ProjectId × TraceId → UnixNano} :
    ∀ {rows : List CallTrace} {c c' : Catalog}, (rows.map (·.key)).Nodup →
      rows.foldlM (fun d row => d.collectParkedTrace S row now (clock row.key)) c = some c' →
      (∀ k, k ∉ rows.map (·.key) → c'.callTraces.find? k = c.callTraces.find? k) ∧
      ∀ row ∈ rows, ∃ d d' : Catalog, d.callTraces.find? row.key = c.callTraces.find? row.key ∧
        d.callTombstones = c.callTombstones ∧
        d.collectParkedTrace S row now (clock row.key) = some d' ∧
        c'.callTraces.find? row.key = d'.callTraces.find? row.key := by
  intro rows
  induction rows with
  | nil =>
    intro c c' _ h
    obtain rfl := Option.some.inj h
    exact ⟨fun _ _ => rfl, fun row hrow => absurd hrow List.not_mem_nil⟩
  | cons due rows ih =>
    intro c c' hnodup h
    rw [List.foldlM_cons, Option.bind_eq_bind, Option.bind_eq_some_iff] at h
    obtain ⟨d, hone, hrest⟩ := h
    rw [List.map_cons, List.nodup_cons] at hnodup
    obtain ⟨hsame, heach⟩ := ih hnodup.2 hrest
    refine ⟨fun k hk => ?_, fun row hrow => ?_⟩
    · rw [List.map_cons, List.mem_cons, not_or] at hk
      rw [hsame k hk.2, find?_collectParkedTrace_of_ne hone hk.1]
    · rcases List.mem_cons.mp hrow with rfl | hrow
      · exact ⟨c, d, rfl, rfl, hone, hsame _ hnodup.1⟩
      · have hne : row.key ≠ due.key := fun heq => hnodup.1 (heq ▸ List.mem_map_of_mem hrow)
        obtain ⟨d₁, d₂, hfind, htombs, hstep, hlast⟩ := heach row hrow
        exact ⟨d₁, d₂, hfind.trans (find?_collectParkedTrace_of_ne hone hne),
          htombs.trans (callTombstones_collectParkedTrace hone), hstep, hlast⟩

/-- **What a collection leaves of a trace.** -/
theorem row_collectParkedTraces {limit : ℕ} {clock : ProjectId × TraceId → UnixNano}
    (h : c.collectParkedTraces S now limit clock = some c') :
    ((∀ row ∈ c.dueParkedTraces S now limit, row.key ≠ (p, t)) →
      c'.callTraces.find? (p, t) = c.callTraces.find? (p, t)) ∧
    ∀ row ∈ c.dueParkedTraces S now limit, row.key = (p, t) →
      (c'.callTraces.find? (p, t) = none ∧
        (row.hasSessionSpan = true → c.Retired S p t now)) ∨
      (c'.binding (p, t) ≠ none ∧ row.hasSessionSpan = true ∧ ¬ c.Retired S p t now) := by
  rw [collectParkedTraces] at h
  split at h
  · cases h
  · obtain ⟨hsame, heach⟩ := foldlM_collectParkedTrace nodup_dueParkedTraces h
    refine ⟨fun hno => hsame _ fun hmem => ?_, fun row hrow hkey => ?_⟩
    · obtain ⟨row, hrow, hkey⟩ := List.mem_map.mp hmem
      exact hno row hrow hkey
    · obtain ⟨d, d', hfind, htombs, hstep, hlast⟩ := heach row hrow
      have hstored : (d.callTraces.find? row.key).isSome = true := by
        rw [hfind, Table.find?_of_mem (mem_dueParkedTraces hrow).1]
        rfl
      have hretired : d.Retired S row.projectId row.traceId now ↔ c.Retired S p t now := by
        obtain ⟨rfl, rfl⟩ := Prod.mk.inj hkey
        rw [Retired, Retired, tombstoned, tombstoned, htombs]
      have hbinding : c'.binding row.key = d'.binding row.key := by rw [binding, binding, hlast]
      have hcases := row_collectParkedTrace hstored hstep
      rw [hretired, ← hlast, ← hbinding, hkey] at hcases
      exact hcases

/-! ## One operation -/

/-- A purge leaves a trace of no call as it was. -/
theorem row_purgeCall {key : CallKey} (h : c.purgeCall S key now = some c')
    (hunbound : c.binding k = none) : c'.callTraces.find? k = c.callTraces.find? k := by
  obtain ⟨r, -, -, hkeys⟩ := purgeCall_eq_some h
  rw [hkeys.callTraces, find?_callTraces_deleteCall, if_neg]
  intro hbound
  rw [bound_iff, hunbound] at hbound
  cases hbound.2

/-- **What an operation does to an unbound trace.** -/
theorem row_step (h : CatalogStep S c op c') (hunbound : c.binding (p, t) = none) :
    (¬ c.Harmless S p t op ∧ c'.binding (p, t) ≠ none) ∨
    (c.Harmless S p t op ∧ c'.binding (p, t) = none ∧
      (c'.callTraces.find? (p, t) = none ↔
        ¬ c.Parks S p t op ∧ (c.Clears S p t op ∨ c.callTraces.find? (p, t) = none))) := by
  have hkept : op.movesTraces = false ∨ (∃ key now, op = .purgeCall key now) →
      c'.callTraces.find? (p, t) = c.callTraces.find? (p, t) := by
    rintro (haside | ⟨key, now, rfl⟩)
    · rw [callTraces_of_aside h haside]
    · cases h with
      | purgeCall hrun => exact row_purgeCall hrun hunbound
  have haside : c'.callTraces.find? (p, t) = c.callTraces.find? (p, t) →
      c'.binding (p, t) = none := fun hsame => by rw [binding, hsame]; exact hunbound
  cases op with
  | recordSpans p' prepared rejected now =>
      obtain ⟨preset, d, hrec, honly, -⟩ := recorded_of_catalogStep h
      rw [binding_congr honly.callTraces, honly.callTraces]
      by_cases hmeets : c.Meets S p t p' prepared now
      · cases hkey : namedKey prepared t with
        | none =>
            obtain ⟨hrow, hbinding⟩ := row_of_unnamed hrec hmeets hkey hunbound
            refine Or.inr ⟨fun _ key hmem => ?_, hbinding, iff_of_false hrow fun hno => ?_⟩
            · rw [hkey] at hmem
              cases hmem
            · exact hno.1 ⟨hmeets, hkey⟩
        | some key =>
            have hnot : ¬ c.Parks S p t (.recordSpans p' prepared rejected now) := fun hparks => by
              have hnone := hparks.2
              rw [hkey] at hnone
              cases hnone
            rcases row_of_named hrec hmeets hkey hunbound with ⟨hpurged, hrow⟩ | ⟨hlive, hbound⟩
            · refine Or.inr ⟨fun _ key' hmem => ?_, binding_of_row hrow,
                iff_of_true hrow ⟨hnot, Or.inl ⟨hmeets, ?_⟩⟩⟩
              · rw [hkey] at hmem
                exact Option.some.inj hmem ▸ hpurged
              · rw [hkey]
                exact Option.some_ne_none _
            · exact Or.inl ⟨fun hall => hlive (hall hmeets key hkey), hbound⟩
      · have hsame := row_of_not_meets hrec hmeets
        refine Or.inr ⟨fun hm => absurd hm hmeets, ?_, ?_⟩
        · rw [binding, hsame]
          exact hunbound
        · rw [hsame]
          constructor
          · exact fun hrow => ⟨fun hparks => hmeets hparks.1, Or.inr hrow⟩
          · rintro ⟨-, hclears | hrow⟩
            · exact absurd hclears.1 hmeets
            · exact hrow
  | collectParkedTraces limit clock now =>
      have hrun : c.collectParkedTraces S now limit clock = some c' := by
        cases h with
        | collectParkedTraces hrun => exact hrun
      obtain ⟨hsame, heach⟩ := row_collectParkedTraces (p := p) (t := t) hrun
      by_cases hdue : ∃ row ∈ c.dueParkedTraces S now limit, row.key = (p, t)
      · obtain ⟨row, hrow, hkey⟩ := hdue
        rcases heach row hrow hkey with ⟨hnone, hretired⟩ | ⟨hbound, hsession, hlive⟩
        · refine Or.inr ⟨fun row' hrow' hkey' hsession => ?_, binding_of_row hnone,
            iff_of_true hnone ⟨id, Or.inl ⟨row, hrow, hkey⟩⟩⟩
          have heq : row' = row := Table.eq_of_key_eq (mem_dueParkedTraces hrow').1
            (mem_dueParkedTraces hrow).1 (hkey'.trans hkey.symm)
          exact hretired (heq ▸ hsession)
        · exact Or.inl ⟨fun hall => hlive (hall row hrow hkey hsession), hbound⟩
      · have hrow := hsame fun row hrow hkey => hdue ⟨row, hrow, hkey⟩
        refine Or.inr ⟨fun row hrow hkey => absurd ⟨row, hrow, hkey⟩ hdue, haside hrow, ?_⟩
        rw [hrow]
        exact ⟨fun hnone => ⟨id, Or.inr hnone⟩, fun hno => hno.2.resolve_left hdue⟩
  | purgeCall key now =>
      have hrow := hkept (Or.inr ⟨key, now, rfl⟩)
      refine Or.inr ⟨trivial, haside hrow, ?_⟩
      rw [hrow]
      exact ⟨fun hnone => ⟨id, Or.inr hnone⟩, fun hno => hno.2.resolve_left id⟩
  | _ =>
      have hrow := hkept (Or.inl rfl)
      refine Or.inr ⟨trivial, haside hrow, ?_⟩
      rw [hrow]
      exact ⟨fun hnone => ⟨id, Or.inr hnone⟩, fun hno => hno.2.resolve_left id⟩

end Catalog

/-! ## A run -/

section Along

open Transition

variable {S : CallStore} {p : ProjectId} {t : TraceId} {w : World} {later : List Op}

/-- The operation binds the trace to no call, where it commits. -/
def HarmlessHere (S : CallStore) (p : ProjectId) (t : TraceId) (w : World) (op : Op) : Prop :=
  (step S w op).isSome = true → w.catalog.Harmless S p t op

instance (w : World) (op : Op) : Decidable (HarmlessHere S p t w op) :=
  inferInstanceAs (Decidable (_ → _))

/-- An unbound trace stays unbound along a run of harmless operations, and no
other. -/
theorem unbound_iff (hunbound : w.catalog.binding (p, t) = none) :
    (∀ pre, pre <+: later → (run (step S) w pre).catalog.binding (p, t) = none) ↔
      Guarded (step S) (HarmlessHere S p t) w later := by
  rw [guarded_iff]
  refine forall_prefix_iff (I := fun _ => True)
    (P := fun w : World => w.catalog.binding (p, t) = none)
    (G := fun (w : World) op => w.catalog.Harmless S p t op) (fun _ _ _ _ _ => trivial)
    (fun w op w' _ hnone hharmless hstep => ?_) (fun w op w' _ hnone hharm hstep => ?_)
    trivial hunbound later
  · rcases Catalog.row_step (catalogStep_of_step hstep) hnone with ⟨hharm, -⟩ | ⟨-, hbinding, -⟩
    · exact absurd hharmless hharm
    · exact hbinding
  · rcases Catalog.row_step (catalogStep_of_step hstep) hnone with ⟨-, hbound⟩ | ⟨hharmless, -, -⟩
    · exact hbound
    · exact absurd hharmless hharm

/-- **What a harmless run leaves of an unbound trace.** -/
theorem row_run_iff (hunbound : w.catalog.binding (p, t) = none)
    (hharmless : Guarded (step S) (HarmlessHere S p t) w later) :
    (run (step S) w later).catalog.callTraces.find? (p, t) = none ↔
      (w.catalog.callTraces.find? (p, t) = none ∨ Cleared S p t w later) ∧
        ParkedCleared S p t w later := by
  induction later generalizing w with
  | nil => simp [Cleared, ParkedCleared]
  | cons op later ih =>
      rw [run_cons, Cleared, ParkedCleared]
      cases hstep : step S w op with
      | none =>
          have hrest := hharmless.2
          rw [next_of_none hstep] at hrest ⊢
          rw [ih hunbound hrest]
          simp
      | some w' =>
          have hhere := hharmless.1 (by rw [hstep]; rfl)
          have hrest := hharmless.2
          rw [next_of_some hstep] at hrest ⊢
          rcases Catalog.row_step (catalogStep_of_step hstep) hunbound with
            ⟨hharm, -⟩ | ⟨-, hbinding, hrow⟩
          · exact absurd hhere hharm
          · rw [ih hbinding hrest, hrow]
            simp only [Option.isSome_some, true_and, forall_const]
            tauto

/-- **A run leaves nothing of a trace that is not stored exactly when** no
operation binds the trace, and each batch that parks it is followed by one
that names a key for it, or by a collection of it. -/
theorem LeavesNothing.iff_of_linked (hl : w.catalog.Linked)
    (hnew : w.catalog.callTraces.find? (p, t) = none) : LeavesNothing S p t w later ↔
      Guarded (step S) (HarmlessHere S p t) w later ∧ ParkedCleared S p t w later := by
  have hunbound := Catalog.binding_of_row hnew
  have hlinked : (run (step S) w later).catalog.Linked :=
    run_invariant (P := fun w : World => w.catalog.Linked)
      (fun w op w' hw hstep => linked_step hw (catalogStep_of_step hstep)) later _ hl
  constructor
  · intro hall
    have hharmless := (unbound_iff hunbound).mp hall.unbound
    exact ⟨hharmless, ((row_run_iff hunbound hharmless).mp hall.absent.row).2⟩
  · rintro ⟨hharmless, hcleared⟩
    have hrow := (row_run_iff hunbound hharmless).mpr ⟨Or.inl hnew, hcleared⟩
    refine ⟨(unbound_iff hunbound).mpr hharmless, hlinked.absent_iff.mpr hrow, ?_⟩
    intro now limit clock c' hcollect
    rw [(hlinked.collectParkedTraces hcollect).absent_iff,
      (Catalog.row_collectParkedTraces hcollect).1 fun row hdue hkey => ?_]
    · exact hrow
    · rw [← hkey, Table.find?_of_mem (Catalog.mem_dueParkedTraces hdue).1] at hrow
      cases hrow

end Along

/-- **A run after any other leaves nothing of a trace that is not stored
exactly when** each of its batches and collections binds the trace to no
call, and each batch that parks the trace is followed by an operation that
clears it. -/
theorem leavesNothing_iff {S : CallStore} {ops later : List Op} {p : ProjectId} {t : TraceId}
    (hnew : (worldAfter S ops).catalog.callTraces.find? (p, t) = none) :
    LeavesNothing S p t (worldAfter S ops) later ↔
      Transition.Guarded (step S) (HarmlessHere S p t) (worldAfter S ops) later ∧
        ParkedCleared S p t (worldAfter S ops) later :=
  LeavesNothing.iff_of_linked (linked_worldAfter S ops) hnew

/-- A session span is parked before its key is named, and another one after,
which a collection discards: the purged key's trace leads to no call. -/
theorem leavesNothing_iff_parkedFirst :
    LeavesNothing plainStore demoProject 2 (worldAfter plainStore purgedRun)
      [.recordSpans demoProject [demoSpan 2 2 LIVEKIT_SCOPE "agent_session" none] 0 30,
        .recordSpans demoProject [demoSpan 2 1 "app" "b" (some "k")] 0 31,
        .recordSpans demoProject [demoSpan 2 3 "app" "c" none] 0 32,
        .collectParkedTraces 5 (fun _ => 1000) 1000] :=
  (leavesNothing_iff (by decide)).mpr ⟨by decide, by decide⟩

/-- The spans of the project a run brings, in arrival order. -/
def arrivalsOf (p : ProjectId) (later : List Op) : List Prepared :=
  later.flatMap fun
    | .recordSpans p' prepared _ _ => if p' = p then prepared else []
    | _ => []

/-- The key's tombstone is live when a batch of the project is read. -/
def CoversBatch (S : CallStore) (p : ProjectId) (key : SessionKey) (w : World) : Op → Prop
  | .recordSpans p' _ _ now => p' = p →
      w.catalog.tombstoned p (S.keyFingerprint p key.value) now = true
  | _ => True

instance (S : CallStore) (p : ProjectId) (key : SessionKey) (w : World) :
    (op : Op) → Decidable (CoversBatch S p key w op)
  | .recordSpans p' _ _ now => inferInstanceAs (Decidable (p' = p →
      w.catalog.tombstoned p (S.keyFingerprint p key.value) now = true))
  | .provisionProject .. | .setCapturePreset .. | .beginProjectDeletion .. | .createRecording ..
  | .finishUpload .. | .failStaleUploads .. | .collectParkedTraces .. | .claim .. | .finish ..
  | .fail .. | .releaseLeases | .purgeCall .. | .collectExpiredTombstones .. => .isTrue trivial

/-- **What a run should leave of a purged key's new trace**, when the key's
tombstone is live at each batch. -/
def DropsLate (S : CallStore) (w : World) (p : ProjectId) (key : SessionKey) (t : TraceId)
    (later : List Op) : Prop :=
  w.catalog.callTraces.find? (p, t) = none → namedKey (arrivalsOf p later) t = some key →
    Transition.Guarded (step S) (CoversBatch S p key) w later → LeavesNothing S p t w later

/-- The unnamed span of a new trace comes in a batch of its own, after the one
that names the key, and the trace is collected. -/
def siblingLast : List Op :=
  [.recordSpans demoProject [demoSpan 2 1 "app" "b" (some "k")] 0 30,
    .recordSpans demoProject [demoSpan 2 2 LIVEKIT_SCOPE "agent_session" none] 0 31,
    .collectParkedTraces 5 (fun _ => 1000) 1000]

/-- The unnamed span is parked and promoted to a call, with the key's
tombstone live throughout. -/
theorem not_dropsLate_siblingLast :
    ¬ DropsLate plainStore (worldAfter plainStore purgedRun) demoProject ⟨"k", .sessionId⟩ 2
      siblingLast := by
  intro h
  have hnothing := h (by decide) (by decide) (by decide)
  exact absurd (hnothing.unbound siblingLast (List.prefix_refl _)) (by decide)

end Earshot
