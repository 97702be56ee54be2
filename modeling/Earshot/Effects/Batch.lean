import Earshot.Effects.Calls
/-!
# The traces of a batch

What resolving a batch decides, trace by trace (`resolveTarget_cases`),
which calls its targets are (`mem_batchTargets`), and which of its spans
are new (`mem_fresh`): of each span ID the first in arrival order, unless
the catalog has one.
-/

namespace Earshot

open Relational

variable {S : CallStore} {c : Catalog} {p : ProjectId} {prepared : List Prepared}
variable {now : UnixNano} {tr : Trace} {t : TraceId}

/-! ## Traces -/

theorem mem_traceIds : t ∈ traceIds prepared ↔ ∃ s ∈ prepared, s.traceId = t := by
  simp [traceIds]

theorem nodup_traceIds : (traceIds prepared).Nodup :=
  (List.perm_insertionSort (· ≤ ·) _).nodup_iff.mpr (List.nodup_dedup _)

@[simp] theorem resolveTarget_traceId : (resolveTarget S c p now tr).traceId = tr.traceId := by
  unfold resolveTarget
  split
  · rfl
  · split
    · rfl
    · split
      · rfl
      · split <;> rfl

@[simp] theorem resolveTarget_spans : (resolveTarget S c p now tr).spans = tr.spans := by
  unfold resolveTarget
  split
  · rfl
  · split
    · rfl
    · split
      · rfl
      · split <;> rfl

@[simp] theorem resolveTarget_row : (resolveTarget S c p now tr).row = tr.row := by
  unfold resolveTarget
  split
  · rfl
  · split
    · rfl
    · split
      · rfl
      · split <;> rfl

/-- One trace of the batch, resolved. -/
def resolved (S : CallStore) (c : Catalog) (p : ProjectId) (prepared : List Prepared)
    (now : UnixNano) (t : TraceId) : Trace :=
  resolveTarget S c p now (batchTrace c p prepared t)

@[simp] theorem resolved_traceId : (resolved S c p prepared now t).traceId = t := by
  rw [resolved, resolveTarget_traceId, batchTrace]

@[simp] theorem resolved_spans :
    (resolved S c p prepared now t).spans = prepared.filter (·.traceId = t) := by
  rw [resolved, resolveTarget_spans, batchTrace]

@[simp] theorem resolved_row :
    (resolved S c p prepared now t).row = c.callTraces.find? (p, t) := by
  rw [resolved, resolveTarget_row, batchTrace]

/-- The first key the batch names for a trace. -/
def namedKey (prepared : List Prepared) (t : TraceId) : Option SessionKey :=
  firstKey (prepared.filter (·.traceId = t))

/-- The call a stored trace is bound to. -/
def Catalog.binding (c : Catalog) (k : ProjectId × TraceId) : Option String :=
  (c.callTraces.find? k).bind (·.callId)

/-- The trace is unbound and purged: a new trace under its own live
tombstone, or one whose first key is under one. -/
def purgedTrace (S : CallStore) (c : Catalog) (p : ProjectId) (prepared : List Prepared)
    (now : UnixNano) (t : TraceId) : Prop :=
  c.binding (p, t) = none ∧
    ((c.callTraces.find? (p, t) = none ∧
        c.tombstoned p (S.traceKeyFingerprint p t) now = true) ∨
      ∃ key, namedKey prepared t = some key ∧
        c.tombstoned p (S.keyFingerprint p key.value) now = true)

/-- **A trace is bound, dropped, parked or named.** -/
theorem resolveTarget_cases (S : CallStore) (c : Catalog) (p : ProjectId)
    (prepared : List Prepared) (now : UnixNano) (t : TraceId) :
    (∃ callId, c.binding (p, t) = some callId ∧
      (resolved S c p prepared now t).dropped = false ∧
      (resolved S c p prepared now t).target = some (boundTarget c p callId)) ∨
    (purgedTrace S c p prepared now t ∧ (resolved S c p prepared now t).dropped = true ∧
      (resolved S c p prepared now t).target = none) ∨
    (c.binding (p, t) = none ∧ ¬ purgedTrace S c p prepared now t ∧ namedKey prepared t = none ∧
      (resolved S c p prepared now t).dropped = false ∧
      (resolved S c p prepared now t).target = none) ∨
    (c.binding (p, t) = none ∧ ¬ purgedTrace S c p prepared now t ∧
      ∃ key, namedKey prepared t = some key ∧
        (resolved S c p prepared now t).dropped = false ∧
        (resolved S c p prepared now t).target = some (namedTarget S c p now key)) := by
  have hbound : (batchTrace c p prepared t).boundTo = c.binding (p, t) := rfl
  have hkey : firstKey (batchTrace c p prepared t).spans = namedKey prepared t := rfl
  cases hb : c.binding (p, t) with
  | some callId =>
      refine Or.inl ⟨callId, rfl, ?_⟩
      have hres : resolved S c p prepared now t =
          { batchTrace c p prepared t with target := some (boundTarget c p callId) } := by
        simp only [resolved, resolveTarget, hbound, hb]
      rw [hres]
      exact ⟨rfl, rfl⟩
  | none =>
      refine Or.inr ?_
      by_cases htomb : ((batchTrace c p prepared t).row.isNone &&
          c.tombstoned p (S.traceKeyFingerprint p (batchTrace c p prepared t).traceId) now) = true
      · refine Or.inl ⟨⟨hb, Or.inl ?_⟩, ?_⟩
        · rw [Bool.and_eq_true, Option.isNone_iff_eq_none] at htomb
          exact htomb
        · have hres : resolved S c p prepared now t =
              { batchTrace c p prepared t with dropped := true } := by
            simp only [resolved, resolveTarget, hbound, hb, if_pos htomb]
          rw [hres]
          exact ⟨rfl, rfl⟩
      · have hno : ¬ (c.callTraces.find? (p, t) = none ∧
            c.tombstoned p (S.traceKeyFingerprint p t) now = true) := by
          rintro ⟨hrow, ht⟩
          exact htomb (by rw [Bool.and_eq_true, Option.isNone_iff_eq_none]; exact ⟨hrow, ht⟩)
        cases hk : namedKey prepared t with
        | none =>
            refine Or.inr (Or.inl ⟨rfl, ?_, rfl, ?_⟩)
            · rintro ⟨-, h | ⟨key, hkey', -⟩⟩
              · exact hno h
              · rw [hk] at hkey'
                cases hkey'
            · have hres : resolved S c p prepared now t = batchTrace c p prepared t := by
                simp only [resolved, resolveTarget, hbound, hb, if_neg htomb, hkey, hk]
              rw [hres]
              exact ⟨rfl, rfl⟩
        | some key =>
            by_cases hpurged : c.tombstoned p (S.keyFingerprint p key.value) now = true
            · refine Or.inl ⟨⟨hb, Or.inr ⟨key, hk, hpurged⟩⟩, ?_⟩
              have hres : resolved S c p prepared now t =
                  { batchTrace c p prepared t with dropped := true } := by
                simp only [resolved, resolveTarget, hbound, hb, if_neg htomb, hkey, hk,
                  if_pos hpurged]
              rw [hres]
              exact ⟨rfl, rfl⟩
            · refine Or.inr (Or.inr ⟨rfl, ?_, key, rfl, ?_⟩)
              · rintro ⟨-, h | ⟨key', hkey', hpurged'⟩⟩
                · exact hno h
                · rw [hk] at hkey'
                  obtain rfl := Option.some.inj hkey'
                  exact hpurged hpurged'
              · have hres : resolved S c p prepared now t =
                    { batchTrace c p prepared t with
                      target := some (namedTarget S c p now key) } := by
                  simp only [resolved, resolveTarget, hbound, hb, if_neg htomb, hkey, hk,
                    if_neg hpurged]
                rw [hres]
                exact ⟨rfl, rfl⟩

theorem dropped_iff : (resolved S c p prepared now t).dropped = true ↔
    purgedTrace S c p prepared now t := by
  rcases resolveTarget_cases S c p prepared now t with
    ⟨callId, hb, hd, -⟩ | ⟨hp, hd, -⟩ | ⟨-, hp, -, hd, -⟩ | ⟨-, hp, key, -, hd, -⟩
  · rw [hd]
    refine ⟨fun h => (Bool.false_ne_true h).elim, fun hp => ?_⟩
    rw [hp.1] at hb
    cases hb
  · exact ⟨fun _ => hp, fun _ => hd⟩
  · rw [hd]
    exact ⟨fun h => (Bool.false_ne_true h).elim, fun h => (hp h).elim⟩
  · rw [hd]
    exact ⟨fun h => (Bool.false_ne_true h).elim, fun h => (hp h).elim⟩

/-- The call the batch's spans of a trace go to; a parked trace has none. -/
def destination (S : CallStore) (c : Catalog) (p : ProjectId) (prepared : List Prepared)
    (now : UnixNano) (t : TraceId) : Option String :=
  (resolved S c p prepared now t).target.map (·.callId)

/-- A bound trace stays with its call. -/
theorem destination_of_bound {callId : String} (h : c.binding (p, t) = some callId) :
    destination S c p prepared now t = some callId := by
  rcases resolveTarget_cases S c p prepared now t with
    ⟨callId', hb, -, ht⟩ | ⟨hp, -, -⟩ | ⟨hb, -⟩ | ⟨hb, -⟩
  · rw [destination, ht, Option.map_some, boundTarget, ← hb, h]
  · rw [hp.1] at h
    cases h
  · rw [hb] at h
    cases h
  · rw [hb] at h
    cases h

/-- A dropped trace goes to no call. -/
theorem destination_of_purged (h : purgedTrace S c p prepared now t) :
    destination S c p prepared now t = none := by
  rcases resolveTarget_cases S c p prepared now t with
    ⟨callId, hb, -⟩ | ⟨-, -, ht⟩ | ⟨-, hp, -⟩ | ⟨-, hp, -⟩
  · rw [h.1] at hb
    cases hb
  · rw [destination, ht, Option.map_none]
  · exact absurd h hp
  · exact absurd h hp

/-- A kept trace no key names waits. -/
theorem destination_of_unnamed (hb : c.binding (p, t) = none) (hkey : namedKey prepared t = none) :
    destination S c p prepared now t = none := by
  rcases resolveTarget_cases S c p prepared now t with
    ⟨callId, hb', -⟩ | ⟨-, -, ht⟩ | ⟨-, -, -, -, ht⟩ | ⟨-, -, key, hkey', -⟩
  · rw [hb] at hb'
    cases hb'
  · rw [destination, ht, Option.map_none]
  · rw [destination, ht, Option.map_none]
  · rw [hkey] at hkey'
    cases hkey'

/-- A kept trace goes to the call its first key names. -/
theorem destination_of_named {key : SessionKey} (hb : c.binding (p, t) = none)
    (hp : ¬ purgedTrace S c p prepared now t) (hkey : namedKey prepared t = some key) :
    destination S c p prepared now t = some (namedTarget S c p now key).callId := by
  rcases resolveTarget_cases S c p prepared now t with
    ⟨callId, hb', -⟩ | ⟨hp', -⟩ | ⟨-, -, hno, -⟩ | ⟨-, -, key', hkey', -, ht⟩
  · rw [hb] at hb'
    cases hb'
  · exact absurd hp' hp
  · rw [hkey] at hno
    cases hno
  · rw [hkey] at hkey'
    obtain rfl := Option.some.inj hkey'
    rw [destination, ht, Option.map_some]

/-! ## Targets -/

/-- A target of the batch is the target of one of its traces, but for its
first evidence, which is the earliest. -/
def CallTarget.Agrees (u target : CallTarget) : Prop :=
  ∃ first, u = { target with firstEvidence := first }

theorem addTarget_ids (targets : List CallTarget) (tr : Trace) :
    (addTarget targets tr).map (·.callId) =
      match tr.target with
      | none => targets.map (·.callId)
      | some target =>
          if targets.any (·.callId == target.callId) then targets.map (·.callId)
          else targets.map (·.callId) ++ [target.callId] := by
  have hmap : ∀ (us : List CallTarget) (f : CallTarget → CallTarget),
      (∀ u, (f u).callId = u.callId) → (us.map f).map (·.callId) = us.map (·.callId) := by
    intro us f hf
    rw [List.map_map]
    exact List.map_congr_left fun u _ => hf u
  unfold addTarget
  cases tr.target with
  | none => rfl
  | some target =>
      cases tr.row with
      | none => dsimp only; split <;> simp
      | some row =>
          dsimp only
          rw [hmap _ _ fun u => by split <;> rfl]
          split <;> simp

theorem nodup_addTarget {targets : List CallTarget} (h : (targets.map (·.callId)).Nodup) :
    ((addTarget targets tr).map (·.callId)).Nodup := by
  rw [addTarget_ids]
  cases tr.target with
  | none => exact h
  | some target =>
      dsimp only
      split
      · exact h
      · rename_i hnew
        rw [List.nodup_append]
        refine ⟨h, List.nodup_singleton _, ?_⟩
        intro a ha b hb hab
        obtain rfl := List.mem_singleton.mp hb
        obtain ⟨u, hu, rfl⟩ := List.mem_map.mp ha
        exact hnew (List.any_eq_true.mpr ⟨u, hu, beq_iff_eq.mpr hab⟩)

/-- What is in the targets after one more trace. -/
theorem mem_addTarget {targets : List CallTarget} {u : CallTarget} (h : u ∈ addTarget targets tr) :
    (∃ v ∈ targets, u.Agrees v) ∨ ∃ target, tr.target = some target ∧ u.Agrees target := by
  unfold addTarget at h
  cases ht : tr.target with
  | none =>
      rw [ht] at h
      exact Or.inl ⟨u, h, u.firstEvidence, rfl⟩
  | some target =>
      rw [ht] at h
      have hmem : ∀ v, v ∈ (if targets.any (·.callId == target.callId) then targets
          else targets ++ [target]) → v ∈ targets ∨ v = target := by
        intro v hv
        split at hv
        · exact Or.inl hv
        · exact (List.mem_append.mp hv).imp id List.mem_singleton.mp
      have hag : ∀ v, u.Agrees v → (v ∈ targets ∨ v = target) →
          (∃ v ∈ targets, u.Agrees v) ∨ ∃ target', some target = some target' ∧
            u.Agrees target' := by
        rintro v hu (hv | rfl)
        · exact Or.inl ⟨v, hv, hu⟩
        · exact Or.inr ⟨v, rfl, hu⟩
      cases hr : tr.row with
      | none =>
          rw [hr] at h
          exact hag u ⟨u.firstEvidence, rfl⟩ (hmem u h)
      | some row =>
          rw [hr] at h
          obtain ⟨v, hv, rfl⟩ := List.mem_map.mp h
          refine hag v ?_ (hmem v hv)
          split
          · exact ⟨_, rfl⟩
          · exact ⟨v.firstEvidence, rfl⟩

theorem nodup_batchTargets (kept : List Trace) :
    ((batchTargets kept).map (·.callId)).Nodup := by
  have hfold : ∀ (kept : List Trace) (targets : List CallTarget),
      (targets.map (·.callId)).Nodup → ((kept.foldl addTarget targets).map (·.callId)).Nodup := by
    intro kept
    induction kept with
    | nil => intro targets h; exact h
    | cons tr kept ih => intro targets h; exact ih _ (nodup_addTarget h)
  exact hfold kept [] List.nodup_nil

/-- **A target is one of the batch's traces' targets.** -/
theorem mem_batchTargets {kept : List Trace} {u : CallTarget} (h : u ∈ batchTargets kept) :
    ∃ tr ∈ kept, ∃ target, tr.target = some target ∧ u.Agrees target := by
  have hfold : ∀ (kept : List Trace) (targets : List CallTarget) (u : CallTarget),
      u ∈ kept.foldl addTarget targets → (∃ v ∈ targets, u.Agrees v) ∨
        ∃ tr ∈ kept, ∃ target, tr.target = some target ∧ u.Agrees target := by
    intro kept
    induction kept with
    | nil => intro targets u h; exact Or.inl ⟨u, h, u.firstEvidence, rfl⟩
    | cons tr kept ih =>
        intro targets u h
        rcases ih _ u h with ⟨v, hv, huv⟩ | ⟨tr', htr', hrest⟩
        · obtain ⟨first, rfl⟩ := huv
          rcases mem_addTarget hv with ⟨w, hw, first', rfl⟩ | ⟨target, ht, first', rfl⟩
          · exact Or.inl ⟨w, hw, first, rfl⟩
          · exact Or.inr ⟨tr, List.mem_cons_self, target, ht, first, rfl⟩
        · exact Or.inr ⟨tr', List.mem_cons_of_mem _ htr', hrest⟩
  rcases hfold kept [] u h with ⟨v, hv, -⟩ | hrest
  · exact absurd hv List.not_mem_nil
  · exact hrest

/-- Every trace with a target has it among the batch's. -/
theorem exists_mem_batchTargets {kept : List Trace} {target : CallTarget} (h : tr ∈ kept)
    (ht : tr.target = some target) : ∃ u ∈ batchTargets kept, u.callId = target.callId := by
  have hkeep : ∀ (kept : List Trace) (targets : List CallTarget) (id : String),
      id ∈ targets.map (·.callId) → id ∈ (kept.foldl addTarget targets).map (·.callId) := by
    intro kept
    induction kept with
    | nil => intro targets id h; exact h
    | cons tr kept ih =>
        intro targets id h
        refine ih _ id ?_
        rw [addTarget_ids]
        cases tr.target with
        | none => exact h
        | some target =>
            dsimp only
            split
            · exact h
            · exact List.mem_append_left _ h
  have hfold : ∀ (kept : List Trace) (targets : List CallTarget), tr ∈ kept →
      target.callId ∈ (kept.foldl addTarget targets).map (·.callId) := by
    intro kept
    induction kept with
    | nil => intro targets h; exact absurd h List.not_mem_nil
    | cons tr' kept ih =>
        intro targets h
        rcases List.mem_cons.mp h with rfl | h
        · refine hkeep kept _ _ ?_
          rw [addTarget_ids, ht]
          dsimp only
          split
          · rename_i hany
            obtain ⟨u, hu, hid⟩ := List.any_eq_true.mp hany
            exact List.mem_map.mpr ⟨u, hu, beq_iff_eq.mp hid⟩
          · exact List.mem_append_right _ (List.mem_singleton_self _)
        · exact ih _ h
  exact List.mem_map.mp (hfold kept [] h)

/-! ## New spans -/

/-- A sort by key keeps the order of equal keys. -/
theorem find?_insertionSort_spanId (l : List Prepared) (x : SpanId) :
    (l.insertionSort (·.spanId ≤ ·.spanId)).find? (·.spanId = x) = l.find? (·.spanId = x) := by
  have hins : ∀ (a : Prepared) (l : List Prepared),
      (List.orderedInsert (·.spanId ≤ ·.spanId) a l).find? (·.spanId = x) =
        (a :: l).find? (·.spanId = x) := by
    intro a l
    induction l with
    | nil => rfl
    | cons b l ih =>
        rw [List.orderedInsert]
        split
        · rfl
        · rename_i hab
          rw [List.find?_cons, ih]
          by_cases hb : b.spanId = x
          · have ha : a.spanId ≠ x := by
              rintro rfl
              exact hab (hb ▸ BitVec.le_refl _)
            simp [hb, ha]
          · simp [List.find?_cons, hb]
  induction l with
  | nil => rfl
  | cons a l ih =>
      rw [List.insertionSort_cons, hins, List.find?_cons, List.find?_cons, ih]

@[simp] theorem storeSpan_trace (o : Outcome) (s : Prepared) :
    (storeSpan S c p o s).trace = o.trace := by
  unfold storeSpan
  split
  · split <;> rfl
  · rfl

@[simp] theorem storeSpan_parked (o : Outcome) (s : Prepared) :
    (storeSpan S c p o s).parkedSpans = o.parkedSpans ∧
      (storeSpan S c p o s).parkedEnded = o.parkedEnded := by
  unfold storeSpan
  split
  · split <;> exact ⟨rfl, rfl⟩
  · exact ⟨rfl, rfl⟩

/-- The catalog has no span of this ID in the trace. -/
def Unstored (c : Catalog) (p : ProjectId) (tr : Trace) (x : SpanId) : Prop :=
  tr.row.isSome = true → c.spans.find? (p, tr.traceId, x) = none

theorem firstWrite_eq_none {fresh : List Prepared} {s : Prepared} :
    firstWrite c p tr fresh s = none ↔
      Unstored c p tr s.spanId ∧ ∀ x ∈ fresh, x.spanId ≠ s.spanId := by
  rw [firstWrite, Option.or_eq_none_iff, Option.map_eq_none_iff, Option.map_eq_none_iff,
    List.find?_eq_none, Unstored]
  refine and_congr ?_ ?_
  · split <;> simp_all
  · simp

theorem storeSpan_fresh (o : Outcome) (s : Prepared) :
    ((storeSpan S c p o s).fresh = o.fresh ∧
      ¬ (Unstored c p o.trace s.spanId ∧ ∀ x ∈ o.fresh, x.spanId ≠ s.spanId)) ∨
    ((storeSpan S c p o s).fresh = o.fresh ++ [s] ∧
      Unstored c p o.trace s.spanId ∧ ∀ x ∈ o.fresh, x.spanId ≠ s.spanId) := by
  have hiff : firstWrite c p o.trace o.fresh s = none ↔
      Unstored c p o.trace s.spanId ∧ ∀ x ∈ o.fresh, x.spanId ≠ s.spanId := firstWrite_eq_none
  unfold storeSpan
  cases h : firstWrite c p o.trace o.fresh s with
  | none => exact Or.inr ⟨rfl, hiff.mp h⟩
  | some first =>
      refine Or.inl ⟨?_, fun hnew => ?_⟩
      · dsimp only
        split <;> rfl
      · rw [hiff.mpr hnew] at h
        cases h

theorem foldl_storeSpan_trace (l : List Prepared) (o : Outcome) :
    (l.foldl (storeSpan S c p) o).trace = o.trace := by
  induction l generalizing o with
  | nil => rfl
  | cons s l ih => rw [List.foldl_cons, ih, storeSpan_trace]

/-- The loop over a trace's spans: what was new stays, and of each other
span ID the first is new if the catalog has none. -/
theorem mem_foldl_storeSpan (l : List Prepared) (o : Outcome) (s : Prepared) :
    s ∈ (l.foldl (storeSpan S c p) o).fresh ↔ s ∈ o.fresh ∨
      (l.find? (·.spanId = s.spanId) = some s ∧ Unstored c p o.trace s.spanId ∧
        ∀ x ∈ o.fresh, x.spanId ≠ s.spanId) := by
  induction l generalizing o with
  | nil => simp
  | cons a l ih =>
      rw [List.foldl_cons, ih, storeSpan_trace]
      rcases storeSpan_fresh (S := S) (c := c) (p := p) o a with ⟨hf, hold⟩ | ⟨hf, hun, hnew⟩
      · rw [hf]
        refine or_congr Iff.rfl (and_congr_left fun hs => ?_)
        by_cases ha : a.spanId = s.spanId
        · rw [ha] at hold
          exact absurd hs hold
        · rw [List.find?_cons_of_neg (by simpa using ha)]
      · rw [hf]
        by_cases ha : a.spanId = s.spanId
        · rw [List.find?_cons_of_pos (by simpa using ha)]
          constructor
          · rintro (hs | ⟨-, -, hs⟩)
            · rcases List.mem_append.mp hs with hs | hs
              · exact Or.inl hs
              · obtain rfl := List.mem_singleton.mp hs
                exact Or.inr ⟨rfl, hun, hnew⟩
            · exact absurd ha (hs a (List.mem_append_right _ (List.mem_singleton_self a)))
          · rintro (hs | ⟨hs, -⟩)
            · exact Or.inl (List.mem_append_left _ hs)
            · rw [Option.some.inj hs]
              exact Or.inl (List.mem_append_right _ (List.mem_singleton_self s))
        · rw [List.find?_cons_of_neg (by simpa using ha)]
          have hsa : s ≠ a := fun h => ha (congrArg Prepared.spanId h).symm
          simp only [List.mem_append, List.mem_singleton, hsa, or_false]
          refine or_congr Iff.rfl (and_congr_right fun _ => and_congr_right fun _ => ?_)
          constructor
          · intro h x hx
            exact h x (Or.inl hx)
          · rintro h x (hx | rfl)
            · exact h x hx
            · exact ha

@[simp] theorem storeTrace_trace : (storeTrace S c p tr).trace = tr :=
  foldl_storeSpan_trace _ _

/-- **The new spans of a trace** are, of each span ID the catalog has not,
the first in arrival order. -/
theorem mem_fresh {s : Prepared} : s ∈ (storeTrace S c p tr).fresh ↔
    tr.spans.find? (·.spanId = s.spanId) = some s ∧ Unstored c p tr s.spanId := by
  rw [storeTrace, mem_foldl_storeSpan, find?_insertionSort_spanId]
  simp

theorem foldl_storeSpan_parked (l : List Prepared) (o : Outcome) :
    (l.foldl (storeSpan S c p) o).parkedSpans = o.parkedSpans ∧
      (l.foldl (storeSpan S c p) o).parkedEnded = o.parkedEnded := by
  induction l generalizing o with
  | nil => exact ⟨rfl, rfl⟩
  | cons s l ih =>
      rw [List.foldl_cons, (ih _).1, (ih _).2]
      exact storeSpan_parked o s

/-- A joining trace brings the spans it was parked with. -/
theorem storeTrace_parked (S : CallStore) (c : Catalog) (p : ProjectId) (tr : Trace) :
    (storeTrace S c p tr).parkedSpans =
      (if tr.joining then c.spansOf (p, tr.traceId) else []).length ∧
    (storeTrace S c p tr).parkedEnded =
      (if tr.joining then c.spansOf (p, tr.traceId) else []).any (·.endMarker) :=
  foldl_storeSpan_parked _ _

end Earshot
