import Mathlib.Algebra.BigOperators.Group.List.Basic
import Earshot.Effects.Linked
/-!
# What a call's counters count

A call's row carries the number of its spans and whether one of them ended
it. Neither is computed from the spans: every write of a span credits its
call (`counts_recorded`), and every other operation leaves both. In every
reachable catalog they agree with the stored spans
(`counted_worldAfter`).
-/

namespace Earshot

open Relational

/-- A number of spans, and whether one is an end marker. -/
abbrev SpanTally := ℕ × Bool

def tally (spans : List Span) : SpanTally := (spans.length, spans.any (·.endMarker))

/-- What a call's row says of its spans. -/
def Call.tally (r : Call) : SpanTally := (r.spanCount, r.endSignalUnixNano.isSome)

/-- **Every call's row agrees with its stored spans.** -/
def Catalog.Counted (c : Catalog) : Prop :=
  ∀ k r, c.calls.find? k = some r → r.tally = tally (c.callSpans k)

/-- Spans more. -/
def SpanTally.add (x y : SpanTally) : SpanTally := (x.1 + y.1, x.2 || y.2)

theorem tally_append (xs ys : List Span) : tally (xs ++ ys) = (tally xs).add (tally ys) := by
  simp [tally, SpanTally.add]

theorem tally_perm {xs ys : List Span} (h : xs.Perm ys) : tally xs = tally ys := by
  rw [tally, tally, h.length_eq, h.any_eq]

@[simp] theorem SpanTally.add_zero (x : SpanTally) : x.add (0, false) = x := by
  simp [SpanTally.add]

theorem tally_map {f : Span → Span} (hf : ∀ s, (f s).endMarker = s.endMarker) (xs : List Span) :
    tally (xs.map f) = tally xs := by
  simp [tally, List.any_map, Function.comp_def, hf]

namespace Catalog

variable {S : CallStore} {c c' : Catalog} {p : ProjectId} {prepared : List Prepared}
variable {preset : CapturePreset} {now : UnixNano} {k : CallKey}

/-- The rows of the calls are read as they were. -/
def KeepsRows {β : Type} (reading : Call → β) (c c' : Catalog) : Prop :=
  ∀ k r', c'.calls.find? k = some r' →
    ∃ r, c.calls.find? k = some r ∧ reading r' = reading r

section Rows

variable {β : Type} {reading : Call → β}

theorem keepsRows_updateCall {f : Call → Call} {hf : ∀ r, (f r).key = r.key}
    (hreads : ∀ r, reading (f r) = reading r) : KeepsRows reading c (c.updateCall k f hf) := by
  intro k' r' hr'
  by_cases hk : k' = k
  · rw [hk, find?_updateCall_self] at hr'
    obtain ⟨r, hr, rfl⟩ := Option.map_eq_some_iff.mp hr'
    exact ⟨r, hk ▸ hr, hreads r⟩
  · rw [find?_updateCall_of_ne f hf hk] at hr'
    exact ⟨r', hr', rfl⟩

theorem Aside.keepsRows (h : Aside c c') (hreads : ∀ r : Call, reading r.setAside = reading r) :
    KeepsRows reading c c' := by
  intro k r' hr'
  rcases h.calls k with heq | heq
  · exact ⟨r', heq ▸ hr', rfl⟩
  · rw [heq] at hr'
    obtain ⟨r, hr, rfl⟩ := Option.map_eq_some_iff.mp hr'
    exact ⟨r, hr, hreads r⟩

/-- A claim that finished leaves what a note of the evidence past the cap
does. -/
theorem keepsRows_finished {claim : CallClaim} {r : Call}
    (hr : c.calls.find? claim.key = some r)
    (hreads : ∀ (r : Call) (revision : ℕ) (final : Bool),
      reading ((r.close (some revision)).noted final).project = reading r) :
    KeepsRows reading c (c.finished claim now) := by
  intro k r' hr'
  by_cases hk : k = claim.key
  · rw [hk, find?_calls_finished_self hr] at hr'
    obtain rfl := Option.some.inj hr'
    exact ⟨r, hk ▸ hr, hreads r _ _⟩
  · rw [find?_calls_finished_of_ne hk] at hr'
    exact ⟨r', hr', rfl⟩

theorem keepsRows_releaseLeases (hreads : ∀ r : Call, reading r.release = reading r) :
    KeepsRows reading c c.releaseLeases := by
  intro k r' hr'
  rw [releaseLeases, Table.find?_patch] at hr'
  obtain ⟨r, hr, rfl⟩ := Option.map_eq_some_iff.mp hr'
  exact ⟨r, hr, hreads r⟩

end Rows

theorem counted_empty : Counted empty := fun _ _ h => by cases h

/-- What leaves the calls' tallies and their spans alone keeps them in
agreement. -/
theorem Counted.of_same (h : Counted c)
    (hrows : KeepsRows Call.tally c c')
    (hspans : ∀ k, (c'.calls.find? k).isSome = true →
      tally (c'.callSpans k) = tally (c.callSpans k)) : Counted c' := by
  intro k r' hr'
  obtain ⟨r, hr, heq⟩ := hrows k r' hr'
  rw [heq, h k r hr, hspans k (by rw [hr']; rfl)]

theorem callSpans_congr (hspans : c'.spans = c.spans) (htraces : c'.callTraces = c.callTraces)
    (k : CallKey) : c'.callSpans k = c.callSpans k := by
  rw [callSpans, callSpans, hspans]
  exact List.filter_congr fun s _ => bound_congr htraces k s.traceKey

/-! ## Batches -/

/-- The spans a batch credits a call with. -/
def creditedSpans (S : CallStore) (c : Catalog) (p : ProjectId) (prepared : List Prepared)
    (now : UnixNano) (callId : String) : List Span :=
  ((callTraceIds S c p prepared now callId).flatMap (joiningSpans c p)) ++
    (callTraceIds S c p prepared now callId).flatMap fun t =>
      (newSpans S c p prepared now t).map (spanRow p now)

/-- A call's credit is the tally of those spans. -/
theorem tally_creditedSpans (callId : String) :
    tally (creditedSpans S c p prepared now callId) =
      ((creditOf S c p prepared now callId).spans,
        (creditOf S c p prepared now callId).endMarker) := by
  rw [creditedSpans, tally_append]
  refine Prod.ext ?_ ?_
  · simp only [tally, SpanTally.add, creditOf, List.length_flatMap, List.length_map,
      List.sum_map_add]
  · simp only [tally, SpanTally.add, creditOf, List.any_flatMap, List.any_map]
    rw [Bool.eq_iff_iff]
    simp only [Bool.or_eq_true, List.any_eq_true, Function.comp_apply]
    constructor
    · rintro (⟨t, ht, hx⟩ | ⟨t, ht, hx⟩)
      · exact ⟨t, ht, Or.inl hx⟩
      · exact ⟨t, ht, Or.inr hx⟩
    · rintro ⟨t, ht, hx | hx⟩
      · exact Or.inl ⟨t, ht, hx⟩
      · exact Or.inr ⟨t, ht, hx⟩

/-- A trace's new binding: it was the call's, or it is unbound and the
batch's spans take it there. -/
theorem bound_recorded (h : Recorded S c p prepared preset now c') (callId : String)
    (t : ProjectId × TraceId) :
    c'.bound (p, callId) t = (c.bound (p, callId) t ||
      ((c.binding t).isNone && decide (t.1 = p ∧ t.2 ∈ callTraceIds S c p prepared now callId))) := by
  rw [Bool.eq_iff_iff, bound_iff, Bool.or_eq_true, bound_iff, Bool.and_eq_true,
    Option.isNone_iff_eq_none, decide_eq_true_eq]
  cases hb : c.binding t with
  | some id =>
      rw [h.binding_of_some hb]
      simp
  | none =>
      rw [h.binding]
      simp only [callTraceIds, List.mem_filter, decide_eq_true_eq]
      split
      · rename_i hk
        simp [hk.1, hk.2]
      · rename_i hk
        rw [hb]
        simp only [reduceCtorEq, and_false, false_or, true_and, false_iff]
        exact fun hno => hk ⟨hno.1, hno.2.1⟩

/-- The unbound traces that go to the call bring what is stored of them. -/
theorem perm_joiningSpans (hl : Linked c) (callId : String) :
    (c.spans.rows.filter fun s => (c.binding s.traceKey).isNone &&
      decide (s.traceKey.1 = p ∧ s.traceKey.2 ∈ callTraceIds S c p prepared now callId)).Perm
    ((callTraceIds S c p prepared now callId).flatMap (joiningSpans c p)) := by
  have hnd : ((callTraceIds S c p prepared now callId).map fun t => (p, t)).Nodup :=
    (nodup_keptIds.filter _).map fun _ _ heq => congrArg Prod.snd heq
  have hfilter : (c.spans.rows.filter fun s => (c.binding s.traceKey).isNone &&
      decide (s.traceKey.1 = p ∧ s.traceKey.2 ∈ callTraceIds S c p prepared now callId)) =
      (c.spans.rows.filter fun s => (c.binding s.traceKey).isNone).filter fun s =>
        decide (s.traceKey.1 = p ∧ s.traceKey.2 ∈ callTraceIds S c p prepared now callId) := by
    rw [List.filter_filter]
    exact List.filter_congr fun s _ => Bool.and_comm _ _
  rw [hfilter]
  refine (perm_flatMap_groups (g := Span.traceKey) hnd fun s _ => ?_).trans
    (List.Perm.of_eq ?_)
  · rw [decide_eq_true_eq, List.mem_map]
    constructor
    · rintro ⟨hp, ht⟩
      exact ⟨_, ht, Prod.ext hp.symm rfl⟩
    · rintro ⟨t, ht, heq⟩
      rw [← heq]
      exact ⟨rfl, ht⟩
  · rw [List.flatMap_map]
    refine List.flatMap_congr fun t _ => ?_
    rw [joiningSpans, List.filter_filter]
    cases hb : c.binding (p, t) with
    | some id =>
        rw [Option.isNone_some, Bool.and_false, if_neg Bool.false_ne_true,
          List.filter_eq_nil_iff]
        intro s _ hs
        rw [Bool.and_eq_true, decide_eq_true_eq] at hs
        rw [hs.1, hb] at hs
        exact absurd hs.2 Bool.false_ne_true
    | none =>
        have hall : (c.spans.rows.filter fun s =>
            decide (s.traceKey = (p, t)) && (c.binding s.traceKey).isNone) =
            c.spansOf (p, t) := by
          refine List.filter_congr fun s _ => ?_
          by_cases hs : s.traceKey = (p, t)
          · rw [hs, hb, Option.isNone_none, Bool.and_true]
          · rw [decide_eq_false hs, Bool.false_and]
        rw [Option.isNone_none, Bool.and_true, hall]
        split
        · rfl
        · rename_i hrow
          refine List.eq_nil_iff_forall_not_mem.mpr fun s hs => hrow ?_
          obtain ⟨hmem, hkey⟩ := mem_spansOf.mp hs
          rw [← hkey]
          exact hl.span_trace s hmem

/-- The call's new rows are those of its traces. -/
theorem filter_newRows (h : Recorded S c p prepared preset now c') (callId : String) :
    ((newRows S c p prepared now).filter fun s => c'.bound (p, callId) s.traceKey) =
      (callTraceIds S c p prepared now callId).flatMap fun t =>
        (newSpans S c p prepared now t).map (spanRow p now) := by
  have hgroups : ∀ ts : List TraceId, (∀ t ∈ ts, t ∈ keptIds S c p prepared now) →
      ((ts.flatMap fun t => (newSpans S c p prepared now t).map (spanRow p now)).filter
        fun s => c'.bound (p, callId) s.traceKey) =
      (ts.filter fun t => destination S c p prepared now t = some callId).flatMap fun t =>
        (newSpans S c p prepared now t).map (spanRow p now) := by
    intro ts
    induction ts with
    | nil => intro _; rfl
    | cons t ts ih =>
        intro hts
        have hb : ∀ s ∈ (newSpans S c p prepared now t).map (spanRow p now),
            c'.bound (p, callId) s.traceKey =
              decide (destination S c p prepared now t = some callId) := by
          intro s hs
          obtain ⟨x, hx, rfl⟩ := List.mem_map.mp hs
          have hkey : (spanRow p now x).traceKey = (p, t) := by
            rw [Span.traceKey, spanRow, (newSpans_subset hx).2]
          rw [Bool.eq_iff_iff, bound_iff, hkey, h.binding,
            if_pos ⟨rfl, hts t List.mem_cons_self⟩, decide_eq_true_eq]
          simp
        rw [List.flatMap_cons, List.filter_append,
          ih fun t' ht' => hts t' (List.mem_cons_of_mem _ ht'), List.filter_congr hb,
          List.filter_cons]
        by_cases hd : destination S c p prepared now t = some callId
        · simp [hd]
        · simp [hd]
  exact hgroups _ fun t ht => ht

/-- The stored spans a batch leaves with the call: its own, and those of
the traces that join it. -/
theorem filter_keptSpans (h : Recorded S c p prepared preset now c') (callId : String) :
    ((c.spans.rows.filter fun s =>
      !dropsKey p (goneTraces S c p prepared now) s.traceKey).filter
        fun s => c'.bound (p, callId) s.traceKey) =
      c.spans.rows.filter fun s => c.bound (p, callId) s.traceKey ||
        ((c.binding s.traceKey).isNone && decide (s.traceKey.1 = p ∧
          s.traceKey.2 ∈ callTraceIds S c p prepared now callId)) := by
  rw [List.filter_filter]
  refine List.filter_congr fun s _ => ?_
  rw [bound_recorded h, Bool.and_eq_left_iff_imp]
  intro hb
  rw [Bool.not_eq_true', ← Bool.not_eq_true]
  intro hd
  obtain ⟨hp, -, -, hpurged⟩ := dropsKey_goneTraces.mp hd
  rcases Bool.or_eq_true _ _ ▸ hb with hb | hb
  · have hbind := (bound_iff.mp hb).2
    have hnone := hpurged.1
    rw [← hp] at hnone
    rw [hnone] at hbind
    cases hbind
  · have ht := (of_decide_eq_true (Bool.and_eq_true _ _ ▸ hb).2).2
    exact (mem_keptIds.mp (List.mem_filter.mp ht).1).2 hpurged

/-- **A call's spans after a batch** are those it had and those it is
credited with. -/
theorem perm_callSpans_recorded (hl : Linked c) (h : Recorded S c p prepared preset now c')
    (callId : String) : (c'.callSpans (p, callId)).Perm
      (c.callSpans (p, callId) ++ creditedSpans S c p prepared now callId) := by
  rw [callSpans, h.spans, List.filter_append, filter_keptSpans h, filter_newRows h, creditedSpans,
    ← List.append_assoc]
  refine List.Perm.append_right _ ((perm_filter_or fun s _ hs => ?_).trans
    ((perm_joiningSpans hl callId).append_left _))
  rw [(bound_iff.mp hs).2]
  rfl

theorem tally_callSpans_recorded (hl : Linked c) (h : Recorded S c p prepared preset now c')
    (callId : String) : tally (c'.callSpans (p, callId)) =
      (tally (c.callSpans (p, callId))).add ((creditOf S c p prepared now callId).spans,
        (creditOf S c p prepared now callId).endMarker) := by
  rw [tally_perm (perm_callSpans_recorded hl h callId), tally_append, tally_creditedSpans]

/-- A batch leaves another project's spans with their calls. -/
theorem callSpans_recorded_of_ne (h : Recorded S c p prepared preset now c') (hk : k.1 ≠ p) :
    c'.callSpans k = c.callSpans k := by
  have hbound : ∀ s : Span, c'.bound k s.traceKey = c.bound k s.traceKey := by
    intro s
    rw [Bool.eq_iff_iff, bound_iff, bound_iff]
    refine and_congr_right fun hs => ?_
    rw [h.binding, if_neg fun hp => hk (hs.symm.trans hp.1)]
  have hnone : ((newRows S c p prepared now).filter fun s => c'.bound k s.traceKey) = [] := by
    rw [List.filter_eq_nil_iff]
    intro s hs hb
    exact hk ((bound_iff.mp hb).1.symm.trans (traceKey_of_mem_newRows hs).1)
  rw [callSpans, callSpans, h.spans, List.filter_append, hnone, List.append_nil,
    List.filter_filter]
  refine List.filter_congr fun s _ => ?_
  rw [hbound, Bool.and_eq_left_iff_imp]
  intro hb
  rw [Bool.not_eq_true', ← Bool.not_eq_true]
  intro hd
  exact hk ((bound_iff.mp hb).1.symm.trans (dropsKey_goneTraces.mp hd).1)

end Catalog

/-! ## Rows -/

namespace Call

variable {S : CallStore} {item : Evidence} {now : UnixNano} {final : Bool} {r : Call}

theorem tally_noted : (r.noted final).tally = r.tally := by
  unfold noted
  split <;> rfl

theorem tally_addEvidence :
    (r.addEvidence S item now).tally = r.tally.add (item.spans, item.endMarker) := by
  have hended : (if r.givesEndSignal item then some now else r.endSignalUnixNano).isSome =
      (r.endSignalUnixNano.isSome || item.endMarker) := by
    unfold givesEndSignal
    cases r.endSignalUnixNano <;> cases item.endMarker <;> rfl
  unfold addEvidence
  split
  · rename_i hcounted
    -- what is counted only gives no end signal
    have hno : r.givesEndSignal item = false := by
      rw [countedOnly] at hcounted
      exact (Bool.not_eq_true' _).mp (Bool.and_eq_true _ _ ▸ hcounted).2
    rw [hno, if_neg Bool.false_ne_true] at hended
    exact Prod.ext rfl hended
  · exact Prod.ext rfl hended

theorem tally_credited :
    (r.credited S item now final).tally = r.tally.add (item.spans, item.endMarker) := by
  unfold credited
  split
  · rw [tally_noted, tally_addEvidence]
  · exact tally_addEvidence

end Call

namespace Catalog

variable {S : CallStore} {c c' : Catalog} {p : ProjectId} {prepared : List Prepared}
variable {preset : CapturePreset} {now created : UnixNano} {k : CallKey}

/-- A call credited with no span is credited with nothing. -/
theorem tally_creditedRow (r : Call) : (creditedRow S c p prepared now r).tally =
    r.tally.add ((creditOf S c p prepared now r.callId).spans,
      (creditOf S c p prepared now r.callId).endMarker) := by
  rw [creditedRow]
  split
  · rename_i hzero
    have hnil : creditedSpans S c p prepared now r.callId = [] := by
      rw [← List.length_eq_zero_iff, ← hzero]
      exact congrArg Prod.fst (tally_creditedSpans r.callId)
    rw [← tally_creditedSpans, hnil]
    exact (SpanTally.add_zero _).symm
  · exact Call.tally_credited

/-- A call that is not stored has no spans. -/
theorem callSpans_eq_nil (hl : Linked c) (h : c.calls.find? k = none) : c.callSpans k = [] := by
  refine List.eq_nil_iff_forall_not_mem.mpr fun s hs => ?_
  obtain ⟨-, hp, hb⟩ := mem_callSpans.mp hs
  have hcall := hl.trace_call _ _ hb
  rw [show (s.traceKey.1, k.2) = k from Prod.ext hp rfl, h] at hcall
  cases hcall

theorem Counted.recorded (hc : Counted c) (hl : Linked c)
    (h : Recorded S c p prepared preset now c') : Counted c' := by
  rintro ⟨p', callId⟩ r' hr'
  by_cases hp : p' = p
  · subst hp
    rw [tally_callSpans_recorded hl h]
    cases hr : c.calls.find? (p', callId) with
    | some r =>
        rw [h.calls_stored callId r hr] at hr'
        obtain rfl := Option.some.inj hr'
        obtain rfl : r.callId = callId := congrArg Prod.snd (Table.key_of_find? hr)
        rw [tally_creditedRow, hc _ r hr]
    | none =>
        obtain ⟨target, -, -, rfl, ⟨key, -, rfl⟩, -⟩ := h.calls_new callId r' hr hr'
        rw [tally_creditedRow, callSpans_eq_nil hl hr]
        rfl
  · rw [h.calls_other _ hp] at hr'
    rw [callSpans_recorded_of_ne h hp]
    exact hc _ r' hr'

/-! ## The other operations -/

/-- What writes only the calls, and no tally, keeps the agreement. -/
theorem Counted.of_onlyCalls (h : Counted c) (honly : OnlyCalls c c')
    (hrows : KeepsRows Call.tally c c') : Counted c' :=
  h.of_same hrows fun k _ => by rw [callSpans_congr honly.spans honly.callTraces]

theorem Counted.updateCall (h : Counted c) {f : Call → Call} {hf : ∀ r, (f r).key = r.key}
    (htally : ∀ r, (f r).tally = r.tally) : Counted (c.updateCall k f hf) := by
  exact h.of_onlyCalls (onlyCalls_updateCall f hf) (keepsRows_updateCall htally)

theorem Counted.bumpCounter (h : Counted c) (name : OtlpCounterName) (n : ℕ) :
    Counted (c.bumpCounter p name n) :=
  h.of_onlyCalls (onlyCalls_bumpCounter _ _ _) fun k r hr => ⟨r, by
    rwa [calls_bumpCounter] at hr, rfl⟩

theorem Counted.aside {d : Catalog} (h : Counted c) (ha : Aside c d) : Counted d := by
  exact h.of_onlyCalls ha.onlyCalls (ha.keepsRows fun _ => rfl)

theorem Counted.insertCalls {targets : List CallTarget} {due : Option UnixNano} (h : Counted c)
    (hl : Linked c) (hins : c.insertCalls p targets preset due = some c') : Counted c' := by
  intro k r' hr'
  have honly := onlyCalls_insertCalls hins
  rw [callSpans_congr honly.spans honly.callTraces]
  cases hr : c.calls.find? k with
  | some r =>
      rw [find?_insertCalls_of_some hins hr] at hr'
      obtain rfl := Option.some.inj hr'
      exact h k r hr
  | none =>
      obtain ⟨target, -, -, key, -, rfl, -⟩ := find?_insertCalls_of_none hins hr hr'
      rw [callSpans_eq_nil hl hr]
      rfl

/-- An unbound trace's spans are no call's. -/
theorem callSpans_deleteTrace {t : TraceId} (ht : c.binding (p, t) = none) :
    (c.deleteTrace p t).callSpans k = c.callSpans k := by
  rw [callSpans, callSpans, spans_deleteTrace, Table.delete, List.filter_filter]
  refine List.filter_congr fun s _ => ?_
  have hbinding : s.traceKey ≠ (p, t) →
      (c.deleteTrace p t).binding s.traceKey = c.binding s.traceKey := by
    intro hs
    rw [binding, find?_callTraces_deleteTrace, if_neg hs, binding]
  rw [Bool.eq_iff_iff, Bool.and_eq_true, bound_iff, bound_iff, Bool.not_eq_true',
    decide_eq_false_iff_not]
  constructor
  · rintro ⟨⟨hk, hb⟩, hs⟩
    exact ⟨hk, hbinding hs ▸ hb⟩
  · rintro ⟨hk, hb⟩
    have hs : s.traceKey ≠ (p, t) := by
      intro heq
      rw [heq, ht] at hb
      cases hb
    exact ⟨⟨hk, (hbinding hs).symm ▸ hb⟩, hs⟩

theorem isSome_earliest {readings : List UnixNano} :
    (earliest readings).isSome = !readings.isEmpty := by
  cases readings <;> rfl

/-- **A promoted call's row counts its trace's spans.** -/
theorem Counted.promoted {row : CallTrace} (h : Counted c) (hl : Linked c)
    (hrow : row ∈ c.callTraces) (hparked : row.callId = none) {c₁ : Catalog}
    (h₁ : c.insertCall (c.promotedCall S row created) = some c₁) :
    Counted (c₁.bindTrace row.key (c.promotedCall S row created).callId) := by
  have honly := onlyCalls_insertCall h₁
  have hunbound : c.binding row.key = none := (binding_of_mem hrow).trans hparked
  have hbinding : ∀ t, (c₁.bindTrace row.key (c.promotedCall S row created).callId).binding t =
      if t = row.key then some (c.promotedCall S row created).callId else c.binding t := by
    intro t
    rw [binding_bindTrace (by rw [honly.callTraces, Table.find?_of_mem hrow]; rfl),
      binding_congr honly.callTraces]
  intro k r' hr'
  change c₁.calls.find? k = some r' at hr'
  rw [find?_insertCall h₁] at hr'
  have hspans : (c₁.bindTrace row.key (c.promotedCall S row created).callId).spans = c.spans :=
    honly.spans
  by_cases hk : (c.promotedCall S row created).key = k
  · have hnone := find?_eq_none_of_insertCall h₁
    rw [hk] at hnone
    rw [hnone, Option.none_or, if_pos hk] at hr'
    obtain rfl := Option.some.inj hr'
    have hcall : (c₁.bindTrace row.key (c.promotedCall S row created).callId).callSpans k =
        c.spansOf row.key := by
      rw [callSpans, hspans, spansOf]
      refine List.filter_congr fun s _ => ?_
      rw [Bool.eq_iff_iff, bound_iff, decide_eq_true_eq, hbinding]
      constructor
      · rintro ⟨hp, hb⟩
        split at hb
        · assumption
        · -- no trace is bound to a call that is not stored
          have hsome := hl.trace_call _ _ hb
          rw [show (s.traceKey.1, k.2) = k from Prod.ext hp rfl, hnone] at hsome
          cases hsome
      · intro hs
        rw [if_pos hs, ← hk, hs]
        exact ⟨rfl, rfl⟩
    rw [hcall]
    refine Prod.ext rfl ?_
    change (earliest _).isSome = _
    rw [isSome_earliest, tally, Bool.eq_iff_iff, Bool.not_eq_true', ← Bool.not_eq_true,
      List.isEmpty_iff, List.map_eq_nil_iff, List.filter_eq_nil_iff, List.any_eq_true]
    push Not
    exact Iff.rfl
  · rw [if_neg hk, Option.or_none] at hr'
    rw [h k r' hr', callSpans, callSpans, hspans]
    congr 1
    refine List.filter_congr fun s _ => ?_
    rw [Bool.eq_iff_iff, bound_iff, bound_iff, hbinding]
    refine and_congr_right fun hp => ?_
    split
    · rename_i hs
      rw [hs, hunbound]
      refine ⟨fun hno => (by cases hno), fun hid => ?_⟩
      have hkey : (c.promotedCall S row created).key = k :=
        Prod.ext ((congrArg Prod.fst hs).symm.trans hp) (Option.some.inj hid)
      exact absurd hkey hk
    · exact Iff.rfl

theorem Counted.collectParkedTrace {row : CallTrace} (h : Counted c) (hl : Linked c)
    (hrow : row ∈ c.callTraces) (hparked : row.callId = none)
    (hrun : c.collectParkedTrace S row now created = some c') : Counted c' := by
  rcases collectParkedTrace_cases hrun with ⟨name, n, -, rfl⟩ | ⟨-, -, c₁, h₁, rfl⟩
  · refine Counted.bumpCounter ?_ name n
    have hunbound : c.binding (row.projectId, row.traceId) = none :=
      (binding_of_mem hrow).trans hparked
    exact h.of_same (fun k r hr => ⟨r, hr, rfl⟩)
      fun k _ => by rw [callSpans_deleteTrace hunbound]
  · exact h.promoted hl hrow hparked h₁

/-- A claim marks spans, which changes neither whose they are nor what
they say. -/
theorem Counted.claimed (h : Counted c) {r : Call} : Counted (c.claimed r now) := by
  have hupdated : Counted (c.updateCall r.key (Call.lease r.nextRevision now)
      (Call.lease_key _ _)) := h.updateCall fun _ => rfl
  refine hupdated.of_same (fun k r' hr' => ⟨r', hr', rfl⟩) fun k _ => ?_
  have hmark : (c.claimed r now).callSpans k =
      (c.callSpans k).map (c.markSpan r.key r.nextRevision) := by
    rw [callSpans, callSpans]
    change ((c.spans.rows.map (c.markSpan r.key r.nextRevision)).filter _) = _
    rw [List.filter_map]
    congr 1
    refine List.filter_congr fun s _ => ?_
    rw [Function.comp_apply, (c.markSpan_columns r.key r.nextRevision s).1]
    rfl
  rw [hmark, tally_map fun s => (c.markSpan_columns r.key r.nextRevision s).2.2.1]
  rfl

theorem Counted.purgeCall (h : Counted c) {k : CallKey} (hrun : c.purgeCall S k now = some c') :
    Counted c' := by
  obtain ⟨r, -, -, hkeys⟩ := purgeCall_eq_some hrun
  have hdeleted : ∀ k', (c'.calls.find? k').isSome = true → k' ≠ k := by
    intro k' hk' heq
    rw [hkeys.calls, find?_calls_deleteCall, if_pos heq] at hk'
    cases hk'
  refine h.of_same (fun k' r' hr' => ?_) fun k' hk' => ?_
  · have hne := hdeleted k' (by rw [hr']; rfl)
    rw [hkeys.calls, find?_calls_deleteCall, if_neg hne] at hr'
    exact ⟨r', hr', rfl⟩
  · have hne := hdeleted k' hk'
    rw [callSpans_congr hkeys.spans hkeys.callTraces]
    have hcall : (c.deleteCall k).callSpans k' = c.callSpans k' := by
      change ((c.spans.delete fun s => c.bound k s.traceKey).rows.filter _) = _
      rw [Table.delete, List.filter_filter, callSpans]
      refine List.filter_congr fun s _ => ?_
      have hbinding : c.bound k s.traceKey = false →
          (c.deleteCall k).binding s.traceKey = c.binding s.traceKey := by
        intro hb
        rw [binding, find?_callTraces_deleteCall, hb, if_neg Bool.false_ne_true, binding]
      rw [Bool.eq_iff_iff, Bool.and_eq_true, bound_iff, bound_iff, Bool.not_eq_true']
      constructor
      · rintro ⟨⟨hp, hb⟩, hs⟩
        exact ⟨hp, hbinding hs ▸ hb⟩
      · rintro ⟨hp, hb⟩
        have hs : c.bound k s.traceKey = false := by
          rw [← Bool.not_eq_true, bound_iff]
          rintro ⟨hp', hb'⟩
          rw [hb] at hb'
          exact hne (Prod.ext (hp.symm.trans hp') (Option.some.inj hb'))
        exact ⟨⟨hp, (hbinding hs).symm ▸ hb⟩, hs⟩
    rw [hcall]

end Catalog

/-! ## Every run -/

theorem counted_step {S : CallStore} {c c' : Catalog} {op : Op} (hl : c.Linked) (h : c.Counted)
    (hstep : CatalogStep S c op c') : c'.Counted := by
  cases hstep with
  | provisionProject | setCapturePreset | beginProjectDeletion | failStaleUploads
  | collectExpiredTombstones => exact h
  | recordSpans hrec =>
      exact (((((h.recorded hl (recorded_of_record hrec)).bumpCounter _ _).bumpCounter _
        _).bumpCounter _ _).bumpCounter _ _)
  | createRecording hrun =>
      rcases Catalog.createRecording_cases hrun with rfl | rfl | ⟨-, -, c₁, h₁, rfl⟩
      · exact h
      · exact h.bumpCounter _ _
      · have hinserted := h.insertCalls hl h₁
        exact hinserted
  | finishUpload hrun =>
      obtain ⟨row, -, -, rfl⟩ := Catalog.finishUpload_eq_some hrun
      refine Catalog.Counted.of_onlyCalls (c := { c with
        recordings := c.recordings.patch (Catalog.storeRecording row.key _ _)
          (Catalog.storeRecording_key row.key _ _) }) h Catalog.onlyCalls_addCallEvidence
        fun k r' hr' => ?_
      by_cases hk : k = row.callKey
      · rw [hk, Catalog.find?_addCallEvidence_self] at hr'
        obtain ⟨r, hr, rfl⟩ := Option.map_eq_some_iff.mp hr'
        exact ⟨r, hk ▸ hr, by rw [Call.tally_credited, SpanTally.add_zero]⟩
      · rw [Catalog.find?_addCallEvidence_of_ne hk] at hr'
        exact ⟨r', hr', rfl⟩
  | collectParkedTraces hrun =>
      have hboth := Catalog.collectParkedTraces_induction
        (P := fun d => d.Linked ∧ d.Counted)
        (fun d d' row hd hrow hparked hone => ⟨hd.1.collectParkedTrace hrow hone,
          hd.2.collectParkedTrace hd.1 hrow hparked hone⟩) hrun ⟨hl, h⟩
      exact hboth.2
  | claim hrun =>
      obtain ⟨d, ha, ⟨-, rfl⟩ | ⟨r, preset, -, -, -, -, -, -, rfl⟩⟩ := Catalog.claim_cases hrun
      · exact h.aside ha
      · exact (h.aside ha).claimed
  | finish hrun =>
      obtain ⟨r, hr, -, -, ⟨-, rfl⟩ | ⟨-, -, rfl⟩⟩ := Catalog.finish_cases hrun
      · exact h.updateCall fun _ => rfl
      · rename_i claim now
        refine h.of_same (Catalog.keepsRows_finished hr fun _ _ _ => Call.tally_noted) fun k _ => ?_
        · have hspans : (c.finished claim now).callSpans k = c.callSpans k := by
            rw [Catalog.finished]
            exact Catalog.callSpans_congr Catalog.onlyCalls_noteEvidencePastCap.spans
              Catalog.onlyCalls_noteEvidencePastCap.callTraces k
          rw [hspans]
  | fail hrun =>
      obtain ⟨r, -, -, -, attempts, due, rfl⟩ := Catalog.fail_eq_some hrun
      exact h.updateCall fun _ => rfl
  | releaseLeases =>
      exact h.of_same (Catalog.keepsRows_releaseLeases fun _ => rfl) fun k _ => rfl
  | purgeCall hrun => exact h.purgeCall hrun

/-- **In every reachable catalog a call's row counts its stored spans**, and
has an end signal exactly when one of them ended it. -/
theorem counted_worldAfter (S : CallStore) (ops : List Op) :
    (worldAfter S ops).catalog.Counted := by
  have hboth : (worldAfter S ops).catalog.Linked ∧ (worldAfter S ops).catalog.Counted := by
    refine Transition.run_invariant (P := fun w => w.catalog.Linked ∧ w.catalog.Counted)
      (fun w op w' hw h => ⟨linked_step hw.1 (catalogStep_of_step h),
        counted_step hw.1 hw.2 (catalogStep_of_step h)⟩) ops _ ?_
    exact ⟨Catalog.linked_empty, Catalog.counted_empty⟩
  exact hboth.2

end Earshot
