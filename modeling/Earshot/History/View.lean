import Earshot.Common.Ledger
import Earshot.Effects.Rows
/-!
# A call as a ledger

What a call is for, in the terms of `Snapshots.Ledger`: its spans and
stored recordings are the items, `first_revision` their mark, the closers'
claims the snapshots. A tail span is the one item that need not be
announced.

Evidence writes bring items (`Brings`): what was held stays, what is new
is unmarked, and a new item that is not a tail span leaves its call dirty.
-/

namespace Earshot

open Relational Snapshots

/-! ## Heads -/

/-- The columns of a call the closers decide by. -/
@[ext] structure CallHead where
  dirty : Bool
  latest : Option ℕ
  pending : Option ℕ
  token : ℕ
  ended : Bool

def Call.head (r : Call) : CallHead where
  dirty := r.dirty
  latest := r.latestRevision
  pending := r.pendingRevision
  token := r.leaseToken
  ended := r.endSignalUnixNano.isSome

/-- A call that does not exist. -/
def CallHead.absent : CallHead := ⟨false, none, none, 0, false⟩

def Catalog.head (c : Catalog) (k : CallKey) : CallHead :=
  ((c.calls.find? k).map Call.head).getD .absent

/-- Evidence arrived. -/
structure CallHead.Arrives (h h' : CallHead) : Prop where
  dirty : h.dirty = true → h'.dirty = true
  latest : h'.latest = h.latest
  pending : h'.pending = h.pending
  token : h'.token = h.token
  ended : h.ended = true → h'.ended = true

theorem CallHead.Arrives.refl (h : CallHead) : h.Arrives h := ⟨id, rfl, rfl, rfl, id⟩

theorem CallHead.Arrives.trans {h₁ h₂ h₃ : CallHead} (h : h₁.Arrives h₂) (h' : h₂.Arrives h₃) :
    h₁.Arrives h₃ :=
  ⟨h'.dirty ∘ h.dirty, h'.latest.trans h.latest, h'.pending.trans h.pending,
    h'.token.trans h.token, h'.ended ∘ h.ended⟩

namespace Call

variable {S : CallStore} {item : Evidence} {now : UnixNano} {final : Bool} {r : Call}

@[simp] theorem head_noted : (r.noted final).head = r.head := by
  unfold noted
  split <;> rfl

theorem head_addEvidence : r.head.Arrives (r.addEvidence S item now).head := by
  unfold addEvidence
  split
  · exact .refl _
  · refine ⟨fun _ => rfl, rfl, rfl, rfl, fun hended => ?_⟩
    change (if r.givesEndSignal item then some now else r.endSignalUnixNano).isSome = true
    split
    · rfl
    · exact hended

theorem head_credited : r.head.Arrives (r.credited S item now final).head := by
  unfold credited
  split
  · rw [head_noted]
    exact head_addEvidence
  · exact head_addEvidence

/-- Evidence that is not tail spans alone leaves its call dirty. -/
theorem dirty_credited (h : item.spans ≠ item.tailSpans ∨ item.recordings ≠ 0) :
    (r.credited S item now final).head.dirty = true := by
  have hcounted : r.countedOnly item = false := by
    rw [countedOnly]
    rcases h with h | h <;> simp [h]
  have hadd : (r.addEvidence S item now).head.dirty = true := by
    rw [addEvidence, if_neg (by rw [hcounted]; exact Bool.false_ne_true)]
    rfl
  unfold credited
  split
  · rw [head_noted]
    exact hadd
  · exact hadd

end Call

/-! ## Items -/

/-- One piece of a call's evidence. -/
inductive Item where
  | span (traceId : TraceId) (spanId : SpanId)
  | recording (r : Recording)

namespace Catalog

/-- The call holds the item under the mark. -/
def Holds (c : Catalog) (k : CallKey) : Item → Option ℕ → Prop
  | .span t x, m => ∃ s ∈ c.callSpans k, s.traceId = t ∧ s.spanId = x ∧ s.firstRevision = m
  | .recording r, m => ∃ row ∈ c.recordings, row.callKey = k ∧ row.state = .stored ∧
      row.toRecording = r ∧ row.firstRevision = m

/-- The items that must not be forgotten: all but tail spans. -/
def Urgent (c : Catalog) (k : CallKey) : Set Item
  | .span t x => ∃ s ∈ c.callSpans k, s.traceId = t ∧ s.spanId = x ∧ s.tail = false
  | .recording _ => True

variable {c c' c₁ c₂ c₃ : Catalog} {k : CallKey}

/-- Of one call, a trace and a span ID name one span. -/
theorem eq_of_mem_callSpans {s s' : Span} (h : s ∈ c.callSpans k) (h' : s' ∈ c.callSpans k)
    (ht : s.traceId = s'.traceId) (hx : s.spanId = s'.spanId) : s = s' := by
  obtain ⟨hs, hp, -⟩ := mem_callSpans.mp h
  obtain ⟨hs', hp', -⟩ := mem_callSpans.mp h'
  refine Table.eq_of_key_eq hs hs' ?_
  rw [Span.key, Span.key, ht, hx, hp, hp']

/-- **Evidence arrived at call `k`.** -/
structure Brings (c c' : Catalog) (k : CallKey) : Prop where
  keeps : ∀ e m, c.Holds k e m → c'.Holds k e m
  marked : ∀ e r, c'.Holds k e (some r) → c.Holds k e (some r)
  urgent : ∀ e m, c.Holds k e m → (e ∈ c'.Urgent k ↔ e ∈ c.Urgent k)
  noted : ∀ e, c'.Holds k e none → ¬ c.Holds k e none → e ∈ c'.Urgent k →
    (c'.head k).dirty = true
  head : (c.head k).Arrives (c'.head k)

theorem Brings.trans (h : Brings c₁ c₂ k) (h' : Brings c₂ c₃ k) : Brings c₁ c₃ k where
  keeps e m hm := h'.keeps e m (h.keeps e m hm)
  marked e r hr := h.marked e r (h'.marked e r hr)
  urgent e m hm := (h'.urgent e m (h.keeps e m hm)).trans (h.urgent e m hm)
  noted e hnone hnew hurgent := by
    by_cases hmid : c₂.Holds k e none
    · exact h'.head.dirty (h.noted e hmid hnew ((h'.urgent e none hmid).mp hurgent))
    · exact h'.noted e hnone hmid hurgent
  head := h.head.trans h'.head

/-- The rule for evidence of spans and recordings: what a write may do to
the rows of one call. -/
theorem Brings.of_rows
    (hspans : ∀ s ∈ c.callSpans k, s ∈ c'.callSpans k)
    (hnewSpans : ∀ s ∈ c'.callSpans k, s ∉ c.callSpans k →
      s.firstRevision = none ∧ (s.tail = false → (c'.head k).dirty = true))
    (hrecordings : ∀ row ∈ c.recordings, row.callKey = k → row.state = .stored →
      row ∈ c'.recordings)
    (hnewRecordings : ∀ row ∈ c'.recordings, row.callKey = k → row.state = .stored →
      row ∈ c.recordings ∨ (row.firstRevision = none ∧ (c'.head k).dirty = true))
    (hhead : (c.head k).Arrives (c'.head k)) : Brings c c' k := by
  refine ⟨?_, ?_, ?_, ?_, hhead⟩
  · rintro (⟨t, x⟩ | r) m hm
    · obtain ⟨s, hs, hrest⟩ := hm
      exact ⟨s, hspans s hs, hrest⟩
    · obtain ⟨row, hrow, hk, hst, hrest⟩ := hm
      exact ⟨row, hrecordings row hrow hk hst, hk, hst, hrest⟩
  · rintro (⟨t, x⟩ | r) m hm
    · obtain ⟨s, hs, ht, hx, hmark⟩ := hm
      by_cases hold : s ∈ c.callSpans k
      · exact ⟨s, hold, ht, hx, hmark⟩
      · rw [(hnewSpans s hs hold).1] at hmark
        cases hmark
    · obtain ⟨row, hrow, hk, hst, hr, hmark⟩ := hm
      rcases hnewRecordings row hrow hk hst with hold | ⟨hnone, -⟩
      · exact ⟨row, hold, hk, hst, hr, hmark⟩
      · rw [hnone] at hmark
        cases hmark
  · rintro (⟨t, x⟩ | r) m hm
    · obtain ⟨s, hs, ht, hx, -⟩ := hm
      constructor
      · rintro ⟨s', hs', ht', hx', htail⟩
        have heq := eq_of_mem_callSpans (hspans s hs) hs' (ht.trans ht'.symm) (hx.trans hx'.symm)
        exact ⟨s, hs, ht, hx, heq ▸ htail⟩
      · rintro ⟨s', hs', hrest⟩
        exact ⟨s', hspans s' hs', hrest⟩
    · exact Iff.rfl
  · rintro (⟨t, x⟩ | r) hnone hnew hurgent
    · obtain ⟨s, hs, ht, hx, hmark⟩ := hnone
      obtain ⟨s', hs', ht', hx', htail⟩ := hurgent
      have heq := eq_of_mem_callSpans hs hs' (ht.trans ht'.symm) (hx.trans hx'.symm)
      have hold : s ∉ c.callSpans k := fun hold => hnew ⟨s, hold, ht, hx, hmark⟩
      exact (hnewSpans s hs hold).2 (heq ▸ htail)
    · obtain ⟨row, hrow, hk, hst, hr, hmark⟩ := hnone
      rcases hnewRecordings row hrow hk hst with hold | ⟨-, hdirty⟩
      · exact absurd ⟨row, hold, hk, hst, hr, hmark⟩ hnew
      · exact hdirty

/-- A write that leaves spans, bindings and recordings alone brings
nothing new. -/
theorem Brings.of_tables (hspans : c'.spans = c.spans) (htraces : c'.callTraces = c.callTraces)
    (hrecordings : c'.recordings = c.recordings) (hhead : (c.head k).Arrives (c'.head k)) :
    Brings c c' k := by
  have hcall : ∀ s, s ∈ c'.callSpans k ↔ s ∈ c.callSpans k := by
    intro s
    rw [mem_callSpans, mem_callSpans, hspans, binding_congr htraces]
  refine .of_rows (fun s hs => (hcall s).mpr hs) (fun s hs hno => absurd ((hcall s).mp hs) hno)
    ?_ ?_ hhead
  · rw [hrecordings]
    exact fun row hrow _ _ => hrow
  · rw [hrecordings]
    exact fun row hrow _ _ => Or.inl hrow

theorem head_of_find? {r : Call} (h : c.calls.find? k = some r) : c.head k = r.head := by
  rw [head, h]
  rfl

theorem head_of_none (h : c.calls.find? k = none) : c.head k = .absent := by
  rw [head, h]
  rfl

theorem head_congr (h : c'.calls.find? k = c.calls.find? k) : c'.head k = c.head k := by
  rw [head, head, h]

/-- A new call's head arrives at nothing. -/
theorem arrives_of_new {h : CallHead} (hl : h.latest = none) (hp : h.pending = none)
    (ht : h.token = 0) : CallHead.absent.Arrives h :=
  ⟨fun h => (Bool.false_ne_true h).elim, hl, hp, ht, fun h => (Bool.false_ne_true h).elim⟩

/-! ## Batches -/

variable {S : CallStore} {p : ProjectId} {prepared : List Prepared} {preset : CapturePreset}
variable {now : UnixNano}

theorem head_recorded (h : Recorded S c p prepared preset now c') :
    (c.head k).Arrives (c'.head k) := by
  obtain ⟨p', callId⟩ := k
  by_cases hp : p' = p
  · subst hp
    cases hr : c.calls.find? (p', callId) with
    | some r =>
        rw [head_of_find? hr, head_of_find? (h.calls_stored callId r hr), creditedRow]
        split
        · exact .refl _
        · exact Call.head_credited
    | none =>
        rw [head_of_none hr]
        cases hr' : c'.calls.find? (p', callId) with
        | none =>
            rw [head_of_none hr']
            exact .refl _
        | some r' =>
            obtain ⟨target, -, -, -, ⟨key, -, rfl⟩, -⟩ := h.calls_new callId r' hr hr'
            rw [head_of_find? hr', creditedRow]
            split
            · exact arrives_of_new rfl rfl rfl
            · exact CallHead.Arrives.trans (arrives_of_new rfl rfl rfl) Call.head_credited
  · rw [head_congr (h.calls_other _ hp)]
    exact .refl _

/-- **A batch brings each call its new spans.** -/
theorem brings_recorded (hl : Linked c) (h : Recorded S c p prepared preset now c') :
    Brings c c' k := by
  have hkeep : ∀ s ∈ c.callSpans k, s ∈ c'.callSpans k := by
    intro s hs
    obtain ⟨hmem, hp, hb⟩ := mem_callSpans.mp hs
    refine mem_callSpans.mpr ⟨h.mem_spans.mpr (Or.inl ⟨hmem, ?_⟩), hp, h.binding_of_some hb⟩
    by_contra hd
    have hnone := (dropsKey_goneTraces.mp (Bool.eq_true_of_not_eq_false hd)).2.2.2.1
    have hpd := (dropsKey_goneTraces.mp (Bool.eq_true_of_not_eq_false hd)).1
    rw [← hpd] at hnone
    rw [hnone] at hb
    cases hb
  refine .of_rows hkeep ?_ ?_ ?_ (head_recorded h)
  · intro s hs hnew
    obtain ⟨hmem, hp, hb⟩ := mem_callSpans.mp hs
    -- the call is the destination of the span's trace
    obtain ⟨hpk, ht, hdest⟩ : s.projectId = p ∧ s.traceId ∈ keptIds S c p prepared now ∧
        destination S c p prepared now s.traceId = some k.2 := by
      rw [h.binding] at hb
      split at hb
      · rename_i hk
        exact ⟨hk.1, hk.2, hb⟩
      · rename_i hk
        rcases h.mem_spans.mp hmem with ⟨hold, -⟩ | hrow
        · exact absurd (mem_callSpans.mpr ⟨hold, hp, hb⟩) hnew
        · obtain ⟨hpk, ht, -⟩ := traceKey_of_mem_newRows hrow
          exact absurd ⟨hpk, ht⟩ hk
    have hcallTrace : s.traceId ∈ callTraceIds S c p prepared now k.2 :=
      List.mem_filter.mpr ⟨ht, decide_eq_true hdest⟩
    have hkey : k = (p, k.2) := Prod.ext (hp.symm.trans hpk) rfl
    have hdirty : (joiningSpans c p s.traceId ≠ [] ∨
        ∃ x ∈ newSpans S c p prepared now s.traceId, x.tail = false) →
        (c'.head k).dirty = true := by
      intro hurgent
      have hlt := tailSpans_lt_spans hcallTrace hurgent
      obtain ⟨r', hr'⟩ := Option.isSome_iff_exists.mp
        (h.isSome_destination hl.trace_call ht hdest)
      rw [← hkey] at hr'
      rw [head_of_find? hr']
      have hcredited : ∀ r : Call, r.callId = k.2 →
          (creditedRow S c p prepared now r).head.dirty = true := by
        intro r hid
        rw [creditedRow, hid, if_neg (by omega)]
        exact Call.dirty_credited (Or.inl (by omega))
      cases hr : c.calls.find? (p, k.2) with
      | some r =>
          have hfind := h.calls_stored k.2 r hr
          rw [← hkey, hr'] at hfind
          obtain rfl := Option.some.inj hfind
          exact hcredited r (congrArg Prod.snd (Table.key_of_find? hr))
      | none =>
          rw [hkey] at hr'
          obtain ⟨target, -, -, hid, ⟨key, -, rfl⟩, -⟩ := h.calls_new k.2 r' hr hr'
          exact hcredited _ hid
    rcases h.mem_spans.mp hmem with ⟨hold, -⟩ | hrow
    · -- a stored span of a trace that joins: it was parked
      have hnone : c.binding s.traceKey = none := by
        by_contra hne
        obtain ⟨callId, hid⟩ := Option.ne_none_iff_exists'.mp hne
        rw [h.binding_of_some hid] at hb
        exact hnew (mem_callSpans.mpr ⟨hold, hp, hid.trans hb⟩)
      refine ⟨hl.parked_unmarked s hold hnone, fun _ => hdirty (Or.inl ?_)⟩
      have hjoin : s ∈ joiningSpans c p s.traceId := by
        have htk : s.traceKey = (p, s.traceId) := Prod.ext hpk rfl
        rw [htk] at hnone
        have hrow := hl.span_trace s hold
        rw [htk] at hrow
        rw [joiningSpans, hrow, hnone]
        exact mem_spansOf.mpr ⟨hold, htk⟩
      exact List.ne_nil_of_mem hjoin
    · refine ⟨(traceKey_of_mem_newRows hrow).2.2.1, fun htail => hdirty (Or.inr ?_)⟩
      obtain ⟨t, _, x, hx, rfl⟩ := mem_newRows.mp hrow
      refine ⟨x, ?_, htail⟩
      have hxt : (spanRow p now x).traceId = t := (newSpans_subset hx).2
      rw [hxt]
      exact hx
  · rw [h.recordings]
    exact fun row hrow _ _ => hrow
  · rw [h.recordings]
    exact fun row hrow _ _ => Or.inl hrow

/-! ## Parked traces -/

variable {created : UnixNano}

/-- **A collected trace** was no call's; promoted, its spans are a dirty
call's. -/
theorem brings_collectParkedTrace (hl : Linked c) {row : CallTrace} (hrow : row ∈ c.callTraces)
    (hparked : row.callId = none) (hrun : c.collectParkedTrace S row now created = some c') :
    Brings c c' k := by
  have hbinding : c.binding row.key = none := (binding_of_mem hrow).trans hparked
  have hother : ∀ s ∈ c.callSpans k, s.traceKey ≠ row.key := by
    intro s hs heq
    have hb := (mem_callSpans.mp hs).2.2
    rw [heq, hbinding] at hb
    cases hb
  rcases collectParkedTrace_cases hrun with ⟨name, n, -, rfl⟩ | ⟨-, -, c₁, h₁, rfl⟩
  · have honly : OnlyCalls (c.deleteTrace row.projectId row.traceId)
        ((c.deleteTrace row.projectId row.traceId).bumpCounter row.projectId name n) :=
      onlyCalls_bumpCounter _ _ _
    have hcall : ∀ s, s ∈ ((c.deleteTrace row.projectId row.traceId).bumpCounter row.projectId
        name n).callSpans k ↔ s ∈ c.callSpans k := by
      intro s
      rw [mem_callSpans, mem_callSpans, binding_congr honly.callTraces, honly.spans,
        spans_deleteTrace, Table.mem_delete, decide_eq_false_iff_not, binding,
        find?_callTraces_deleteTrace]
      constructor
      · rintro ⟨⟨hs, hne⟩, hp, hb⟩
        rw [if_neg hne] at hb
        exact ⟨hs, hp, hb⟩
      · rintro ⟨hs, hp, hb⟩
        have hne : s.traceKey ≠ row.key := hother s (mem_callSpans.mpr ⟨hs, hp, hb⟩)
        refine ⟨⟨hs, hne⟩, hp, ?_⟩
        rw [if_neg (show ¬ s.traceKey = (row.projectId, row.traceId) from hne)]
        exact hb
    refine .of_rows (fun s hs => (hcall s).mpr hs) (fun s hs hno => absurd ((hcall s).mp hs) hno)
      ?_ ?_ ?_
    · rw [honly.recordings]
      exact fun r hr _ _ => hr
    · rw [honly.recordings]
      exact fun r hr _ _ => Or.inl hr
    · have hcalls : ((c.deleteTrace row.projectId row.traceId).bumpCounter row.projectId
          name n).calls.find? k = c.calls.find? k := by
        rw [calls_bumpCounter]
        rfl
      rw [head_congr hcalls]
      exact .refl _
  · have honly := onlyCalls_insertCall h₁
    have htrace : (c₁.callTraces.find? row.key).isSome = true := by
      rw [honly.callTraces, Table.find?_of_mem hrow]
      rfl
    have hbind : ∀ t, (c₁.bindTrace row.key (c.promotedCall S row created).callId).binding t =
        if t = row.key then some (c.promotedCall S row created).callId else c.binding t := by
      intro t
      rw [binding_bindTrace htrace, binding_congr honly.callTraces]
    have hspans : (c₁.bindTrace row.key (c.promotedCall S row created).callId).spans = c.spans :=
      honly.spans
    have hhead : (c₁.bindTrace row.key (c.promotedCall S row created).callId).head k =
        c₁.head k := rfl
    have hfind := find?_insertCall (k := k) h₁
    refine .of_rows ?_ ?_ ?_ ?_ ?_
    · intro s hs
      obtain ⟨hmem, hp, hb⟩ := mem_callSpans.mp hs
      refine mem_callSpans.mpr ⟨hspans ▸ hmem, hp, ?_⟩
      rw [hbind, if_neg (hother s hs)]
      exact hb
    · intro s hs hnew
      obtain ⟨hmem, hp, hb⟩ := mem_callSpans.mp hs
      rw [hspans] at hmem
      rw [hbind] at hb
      split at hb
      · rename_i heq
        refine ⟨hl.parked_unmarked s hmem (heq ▸ hbinding), fun _ => ?_⟩
        have hkey : (c.promotedCall S row created).key = k :=
          Prod.ext ((congrArg Prod.fst heq).symm.trans hp) (Option.some.inj hb)
        rw [← hkey, find?_eq_none_of_insertCall h₁, if_pos rfl, Option.none_or] at hfind
        rw [hhead, ← hkey, head_of_find? hfind]
        rfl
      · exact absurd (mem_callSpans.mpr ⟨hmem, hp, hb⟩) hnew
    · change ∀ r ∈ c.recordings, _ → _ → r ∈ c₁.recordings
      rw [honly.recordings]
      exact fun r hr _ _ => hr
    · change ∀ r ∈ c₁.recordings, _ → _ → r ∈ c.recordings ∨ _
      rw [honly.recordings]
      exact fun r hr _ _ => Or.inl hr
    · rw [hhead]
      cases hr : c.calls.find? k with
      | some r =>
          rw [hr, Option.some_or] at hfind
          rw [head_of_find? hr, head_of_find? hfind]
          exact .refl _
      | none =>
          rw [hr, Option.none_or] at hfind
          rw [head_of_none hr]
          split at hfind
          · rw [head_of_find? hfind]
            exact arrives_of_new rfl rfl rfl
          · rw [head_of_none hfind]
            exact .refl _

theorem brings_collectParkedTraces (hl : Linked c) {limit : ℕ}
    {clock : ProjectId × TraceId → UnixNano}
    (hrun : c.collectParkedTraces S now limit clock = some c') : Brings c c' k := by
  have hrefl : Brings c c k := .of_tables rfl rfl rfl (.refl _)
  have hboth : Linked c' ∧ Brings c c' k :=
    collectParkedTraces_induction (P := fun d => Linked d ∧ Brings c d k)
      (fun d d' row hd hrow hparked hone => ⟨hd.1.collectParkedTrace hrow hone,
        hd.2.trans (brings_collectParkedTrace hd.1 hrow hparked hone)⟩) hrun ⟨hl, hrefl⟩
  exact hboth.2

/-! ## Recordings -/

theorem brings_createRecording {manifest : RecordingManifest} {result : CreateResult}
    (hrun : c.createRecording S p manifest now = some (c', result)) : Brings c c' k := by
  rcases createRecording_cases hrun with rfl | rfl | ⟨-, -, c₁, h₁, rfl⟩
  · exact .of_tables rfl rfl rfl (.refl _)
  · have honly : OnlyCalls c (c.bumpCounter p .purgedCallEvidenceDropped 1) :=
      onlyCalls_bumpCounter _ _ _
    refine .of_tables honly.spans honly.callTraces honly.recordings ?_
    have hcalls : (c.bumpCounter p .purgedCallEvidenceDropped 1).calls.find? k =
        c.calls.find? k := by rw [calls_bumpCounter]
    rw [head_congr hcalls]
    exact .refl _
  · have honly := onlyCalls_insertCalls h₁
    have hcall : ∀ s, s ∈ c₁.callSpans k ↔ s ∈ c.callSpans k := by
      intro s
      rw [mem_callSpans, mem_callSpans, honly.spans, binding_congr honly.callTraces]
    refine .of_rows (fun s hs => (hcall s).mpr hs) (fun s hs hno => absurd ((hcall s).mp hs) hno)
      ?_ ?_ ?_
    · intro r hr _ _
      exact Table.mem_insert.mpr (Or.inl (honly.recordings ▸ hr))
    · intro r hr _ hst
      rcases Table.mem_insert.mp hr with hr | ⟨rfl, -⟩
      · exact Or.inl (honly.recordings ▸ hr)
      · cases hst
    · change (c.head k).Arrives (c₁.head k)
      cases hr : c.calls.find? k with
      | some r =>
          rw [head_of_find? hr, head_of_find? (find?_insertCalls_of_some h₁ hr)]
          exact .refl _
      | none =>
          rw [head_of_none hr]
          cases hr' : c₁.calls.find? k with
          | none =>
              rw [head_of_none hr']
              exact .refl _
          | some r' =>
              obtain ⟨target, -, -, key, -, rfl, -⟩ := find?_insertCalls_of_none h₁ hr hr'
              rw [head_of_find? hr']
              exact arrives_of_new rfl rfl rfl

/-- **A stored recording** was pending, and unmarked. -/
theorem brings_finishUpload (hl : Linked c) {recordingId : String} {upload : Upload}
    (hrun : c.finishUpload S p recordingId upload now = some c') : Brings c c' k := by
  obtain ⟨row, hrow, hpending, rfl⟩ := finishUpload_eq_some hrun
  have hmemRow := Table.mem_of_find? hrow
  generalize hd : ({ c with
    recordings := c.recordings.patch (storeRecording row.key upload now)
      (storeRecording_key row.key upload now) } : Catalog) = d
  have hdcalls : d.calls = c.calls := by rw [← hd]
  have honly : OnlyCalls d (d.addCallEvidence S row.callKey
      { spans := 0, recordings := 1, endMarker := false, tailSpans := 0 } now) :=
    onlyCalls_addCallEvidence
  have hpatch : ∀ r, r ∈ d.recordings ↔
      ∃ r₀ ∈ c.recordings, storeRecording row.key upload now r₀ = r := by
    intro r
    rw [← hd]
    change r ∈ c.recordings.patch _ (storeRecording_key row.key upload now) ↔ _
    exact Table.mem_patch
  have hcall : ∀ s, s ∈ (d.addCallEvidence S row.callKey
      { spans := 0, recordings := 1, endMarker := false, tailSpans := 0 } now).callSpans k ↔
      s ∈ c.callSpans k := by
    intro s
    rw [mem_callSpans, mem_callSpans, honly.spans, binding_congr honly.callTraces, ← hd]
    exact Iff.rfl
  refine .of_rows (fun s hs => (hcall s).mpr hs) (fun s hs hno => absurd ((hcall s).mp hs) hno)
    ?_ ?_ ?_
  · intro r hr _ hst
    rw [honly.recordings]
    refine (hpatch r).mpr ⟨r, hr, ?_⟩
    rw [storeRecording, if_neg]
    intro heq
    rw [Table.eq_of_key_eq hr hmemRow heq, hpending] at hst
    cases hst
  · intro r hr hk hst
    rw [honly.recordings] at hr
    obtain ⟨r₀, hr₀, rfl⟩ := (hpatch r).mp hr
    by_cases heq : r₀.key = row.key
    · obtain rfl := Table.eq_of_key_eq hr₀ hmemRow heq
      have hkey : r₀.callKey = k := by
        rw [← hk]
        unfold storeRecording
        rw [if_pos rfl]
        rfl
      refine Or.inr ⟨?_, ?_⟩
      · unfold storeRecording
        rw [if_pos rfl]
        exact hl.pending_unmarked r₀ hr₀ hpending
      · obtain ⟨call, hcall⟩ := Option.isSome_iff_exists.mp (hl.recording_call r₀ hr₀)
        rw [hkey] at hcall ⊢
        rw [head, find?_addCallEvidence_self, hdcalls, hcall]
        exact Call.dirty_credited (Or.inr one_ne_zero)
    · have hsame : storeRecording row.key upload now r₀ = r₀ := by
        rw [storeRecording, if_neg heq]
      rw [hsame]
      exact Or.inl hr₀
  · by_cases hk : k = row.callKey
    · rw [hk, head, head, find?_addCallEvidence_self, hdcalls]
      cases c.calls.find? row.callKey with
      | none => exact .refl _
      | some call => exact Call.head_credited
    · have hcalls : (d.addCallEvidence S row.callKey
          { spans := 0, recordings := 1, endMarker := false, tailSpans := 0 } now).calls.find? k =
          c.calls.find? k := by rw [find?_addCallEvidence_of_ne hk, hdcalls]
      rw [head_congr hcalls]
      exact .refl _

theorem brings_failStaleUploads {uploading fetching : List (ProjectId × String)} :
    Brings c (c.failStaleUploads S now uploading fetching) k := by
  have hpatch : ∀ r, r ∈ (c.failStaleUploads S now uploading fetching).recordings ↔
      ∃ r₀ ∈ c.recordings, c.failRecording S now uploading fetching r₀ = r := by
    intro r
    change r ∈ c.recordings.patch _ (failRecording_key _ _ _ _ _) ↔ _
    exact Table.mem_patch
  have hstored : ∀ r : RecordingRow, r.state = .stored →
      c.failRecording S now uploading fetching r = r := by
    intro r hst
    rw [failRecording, if_neg]
    rw [uploadExpired]
    split
    · exact Bool.false_ne_true
    · simp [hst]
  refine .of_rows (fun s hs => hs) (fun s hs hno => absurd hs hno) ?_ ?_ (.refl _)
  · intro r hr _ hst
    exact (hpatch r).mpr ⟨r, hr, hstored r hst⟩
  · intro r hr _ hst
    obtain ⟨r₀, hr₀, rfl⟩ := (hpatch r).mp hr
    refine Or.inl ?_
    by_cases hexp : c.uploadExpired S now uploading fetching r₀ = true
    · rw [failRecording, if_pos hexp] at hst
      cases hst
    · rw [failRecording, if_neg hexp]
      exact hr₀

end Catalog

end Earshot
