import Earshot.Effects.Rows
/-!
# Whether an open call is ever revised

The closer picks a call that is dirty and due, or has a revision pending.
Every write leaves an open call so, but one: a batch that creates a call
and brings it tail spans only, none of which ends it, counts the spans and
schedules nothing (`scheduled_iff`).
-/

namespace Earshot

open Relational

variable {S : CallStore} {c c' : Catalog} {p : ProjectId} {prepared : List Prepared}
variable {now : UnixNano} {callId : String} {r : Call}

/-- The closer's candidate reads can pick the call, at the latest when its
due time and its holds have passed. -/
def Call.Scheduled (r : Call) : Prop :=
  r.state = .open →
    (r.dirty = true ∧ r.closeDueUnixNano.isSome = true) ∨ r.pendingRevision.isSome = true

instance (r : Call) : Decidable r.Scheduled :=
  inferInstanceAs (Decidable (_ → _))

/-- The batch creates the call, and brings it tail spans of new traces only,
none an end marker. -/
def Catalog.Strands (S : CallStore) (c : Catalog) (p : ProjectId) (prepared : List Prepared)
    (now : UnixNano) (callId : String) : Prop :=
  c.calls.find? (p, callId) = none ∧
  (∃ s ∈ prepared, destination S c p prepared now s.traceId = some callId) ∧
  ∀ s ∈ prepared, destination S c p prepared now s.traceId = some callId →
    c.callTraces.find? (p, s.traceId) = none ∧
    (prepared.find? (fun x => x.traceId = s.traceId && x.spanId = s.spanId) = some s →
      s.tail = true ∧ s.endMarker = false)

def Op.Strands (S : CallStore) (c : Catalog) : Op → Prop
  | .recordSpans p prepared _ now => ∃ callId, c.Strands S p prepared now callId
  | _ => False

/-! ## Rows -/

namespace Call

variable {item : Evidence} {final : Bool}

theorem scheduled_noted : (r.noted final).Scheduled ↔ r.Scheduled := by
  unfold noted
  split <;> exact Iff.rfl

/-- Evidence that is more than counted schedules its call. -/
theorem scheduled_addEvidence (h : r.Scheduled ∨ r.countedOnly item = false) :
    (r.addEvidence S item now).Scheduled := by
  unfold addEvidence
  split
  · rename_i hcounted
    rcases h with h | h
    · exact h
    · rw [h] at hcounted
      cases hcounted
  · exact fun _ => Or.inl ⟨rfl, rfl⟩

theorem scheduled_credited (h : r.Scheduled ∨ r.countedOnly item = false) :
    (r.credited S item now final).Scheduled := by
  unfold credited
  split
  · exact scheduled_noted.mpr (scheduled_addEvidence h)
  · exact scheduled_addEvidence h

end Call

/-- **Every write leaves its call scheduled.** -/
theorem RowStep.scheduled {x y : Bool × Call} (hx : x.2.Scheduled) (h : RowStep S x y) :
    y.2.Scheduled := by
  cases h with
  | setAside | release => exact hx
  | credit => exact Call.scheduled_credited (Or.inl hx)
  | lease => exact fun _ => Or.inr rfl
  | discard => exact fun hopen => by cases hopen
  | finish final final' r revision =>
      have hclosed : (r.close (some revision)).Scheduled := fun hopen => by cases hopen
      exact Call.scheduled_noted.mpr hclosed
  | fail => exact fun _ => Or.inl ⟨rfl, rfl⟩

/-! ## New calls -/

/-- A call that is credited with tail spans only, none an end marker, is
one the batch strands. -/
theorem strands_of_countedOnly (hl : c.Linked) {target : CallTarget} {key : SessionKey}
    {preset : CapturePreset} {t : TraceId}
    (hnone : c.calls.find? (p, target.callId) = none)
    (ht : t ∈ callTraceIds S c p prepared now target.callId)
    (h : (Catalog.newCall p target key preset none).countedOnly
      (creditOf S c p prepared now target.callId) = true) :
    c.Strands S p prepared now target.callId := by
  rw [Call.countedOnly, Call.givesEndSignal] at h
  simp only [Bool.and_eq_true, decide_eq_true_eq, Bool.not_eq_true'] at h
  obtain ⟨⟨hcount, -⟩, hend⟩ := h
  have hnoend : (creditOf S c p prepared now target.callId).endMarker = false := hend
  have honly : ∀ t' ∈ callTraceIds S c p prepared now target.callId,
      joiningSpans c p t' = [] ∧ ∀ x ∈ newSpans S c p prepared now t', x.tail = true := by
    intro t' ht'
    by_contra hne
    have hlt := Catalog.tailSpans_lt_spans ht' (by
      by_cases hjoin : joiningSpans c p t' = []
      · refine Or.inr ?_
        by_contra hall
        exact hne ⟨hjoin, fun x hx => by
          by_contra htail
          exact hall ⟨x, hx, Bool.eq_false_iff.mpr htail⟩⟩
      · exact Or.inl hjoin)
    omega
  have htrace : ∀ s ∈ prepared, destination S c p prepared now s.traceId = some target.callId →
      s.traceId ∈ callTraceIds S c p prepared now target.callId := by
    intro s hs hdest
    refine List.mem_filter.mpr ⟨mem_keptIds.mpr ⟨mem_traceIds.mpr ⟨s, hs, rfl⟩, ?_⟩,
      decide_eq_true hdest⟩
    intro hpurged
    rw [destination_of_purged hpurged] at hdest
    cases hdest
  obtain ⟨hkept, hdest⟩ := List.mem_filter.mp ht
  obtain ⟨s, hs, hst⟩ := mem_traceIds.mp (mem_keptIds.mp hkept).1
  refine ⟨hnone, ⟨s, hs, by rw [hst]; exact of_decide_eq_true hdest⟩, fun s hs hdest => ?_⟩
  have hmem := htrace s hs hdest
  have hrow : c.callTraces.find? (p, s.traceId) = none := by
    by_contra hne
    obtain ⟨row, hrow⟩ := Option.ne_none_iff_exists'.mp hne
    cases hb : c.binding (p, s.traceId) with
    | some id =>
        -- a bound trace's call is stored
        have hsame : destination S c p prepared now s.traceId = some id := destination_of_bound hb
        obtain rfl := Option.some.inj (hdest.symm.trans hsame)
        have hcall := hl.trace_call _ _ hb
        rw [hnone] at hcall
        cases hcall
    | none =>
        obtain ⟨x, hx, hxk⟩ := hl.trace_span (p, s.traceId) (by rw [hrow]; rfl)
        have hjoin := (honly _ hmem).1
        rw [joiningSpans, hrow, hb] at hjoin
        exact List.ne_nil_of_mem (Catalog.mem_spansOf.mpr ⟨hx, hxk⟩) hjoin
  refine ⟨hrow, fun hfirst => ?_⟩
  have hnew : s ∈ newSpans S c p prepared now s.traceId :=
    mem_newSpans.mpr ⟨hfirst, fun hsome => by rw [hrow] at hsome; cases hsome⟩
  refine ⟨(honly _ hmem).2 s hnew, ?_⟩
  by_contra hmark
  refine absurd hnoend (Bool.not_eq_false _ ▸ ?_)
  refine List.any_eq_true.mpr ⟨s.traceId, hmem, ?_⟩
  rw [Bool.or_eq_true]
  exact Or.inr (List.any_eq_true.mpr ⟨s, hnew, Bool.eq_true_of_not_eq_false hmark⟩)

/-- A created call is scheduled, unless the batch strands it. -/
theorem Created.scheduled (hl : c.Linked) {op : Op} {k : CallKey} (hnone : c.calls.find? k = none)
    (h : Created S c op k r) (hop : ¬ op.Strands S c) : r.Scheduled := by
  cases h with
  | spans ht hcredit =>
      refine Call.scheduled_credited (Or.inr ?_)
      by_contra hcounted
      exact hop ⟨_, strands_of_countedOnly hl hnone ht (Bool.eq_true_of_not_eq_false hcounted)⟩
  | recording | promoted => exact fun _ => Or.inl ⟨rfl, rfl⟩

/-- **A stranded call is left open**, neither dirty nor pending. -/
theorem exists_not_scheduled {preset : CapturePreset} (hl : c.Linked)
    (h : Recorded S c p prepared preset now c') (hstrands : c.Strands S p prepared now callId) :
    ∃ r ∈ c'.calls, ¬ r.Scheduled := by
  obtain ⟨hnone, ⟨s, hs, hdest⟩, honly⟩ := hstrands
  have hkept : s.traceId ∈ keptIds S c p prepared now := by
    refine mem_keptIds.mpr ⟨mem_traceIds.mpr ⟨s, hs, rfl⟩, fun hpurged => ?_⟩
    rw [destination_of_purged hpurged] at hdest
    cases hdest
  obtain ⟨r, hr⟩ := Option.isSome_iff_exists.mp
    (h.isSome_destination hl.trace_call hkept hdest)
  refine ⟨r, Table.mem_of_find? hr, ?_⟩
  obtain ⟨target, -, -, rfl, ⟨key, -, rfl⟩, -⟩ := h.calls_new callId r hnone hr
  have htails : ∀ t ∈ callTraceIds S c p prepared now target.callId,
      joiningSpans c p t = [] ∧
        ∀ x ∈ newSpans S c p prepared now t, x.tail = true ∧ x.endMarker = false := by
    intro t ht
    obtain ⟨htkept, htdest⟩ := List.mem_filter.mp ht
    obtain ⟨s', hs', hst'⟩ := mem_traceIds.mp (mem_keptIds.mp htkept).1
    have hrow : c.callTraces.find? (p, t) = none := by
      rw [← hst']
      exact (honly s' hs' (by rw [hst']; exact of_decide_eq_true htdest)).1
    refine ⟨by rw [joiningSpans, hrow]; rfl, fun x hx => ?_⟩
    obtain ⟨hmem, hxt⟩ := newSpans_subset hx
    refine (honly x hmem (by rw [hxt]; exact of_decide_eq_true htdest)).2 ?_
    rw [hxt]
    exact (mem_newSpans.mp hx).1
  have hcounted : (Catalog.newCall p target key preset none).countedOnly
      (creditOf S c p prepared now target.callId) = true := by
    rw [Call.countedOnly, Call.givesEndSignal]
    simp only [Bool.and_eq_true, decide_eq_true_eq, Bool.not_eq_true']
    refine ⟨⟨?_, rfl⟩, ?_⟩
    · refine congrArg List.sum (List.map_congr_left fun t ht => ?_)
      obtain ⟨hjoin, hall⟩ := htails t ht
      rw [hjoin, List.length_nil, Nat.zero_add, eq_comm, List.countP_eq_length]
      exact fun x hx => (hall x hx).1
    · refine Bool.eq_false_iff.mpr fun hmark => ?_
      rw [Bool.and_eq_true] at hmark
      obtain ⟨t, ht, hany⟩ := List.any_eq_true.mp hmark.2
      obtain ⟨hjoin, hall⟩ := htails t ht
      rw [hjoin, List.any_nil, Bool.false_or] at hany
      obtain ⟨x, hx, hxm⟩ := List.any_eq_true.mp hany
      rw [(hall x hx).2] at hxm
      cases hxm
  obtain ⟨n, hrow⟩ : ∃ n, creditedRow S c p prepared now (Catalog.newCall p target key preset none) =
      { Catalog.newCall p target key preset none with spanCount := n } := by
    rw [creditedRow]
    split
    · exact ⟨0, rfl⟩
    · rw [Call.credited, if_neg, Call.addEvidence]
      · exact ⟨_, if_pos hcounted⟩
      · rw [show (Catalog.newCall p target key preset none).callId = target.callId from rfl, hcounted]
        simp
  rw [hrow]
  intro hscheduled
  rcases hscheduled rfl with ⟨hdirty, -⟩ | hpending
  · cases hdirty
  · cases hpending

/-! ## Runs -/

/-- The condition each operation of a run meets: it does not commit, or
strands no call. -/
def World.Schedules (S : CallStore) (w : World) (op : Op) : Prop :=
  (step S w op).isSome = true → ¬ op.Strands S w.catalog

theorem scheduled_of_step {w w' : World} {op : Op} (hl : w.catalog.Linked)
    (hw : ∀ r ∈ w.catalog.calls, r.Scheduled) (hop : ¬ op.Strands S w.catalog)
    (h : step S w op = some w') : ∀ r ∈ w'.catalog.calls, r.Scheduled := by
  intro r hr
  rcases row_of_catalogStep hl (catalogStep_of_step h) (Table.find?_of_mem hr) with
    hmoved | ⟨hnone, hcreated⟩
  · exact hmoved.preserves (P := fun _ r => r.Scheduled) (fun _ _ => RowStep.scheduled)
      fun r₀ hr₀ => hw r₀ (Table.mem_of_find? hr₀)
  · exact hcreated.scheduled hl hnone hop

theorem exists_not_scheduled_of_step {w w' : World} {op : Op} (hl : w.catalog.Linked)
    (hop : op.Strands S w.catalog) (h : step S w op = some w') :
    ∃ r ∈ w'.catalog.calls, ¬ r.Scheduled := by
  cases op with
  | recordSpans p prepared rejected now =>
      obtain ⟨callId, hstrands⟩ := hop
      obtain ⟨preset, d, hrec, -, hcalls⟩ := recorded_of_catalogStep (catalogStep_of_step h)
      rw [hcalls]
      exact exists_not_scheduled hl hrec hstrands
  | _ => exact hop.elim

/-- **No call is stranded open exactly when no batch strands one**: every
call of every state a run goes through is scheduled if and only if no
batch of the run that commits creates a call it brings tail spans only. -/
theorem scheduled_iff (S : CallStore) (ops : List Op) :
    (∀ pre, pre <+: ops → ∀ r ∈ (worldAfter S pre).catalog.calls, r.Scheduled) ↔
      ∀ pre op post, ops = pre ++ op :: post → (worldAfter S pre).Schedules S op := by
  refine Transition.forall_prefix_iff (I := fun w => w.catalog.Linked)
    (P := fun w => ∀ r ∈ w.catalog.calls, r.Scheduled)
    (G := fun w op => ¬ op.Strands S w.catalog)
    (fun w op w' hl h => linked_step hl (catalogStep_of_step h))
    (fun w op w' hl hw hop h => scheduled_of_step hl hw hop h) (fun w op w' hl _ hop h hall => ?_)
    (s := .init) Catalog.linked_empty (fun r hr => absurd hr List.not_mem_nil) ops
  obtain ⟨r, hr, hno⟩ := exists_not_scheduled_of_step hl (not_not.mp hop) h
  exact hno (hall r hr)

/-- A batch whose one span is a tail span that names a session strands the
session's call. -/
theorem not_scheduled_jobEntrypoint :
    ¬ ∀ r ∈ (worldAfter plainStore
        (demoRun [demoSpan 1 1 LIVEKIT_SCOPE "job_entrypoint" (some "k")])).catalog.calls,
      r.Scheduled := by
  decide

end Earshot
