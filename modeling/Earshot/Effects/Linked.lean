import Earshot.Effects.Closer
/-!
# Foreign keys

`Linked` is what the foreign keys of the schema say, with the two facts
the operations add: a trace row always has spans, and evidence that is not
yet a call's carries no mark. Every operation keeps it (`linked_step`), so
every catalog of every run has it (`linked_worldAfter`).
-/

namespace Earshot

open Relational

/-- **The catalog's rows refer to rows that are there.** -/
structure Catalog.Linked (c : Catalog) : Prop where
  trace_call : ∀ k callId, c.binding k = some callId →
    (c.calls.find? (k.1, callId)).isSome = true
  span_trace : ∀ s ∈ c.spans, (c.callTraces.find? s.traceKey).isSome = true
  trace_span : ∀ k, (c.callTraces.find? k).isSome = true → ∃ s ∈ c.spans, s.traceKey = k
  recording_call : ∀ r ∈ c.recordings, (c.calls.find? r.callKey).isSome = true
  revision_call : ∀ v ∈ c.callRevisions, (c.calls.find? v.callKey).isSome = true
  /-- A parked trace's spans are in no revision. -/
  parked_unmarked : ∀ s ∈ c.spans, c.binding s.traceKey = none → s.firstRevision = none
  /-- Nor is a pending recording. -/
  pending_unmarked : ∀ r ∈ c.recordings, r.state = .pending → r.firstRevision = none

namespace Catalog

variable {S : CallStore} {c c' d : Catalog} {p : ProjectId} {now created : UnixNano}

/-- Nothing refers to anything at first. -/
theorem linked_empty : Linked empty where
  trace_call _ _ h := by cases h
  span_trace _ h := absurd h List.not_mem_nil
  trace_span _ h := by cases h
  recording_call _ h := absurd h List.not_mem_nil
  revision_call _ h := absurd h List.not_mem_nil
  parked_unmarked _ h := absurd h List.not_mem_nil
  pending_unmarked _ h := absurd h List.not_mem_nil

/-- A write that leaves spans, bindings, recordings and revisions, and deletes
no call, keeps the links. -/
theorem Linked.of_same (h : Linked c) (hspans : c'.spans = c.spans)
    (htraces : c'.callTraces = c.callTraces) (hrecordings : c'.recordings = c.recordings)
    (hrevisions : c'.callRevisions = c.callRevisions)
    (hkeep : ∀ k, (c.calls.find? k).isSome = true → (c'.calls.find? k).isSome = true) :
    Linked c' where
  trace_call k callId hb := by
    rw [binding_congr htraces] at hb
    exact hkeep _ (h.trace_call k callId hb)
  span_trace := by
    rw [hspans, htraces]
    exact h.span_trace
  trace_span := by
    rw [hspans, htraces]
    exact h.trace_span
  recording_call := by
    rw [hrecordings]
    exact fun r hr => hkeep _ (h.recording_call r hr)
  revision_call := by
    rw [hrevisions]
    exact fun v hv => hkeep _ (h.revision_call v hv)
  parked_unmarked s hms hb := by
    rw [hspans] at hms
    rw [binding_congr htraces] at hb
    exact h.parked_unmarked s hms hb
  pending_unmarked := by
    rw [hrecordings]
    exact h.pending_unmarked

/-- A write of the calls that deletes none keeps the links. -/
theorem Linked.of_onlyCalls (h : Linked c) (hs : OnlyCalls c c')
    (hkeep : ∀ k, (c.calls.find? k).isSome = true → (c'.calls.find? k).isSome = true) :
    Linked c' :=
  h.of_same hs.spans hs.callTraces hs.recordings hs.callRevisions hkeep

/-- A write of generations and tombstones keeps the links. -/
theorem Linked.of_onlyKeys (h : Linked c) (hs : OnlyKeys c c') : Linked c' :=
  h.of_same hs.spans hs.callTraces hs.recordings hs.callRevisions fun _ hk => hs.calls.symm ▸ hk

/-- A row that keeps its key keeps what refers to it. -/
theorem Linked.updateCall (h : Linked c) {k : CallKey} (f : Call → Call)
    (hf : ∀ r, (f r).key = r.key) : Linked (c.updateCall k f hf) := by
  refine h.of_onlyCalls (onlyCalls_updateCall f hf) fun k' hk' => ?_
  by_cases hk : k' = k
  · rw [hk] at hk' ⊢
    rw [find?_updateCall_self, Option.isSome_map]
    exact hk'
  · rw [find?_updateCall_of_ne f hf hk]
    exact hk'

/-- A new call breaks no reference. -/
theorem Linked.insertCall (h : Linked c) {row : Call} (hins : c.insertCall row = some c') :
    Linked c' := by
  refine h.of_onlyCalls (onlyCalls_insertCall hins) fun k hk => ?_
  obtain ⟨r, hr⟩ := Option.isSome_iff_exists.mp hk
  rw [find?_insertCall hins, hr]
  rfl

/-- A broken claim set aside leaves the references. -/
theorem Linked.aside (h : Linked c) (ha : Aside c d) : Linked d := by
  refine h.of_onlyCalls ha.onlyCalls fun k hk => ?_
  rcases ha.calls k with hd | hd
  · rw [hd]
    exact hk
  · rw [hd, Option.isSome_map]
    exact hk

theorem Linked.bumpCounter (h : Linked c) (name : OtlpCounterName) (n : ℕ) :
    Linked (c.bumpCounter p name n) := by
  refine h.of_onlyCalls (onlyCalls_bumpCounter _ _ _) fun k hk => ?_
  rw [calls_bumpCounter]
  exact hk

theorem Linked.noteEvidencePastCap (h : Linked c) {k : CallKey} :
    Linked (c.noteEvidencePastCap k) := by
  refine h.of_onlyCalls onlyCalls_noteEvidencePastCap fun k' hk' => ?_
  by_cases hk : k' = k
  · rw [hk] at hk' ⊢
    rw [find?_noteEvidencePastCap_self, Option.isSome_map]
    exact hk'
  · rw [find?_noteEvidencePastCap_of_ne hk]
    exact hk'

theorem Linked.addCallEvidence (h : Linked c) {k : CallKey} {item : Evidence} :
    Linked (c.addCallEvidence S k item now) := by
  refine h.of_onlyCalls onlyCalls_addCallEvidence fun k' hk' => ?_
  by_cases hk : k' = k
  · rw [hk] at hk' ⊢
    rw [find?_addCallEvidence_self, Option.isSome_map]
    exact hk'
  · rw [find?_addCallEvidence_of_ne hk]
    exact hk'

/-! ## Batches -/

/-- What a batch stores refers to calls that are stored. -/
theorem Linked.recorded (h : Linked c) {prepared : List Prepared} {preset : CapturePreset}
    (hrec : Recorded S c p prepared preset now c') : Linked c' := by
  refine ⟨?_, ?_, ?_, ?_, ?_, ?_, ?_⟩
  · intro k callId hb
    rw [hrec.binding] at hb
    split at hb
    · rename_i hk
      rw [hk.1]
      exact hrec.isSome_destination h.trace_call hk.2 hb
    · exact hrec.isSome_calls (h.trace_call k callId hb)
  · intro s hs
    rw [hrec.callTraces]
    rcases hrec.mem_spans.mp hs with ⟨hold, hkeep⟩ | hnew
    · split
      · rfl
      · rw [if_neg (by rw [hkeep]; exact Bool.false_ne_true)]
        exact h.span_trace s hold
    · obtain ⟨hp, ht, -⟩ := traceKey_of_mem_newRows hnew
      rw [if_pos ⟨hp, ht⟩]
      rfl
  · rintro ⟨p', t⟩ hk
    rw [hrec.callTraces] at hk
    split at hk
    · rename_i hkept
      obtain ⟨rfl, ht⟩ : p' = p ∧ t ∈ keptIds S c p prepared now := hkept
      cases hrow : c.callTraces.find? (p', t) with
      | some r =>
          obtain ⟨s, hs, hsk⟩ := h.trace_span (p', t) (by rw [hrow]; rfl)
          refine ⟨s, hrec.mem_spans.mpr (Or.inl ⟨hs, ?_⟩), hsk⟩
          rw [hsk]
          exact not_dropsKey_of_kept ht
      | none =>
          have hne : newSpans S c p' prepared now t ≠ [] :=
            newSpans_ne_nil (mem_keptIds.mp ht).1 hrow
          obtain ⟨x, hx⟩ := List.exists_mem_of_ne_nil _ hne
          refine ⟨spanRow p' now x, hrec.mem_spans.mpr (Or.inr (mem_newRows.mpr
            ⟨t, ht, x, hx, rfl⟩)), ?_⟩
          rw [Span.traceKey, spanRow, (newSpans_subset hx).2]
    · split at hk
      · cases hk
      · rename_i hkeep
        obtain ⟨s, hs, hsk⟩ := h.trace_span (p', t) hk
        refine ⟨s, hrec.mem_spans.mpr (Or.inl ⟨hs, ?_⟩), hsk⟩
        rw [hsk]
        exact Bool.eq_false_iff.mpr hkeep
  · rw [hrec.recordings]
    exact fun r hr => hrec.isSome_calls (h.recording_call r hr)
  · rw [hrec.callRevisions]
    exact fun v hv => hrec.isSome_calls (h.revision_call v hv)
  · intro s hs hb
    rcases hrec.mem_spans.mp hs with ⟨hold, -⟩ | hnew
    · refine h.parked_unmarked s hold ?_
      by_contra hne
      obtain ⟨callId, hid⟩ := Option.ne_none_iff_exists'.mp hne
      rw [hrec.binding_of_some hid] at hb
      cases hb
    · exact (traceKey_of_mem_newRows hnew).2.2.1
  · rw [hrec.recordings]
    exact h.pending_unmarked

/-! ## Parked traces -/

/-- A trace goes with its spans. -/
theorem Linked.deleteTrace (h : Linked c) {t : TraceId} : Linked (c.deleteTrace p t) := by
  have hmem : ∀ s, s ∈ (c.deleteTrace p t).spans ↔ s ∈ c.spans ∧ s.traceKey ≠ (p, t) := by
    intro s
    rw [spans_deleteTrace, Table.mem_delete, decide_eq_false_iff_not]
  have hbind : ∀ k callId, (c.deleteTrace p t).binding k = some callId →
      c.binding k = some callId := by
    intro k callId hb
    rw [binding, find?_callTraces_deleteTrace] at hb
    split at hb
    · cases hb
    · exact hb
  refine ⟨?_, ?_, ?_, ?_, ?_, ?_, ?_⟩
  · intro k callId hb
    rw [onlyTraces_deleteTrace.calls]
    exact h.trace_call k callId (hbind k callId hb)
  · intro s hs
    obtain ⟨hs, hne⟩ := (hmem s).mp hs
    rw [find?_callTraces_deleteTrace, if_neg hne]
    exact h.span_trace s hs
  · intro k hk
    rw [find?_callTraces_deleteTrace] at hk
    split at hk
    · cases hk
    · rename_i hne
      obtain ⟨s, hs, hsk⟩ := h.trace_span k hk
      exact ⟨s, (hmem s).mpr ⟨hs, hsk ▸ hne⟩, hsk⟩
  · rw [onlyTraces_deleteTrace.recordings, onlyTraces_deleteTrace.calls]
    exact h.recording_call
  · rw [onlyTraces_deleteTrace.callRevisions, onlyTraces_deleteTrace.calls]
    exact h.revision_call
  · intro s hs hb
    obtain ⟨hs, hne⟩ := (hmem s).mp hs
    refine h.parked_unmarked s hs ?_
    rwa [binding, find?_callTraces_deleteTrace, if_neg hne] at hb
  · rw [onlyTraces_deleteTrace.recordings]
    exact h.pending_unmarked

/-- A trace is bound to a call that is stored. -/
theorem Linked.bindTrace (h : Linked c) {k : ProjectId × TraceId} {callId : String}
    (hcall : (c.calls.find? (k.1, callId)).isSome = true)
    (htrace : (c.callTraces.find? k).isSome = true) : Linked (c.bindTrace k callId) := by
  have hrow : ∀ k', ((c.bindTrace k callId).callTraces.find? k').isSome =
      (c.callTraces.find? k').isSome := by
    intro k'
    rw [find?_bindTrace, Option.isSome_map]
  refine ⟨?_, ?_, ?_, h.recording_call, h.revision_call, ?_, h.pending_unmarked⟩
  · intro k' callId' hb
    rw [binding_bindTrace htrace] at hb
    split at hb
    · rename_i heq
      obtain rfl := Option.some.inj hb
      rw [heq]
      exact hcall
    · exact h.trace_call k' callId' hb
  · intro s hs
    rw [hrow]
    exact h.span_trace s hs
  · intro k' hk'
    rw [hrow] at hk'
    exact h.trace_span k' hk'
  · intro s hs hb
    rw [binding_bindTrace htrace] at hb
    split at hb
    · cases hb
    · exact h.parked_unmarked s hs hb

/-- A parked trace is dropped with its spans, or bound to a call. -/
theorem Linked.collectParkedTrace (h : Linked c) {row : CallTrace} (hrow : row ∈ c.callTraces)
    (hrun : c.collectParkedTrace S row now created = some c') : Linked c' := by
  rcases collectParkedTrace_cases hrun with ⟨name, n, -, rfl⟩ | ⟨-, -, c₁, h₁, rfl⟩
  · exact h.deleteTrace.bumpCounter name n
  · have hkey : (c.promotedCall S row created).key =
        (row.key.1, (c.promotedCall S row created).callId) := rfl
    refine (h.insertCall h₁).bindTrace ?_ ?_
    · rw [← hkey, find?_insertCall h₁, find?_eq_none_of_insertCall h₁, if_pos rfl]
      rfl
    · rw [(onlyCalls_insertCall h₁).callTraces, Table.find?_of_mem hrow]
      rfl

theorem Linked.collectParkedTraces (h : Linked c) {limit : ℕ}
    {clock : ProjectId × TraceId → UnixNano}
    (hrun : c.collectParkedTraces S now limit clock = some c') : Linked c' :=
  collectParkedTraces_induction (fun _ _ _ hd hrow _ hone => hd.collectParkedTrace hrow hone)
    hrun h

/-! ## Recordings -/

/-- A patch of the recordings that marks no pending one keeps the links. -/
theorem Linked.patchRecordings (h : Linked c) (f : RecordingRow → RecordingRow)
    (hf : ∀ r, (f r).key = r.key) (hcall : ∀ r, (f r).callKey = r.callKey)
    (hpending : ∀ r, (f r).state = .pending →
      r.state = .pending ∧ (f r).firstRevision = r.firstRevision) :
    Linked { c with recordings := c.recordings.patch f hf } := by
  have hmem : ∀ r, r ∈ c.recordings.patch f hf ↔ ∃ r₀ ∈ c.recordings, f r₀ = r :=
    fun r => Table.mem_patch
  refine ⟨h.trace_call, h.span_trace, h.trace_span, ?_, h.revision_call, h.parked_unmarked, ?_⟩
  · intro r hr
    obtain ⟨r₀, hr₀, rfl⟩ := (hmem r).mp hr
    rw [hcall]
    exact h.recording_call r₀ hr₀
  · intro r hr hst
    obtain ⟨r₀, hr₀, rfl⟩ := (hmem r).mp hr
    rw [(hpending r₀ hst).2]
    exact h.pending_unmarked r₀ hr₀ (hpending r₀ hst).1

/-- A recording is created in a call that is stored. -/
theorem Linked.createRecording (h : Linked c) {manifest : RecordingManifest}
    {result : CreateResult} (hrun : c.createRecording S p manifest now = some (c', result)) :
    Linked c' := by
  rcases createRecording_cases hrun with rfl | rfl | ⟨-, -, c₁, h₁, rfl⟩
  · exact h
  · exact h.bumpCounter _ _
  · have hcalls : ∀ k, (c.calls.find? k).isSome = true → (c₁.calls.find? k).isSome = true := by
      intro k hk
      obtain ⟨r, hr⟩ := Option.isSome_iff_exists.mp hk
      rw [find?_insertCalls_of_some h₁ hr]
      rfl
    have hlinked := h.of_onlyCalls (onlyCalls_insertCalls h₁) hcalls
    refine ⟨hlinked.trace_call, hlinked.span_trace, hlinked.trace_span, ?_,
      hlinked.revision_call, hlinked.parked_unmarked, ?_⟩
    · intro r hr
      rcases Table.mem_insert.mp hr with hr | ⟨rfl, -⟩
      · exact hlinked.recording_call r hr
      · -- the new recording's call is stored or was created with it
        cases hc : (c.recordingTarget S p manifest.sessionKey now).created with
        | true =>
            obtain ⟨r, hr⟩ := exists_find?_insertCalls h₁ (List.mem_singleton_self _) hc
            exact Option.isSome_iff_exists.mpr ⟨r, hr⟩
        | false =>
            refine hcalls _ ?_
            change (c.calls.find? (p, (c.recordingTarget S p manifest.sessionKey
              now).callId)).isSome = true
            change (c.calls.find? (p, (c.recordingTarget S p manifest.sessionKey
              now).callId)).isNone = false at hc
            rwa [Option.isNone_eq_false_iff] at hc
    · intro r hr hst
      rcases Table.mem_insert.mp hr with hr | ⟨rfl, -⟩
      · exact hlinked.pending_unmarked r hr hst
      · rfl

theorem Linked.finishUpload (h : Linked c) {recordingId : String} {upload : Upload}
    (hrun : c.finishUpload S p recordingId upload now = some c') : Linked c' := by
  obtain ⟨row, -, -, rfl⟩ := finishUpload_eq_some hrun
  refine (h.patchRecordings (storeRecording row.key upload now) (storeRecording_key _ _ _)
    (fun r => ?_) fun r hst => ?_).addCallEvidence
  · unfold storeRecording
    split <;> rfl
  · unfold storeRecording at hst ⊢
    split at hst
    · cases hst
    · rename_i hne
      rw [if_neg hne]
      exact ⟨hst, rfl⟩

theorem Linked.failStaleUploads (h : Linked c) {uploading fetching : List (ProjectId × String)} :
    Linked (c.failStaleUploads S now uploading fetching) := by
  refine h.patchRecordings _ (failRecording_key _ _ _ _ _) (fun r => ?_) fun r hst => ?_
  · unfold failRecording
    split <;> rfl
  · unfold failRecording at hst ⊢
    split at hst
    · cases hst
    · rename_i hne
      rw [if_neg hne]
      exact ⟨hst, rfl⟩

/-! ## Closers -/

theorem Linked.claimed (h : Linked c) {r : Call} : Linked (c.claimed r now) := by
  have hcalls : ∀ k, (c.calls.find? k).isSome = true →
      ((c.claimed r now).calls.find? k).isSome = true :=
    fun k hk => by
      change ((c.updateCall r.key (Call.lease r.nextRevision now)
        (Call.lease_key _ _)).calls.find? k).isSome = true
      by_cases hkr : k = r.key
      · rw [hkr] at hk ⊢
        rw [find?_updateCall_self, Option.isSome_map]
        exact hk
      · rw [find?_updateCall_of_ne _ _ hkr]
        exact hk
  refine ⟨fun k callId hb => hcalls _ (h.trace_call k callId hb), ?_, ?_, ?_,
    fun v hv => hcalls _ (h.revision_call v hv), ?_, ?_⟩
  · intro s hs
    obtain ⟨s₀, hs₀, rfl⟩ := mem_spans_claimed.mp hs
    rw [(markSpan_columns _ _ _).1]
    exact h.span_trace s₀ hs₀
  · intro k hk
    obtain ⟨s, hs, hsk⟩ := h.trace_span k hk
    exact ⟨_, mem_spans_claimed.mpr ⟨s, hs, rfl⟩, (markSpan_columns _ _ _).1.trans hsk⟩
  · intro x hx
    obtain ⟨x₀, hx₀, rfl⟩ := mem_recordings_claimed.mp hx
    have hkey : (markRecording r.key r.nextRevision x₀).callKey = x₀.callKey := by
      rw [RecordingRow.callKey, markRecording_columns]
      rfl
    rw [hkey]
    exact hcalls _ (h.recording_call x₀ hx₀)
  · intro s hs hb
    obtain ⟨s₀, hs₀, rfl⟩ := mem_spans_claimed.mp hs
    rw [(markSpan_columns _ _ _).1] at hb
    change c.binding s₀.traceKey = none at hb
    rw [markSpan, if_neg]
    · exact h.parked_unmarked s₀ hs₀ hb
    · rintro ⟨-, hbound⟩
      rw [(bound_iff.mp hbound).2] at hb
      cases hb
  · intro x hx hst
    obtain ⟨x₀, hx₀, rfl⟩ := mem_recordings_claimed.mp hx
    rw [markRecording_columns] at hst
    rw [markRecording, if_neg]
    · exact h.pending_unmarked x₀ hx₀ hst
    · rintro ⟨-, hstored, -⟩
      rw [hst] at hstored
      cases hstored

theorem Linked.claim (h : Linked c) {uploading : List CallKey} {claim? : Option CallClaim}
    (hrun : c.claim S now uploading = some (c', claim?)) : Linked c' := by
  obtain ⟨d, ha, ⟨-, rfl⟩ | ⟨r, preset, -, -, -, -, -, -, rfl⟩⟩ := claim_cases hrun
  · exact h.aside ha
  · exact (h.aside ha).claimed

theorem Linked.finish (h : Linked c) {claim : CallClaim} (hrun : c.finish claim now = some c') :
    Linked c' := by
  obtain ⟨r, hr, -, -, ⟨-, rfl⟩ | ⟨-, -, rfl⟩⟩ := finish_cases hrun
  · exact h.updateCall _ _
  · have hclosed := h.updateCall (k := claim.key) (Call.close (some claim.revision))
      (Call.close_key _)
    have hinserted : Linked { c.updateCall claim.key (Call.close (some claim.revision))
        (Call.close_key _) with
        callRevisions := c.callRevisions.insert (revisionRow claim now) } := by
      refine ⟨hclosed.trace_call, hclosed.span_trace, hclosed.trace_span,
        hclosed.recording_call, ?_, hclosed.parked_unmarked, hclosed.pending_unmarked⟩
      intro v hv
      rcases Table.mem_insert.mp hv with hv | ⟨rfl, -⟩
      · exact hclosed.revision_call v hv
      · change ((c.updateCall claim.key (Call.close (some claim.revision))
          (Call.close_key _)).calls.find? claim.key).isSome = true
        rw [find?_updateCall_self, hr]
        rfl
    exact hinserted.noteEvidencePastCap.updateCall _ _

theorem Linked.fail (h : Linked c) {claim : CallClaim} {code : String}
    (hrun : c.fail S claim code now = some c') : Linked c' := by
  obtain ⟨r, -, -, -, attempts, due, rfl⟩ := fail_eq_some hrun
  exact h.updateCall _ _

theorem Linked.releaseLeases (h : Linked c) : Linked c.releaseLeases := by
  refine h.of_onlyCalls ⟨rfl, rfl, rfl, rfl, rfl, rfl, rfl, rfl⟩ fun k hk => ?_
  rw [Catalog.releaseLeases, Table.find?_patch, Option.isSome_map]
  exact hk

/-! ## Purges -/

/-- A call goes with all that refers to it. -/
theorem Linked.deleteCall (h : Linked c) {k : CallKey} : Linked (c.deleteCall k) := by
  have hbind : ∀ t callId, (c.deleteCall k).binding t = some callId →
      c.binding t = some callId ∧ (t.1, callId) ≠ k := by
    intro t callId hb
    rw [binding, find?_callTraces_deleteCall] at hb
    split at hb
    · cases hb
    · rename_i hno
      refine ⟨hb, fun heq => hno (bound_iff.mpr ?_)⟩
      rw [← heq]
      exact ⟨rfl, hb⟩
  refine ⟨?_, ?_, ?_, ?_, ?_, ?_, ?_⟩
  · intro t callId hb
    obtain ⟨hb, hne⟩ := hbind t callId hb
    rw [find?_calls_deleteCall, if_neg hne]
    exact h.trace_call t callId hb
  · intro s hs
    obtain ⟨hs, hno⟩ := mem_spans_deleteCall.mp hs
    rw [find?_callTraces_deleteCall, if_neg (by rw [hno]; exact Bool.false_ne_true)]
    exact h.span_trace s hs
  · intro t ht
    rw [find?_callTraces_deleteCall] at ht
    split at ht
    · cases ht
    · rename_i hno
      obtain ⟨s, hs, hst⟩ := h.trace_span t ht
      exact ⟨s, mem_spans_deleteCall.mpr ⟨hs, hst ▸ Bool.eq_false_iff.mpr hno⟩, hst⟩
  · intro r hr
    obtain ⟨hr, hne⟩ := mem_recordings_deleteCall.mp hr
    rw [find?_calls_deleteCall, if_neg hne]
    exact h.recording_call r hr
  · intro v hv
    obtain ⟨hv, hne⟩ := mem_callRevisions_deleteCall.mp hv
    rw [find?_calls_deleteCall, if_neg hne]
    exact h.revision_call v hv
  · intro s hs hb
    obtain ⟨hs, hno⟩ := mem_spans_deleteCall.mp hs
    refine h.parked_unmarked s hs ?_
    rwa [binding, find?_callTraces_deleteCall,
      if_neg (by rw [hno]; exact Bool.false_ne_true)] at hb
  · intro r hr
    exact h.pending_unmarked r (mem_recordings_deleteCall.mp hr).1

/-- A purge leaves nothing that refers to the call. -/
theorem Linked.purgeCall (h : Linked c) {k : CallKey} (hrun : c.purgeCall S k now = some c') :
    Linked c' := by
  obtain ⟨r, -, -, hkeys⟩ := purgeCall_eq_some hrun
  exact h.deleteCall.of_onlyKeys hkeys

end Catalog

/-! ## Every run -/

/-- What an operation commits, as a relation of catalogs. -/
inductive CatalogStep (S : CallStore) (c : Catalog) : Op → Catalog → Prop where
  | provisionProject (p preset) :
      CatalogStep S c (.provisionProject p preset) (c.provisionProject p preset)
  | setCapturePreset (p preset) :
      CatalogStep S c (.setCapturePreset p preset)
        (c.updateProject p ({ · with capturePreset := preset }) fun _ => rfl)
  | beginProjectDeletion (p) :
      CatalogStep S c (.beginProjectDeletion p)
        (c.updateProject p ({ · with active := false }) fun _ => rfl)
  | recordSpans {p prepared rejected now preset c₁ counts}
      (h : record S c p prepared preset now = some (c₁, counts)) :
      CatalogStep S c (.recordSpans p prepared rejected now)
        ((((c₁.bumpCounter p .rejectedSpans rejected).bumpCounter p .spanConflicts
          counts.conflicts).bumpCounter p .keyDisagreements counts.disagreements).bumpCounter p
            .purgedCallEvidenceDropped counts.dropped)
  | createRecording {p manifest now c' result}
      (h : c.createRecording S p manifest now = some (c', result)) :
      CatalogStep S c (.createRecording p manifest now) c'
  | finishUpload {p recordingId upload now c'}
      (h : c.finishUpload S p recordingId upload now = some c') :
      CatalogStep S c (.finishUpload p recordingId upload now) c'
  | failStaleUploads (uploading fetching now) :
      CatalogStep S c (.failStaleUploads uploading fetching now)
        (c.failStaleUploads S now uploading fetching)
  | collectParkedTraces {limit clock now c'}
      (h : c.collectParkedTraces S now limit clock = some c') :
      CatalogStep S c (.collectParkedTraces limit clock now) c'
  | claim {uploading now c' claim?} (h : c.claim S now uploading = some (c', claim?)) :
      CatalogStep S c (.claim uploading now) c'
  | finish {claim now c'} (h : c.finish claim now = some c') :
      CatalogStep S c (.finish claim now) c'
  | fail {claim code now c'} (h : c.fail S claim code now = some c') :
      CatalogStep S c (.fail claim code now) c'
  | releaseLeases : CatalogStep S c .releaseLeases c.releaseLeases
  | purgeCall {k now c'} (h : c.purgeCall S k now = some c') :
      CatalogStep S c (.purgeCall k now) c'
  | collectExpiredTombstones (limit now) :
      CatalogStep S c (.collectExpiredTombstones limit now)
        (c.collectExpiredTombstones now limit)

/-- A committed operation changes the catalog as its function does. -/
theorem catalogStep_of_step {S : CallStore} {w w' : World} {op : Op}
    (h : step S w op = some w') : CatalogStep S w.catalog op w'.catalog := by
  cases op with
  | provisionProject p preset =>
      obtain rfl := Option.some.inj h
      exact .provisionProject p preset
  | setCapturePreset p preset =>
      obtain ⟨c', hrun, rfl⟩ := Option.map_eq_some_iff.mp h
      obtain ⟨_, -, rfl⟩ := Option.map_eq_some_iff.mp hrun
      exact .setCapturePreset p preset
  | beginProjectDeletion p =>
      obtain ⟨c', hrun, rfl⟩ := Option.map_eq_some_iff.mp h
      rw [Catalog.beginProjectDeletion] at hrun
      split at hrun
      · cases hrun
      · obtain ⟨_, -, rfl⟩ := Option.map_eq_some_iff.mp hrun
        exact .beginProjectDeletion p
  | recordSpans p prepared rejected now =>
      obtain ⟨⟨c', result⟩, hrun, rfl⟩ := Option.map_eq_some_iff.mp h
      simp only [recordSpans, Option.bind_eq_bind, Option.bind_eq_some_iff, Option.pure_def,
        Option.some.injEq, Prod.mk.injEq] at hrun
      obtain ⟨preset, -, ⟨c₁, counts⟩, hrec, rfl, -⟩ := hrun
      exact .recordSpans hrec
  | createRecording p manifest now =>
      obtain ⟨⟨c', result⟩, hrun, rfl⟩ := Option.map_eq_some_iff.mp h
      exact .createRecording hrun
  | finishUpload p recordingId upload now =>
      obtain ⟨c', hrun, rfl⟩ := Option.map_eq_some_iff.mp h
      exact .finishUpload hrun
  | failStaleUploads uploading fetching now =>
      obtain rfl := Option.some.inj h
      exact .failStaleUploads uploading fetching now
  | collectParkedTraces limit clock now =>
      obtain ⟨c', hrun, rfl⟩ := Option.map_eq_some_iff.mp h
      exact .collectParkedTraces hrun
  | claim uploading now =>
      obtain ⟨⟨c', claim?⟩, hrun, rfl⟩ := Option.map_eq_some_iff.mp h
      exact .claim hrun
  | finish claim now =>
      rw [step] at h
      split at h
      · obtain ⟨c', hrun, rfl⟩ := Option.map_eq_some_iff.mp h
        exact .finish hrun
      · cases h
  | fail claim code now =>
      rw [step] at h
      split at h
      · obtain ⟨c', hrun, rfl⟩ := Option.map_eq_some_iff.mp h
        exact .fail hrun
      · cases h
  | releaseLeases =>
      obtain rfl := Option.some.inj h
      exact .releaseLeases
  | purgeCall k now =>
      obtain ⟨c', hrun, rfl⟩ := Option.map_eq_some_iff.mp h
      exact .purgeCall hrun
  | collectExpiredTombstones limit now =>
      obtain rfl := Option.some.inj h
      exact .collectExpiredTombstones limit now

/-- A committed batch is a recorded one, and counters. -/
theorem recorded_of_catalogStep {S : CallStore} {c c' : Catalog} {p : ProjectId}
    {prepared : List Prepared} {rejected : ℕ} {now : UnixNano}
    (h : CatalogStep S c (.recordSpans p prepared rejected now) c') :
    ∃ preset d, Recorded S c p prepared preset now d ∧ Catalog.OnlyCalls d c' ∧
      c'.calls = d.calls := by
  cases h with
  | recordSpans hrec =>
      refine ⟨_, _, recorded_of_record hrec, ?_, by simp only [Catalog.calls_bumpCounter]⟩
      exact (((Catalog.onlyCalls_bumpCounter _ _ _).trans (Catalog.onlyCalls_bumpCounter _ _ _)).trans
        (Catalog.onlyCalls_bumpCounter _ _ _)).trans (Catalog.onlyCalls_bumpCounter _ _ _)

/-- Operations that write or delete the row of a trace: batches, collections of
parked traces and purges. -/
def Op.movesTraces : Op → Bool
  | .recordSpans _ _ _ _ | .collectParkedTraces _ _ _ | .purgeCall _ _ => true
  | _ => false

/-- The others leave the traces as they were. -/
theorem callTraces_of_aside {S : CallStore} {c c' : Catalog} {op : Op} (h : CatalogStep S c op c')
    (haside : op.movesTraces = false) : c'.callTraces = c.callTraces := by
  cases h with
  | provisionProject | setCapturePreset | beginProjectDeletion | releaseLeases
  | failStaleUploads | collectExpiredTombstones => rfl
  | recordSpans | collectParkedTraces | purgeCall => cases haside
  | createRecording hrun =>
      rcases Catalog.createRecording_cases hrun with rfl | rfl | ⟨-, -, c₁, h₁, rfl⟩
      · rfl
      · exact (Catalog.onlyCalls_bumpCounter _ _ _).callTraces
      · exact (Catalog.onlyCalls_insertCalls h₁).callTraces
  | finishUpload hrun =>
      obtain ⟨row, -, -, rfl⟩ := Catalog.finishUpload_eq_some hrun
      exact Catalog.onlyCalls_addCallEvidence.callTraces
  | claim hrun =>
      obtain ⟨d, ha, ⟨-, rfl⟩ | ⟨r, preset, -, -, -, -, -, -, rfl⟩⟩ := Catalog.claim_cases hrun
      · exact ha.onlyCalls.callTraces
      · exact ha.onlyCalls.callTraces
  | finish hrun =>
      obtain ⟨r, -, -, -, ⟨-, rfl⟩ | ⟨-, -, rfl⟩⟩ := Catalog.finish_cases hrun
      · rfl
      · exact Catalog.onlyCalls_finished.callTraces
  | fail hrun =>
      obtain ⟨r, -, -, -, attempts, due, rfl⟩ := Catalog.fail_eq_some hrun
      rfl

/-- **Every operation keeps the links.** -/
theorem linked_step {S : CallStore} {c c' : Catalog} {op : Op} (h : c.Linked)
    (hstep : CatalogStep S c op c') : c'.Linked := by
  have hprojects : ∀ t : Table Project.projectId, ({ c with projects := t } : Catalog).Linked :=
    fun t => ⟨h.trace_call, h.span_trace, h.trace_span, h.recording_call, h.revision_call,
      h.parked_unmarked, h.pending_unmarked⟩
  cases hstep with
  | provisionProject | setCapturePreset | beginProjectDeletion => exact hprojects _
  | recordSpans hrec =>
      exact ((((h.recorded (recorded_of_record hrec)).bumpCounter _ _).bumpCounter _
        _).bumpCounter _ _).bumpCounter _ _
  | createRecording hrun => exact h.createRecording hrun
  | finishUpload hrun => exact h.finishUpload hrun
  | failStaleUploads uploading fetching now => exact h.failStaleUploads
  | collectParkedTraces hrun => exact h.collectParkedTraces hrun
  | claim hrun => exact h.claim hrun
  | finish hrun => exact h.finish hrun
  | fail hrun => exact h.fail hrun
  | releaseLeases => exact h.releaseLeases
  | purgeCall hrun => exact h.purgeCall hrun
  | collectExpiredTombstones limit now =>
      exact h.of_onlyKeys Catalog.onlyKeys_collectExpiredTombstones

/-- **Every catalog of every run is linked.** -/
theorem linked_worldAfter (S : CallStore) (ops : List Op) :
    (worldAfter S ops).catalog.Linked := by
  refine Transition.run_invariant (P := fun w => w.catalog.Linked)
    (fun w op w' hw hstep => linked_step hw (catalogStep_of_step hstep)) ops _ ?_
  exact Catalog.linked_empty

end Earshot
