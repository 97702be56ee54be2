import Mathlib.Algebra.Order.BigOperators.Group.List
import Mathlib.Algebra.Order.Ring.Nat
import Mathlib.Logic.Relation
import Earshot.Effects.Linked
/-!
# How a call's row moves

Every operation leaves the row of a call it does not purge, or makes one
of a few writes to it (`RowStep`), or creates it (`Created`). A row is read
beside whether its call has a final revision, which the cap rule asks for
and only a finish changes (`row_of_catalogStep`).
-/

namespace Earshot

open Relational

/-- One write of a call's row; the flag is whether the call has
a final revision. -/
inductive RowStep (S : CallStore) : Bool × Call → Bool × Call → Prop
  | setAside (final : Bool) (r : Call) : RowStep S (final, r) (final, r.setAside)
  | release (final : Bool) (r : Call) : RowStep S (final, r) (final, r.release)
  | credit (final : Bool) (r : Call) (item : Evidence) (now : UnixNano) :
      RowStep S (final, r) (final, r.credited S item now final)
  | lease (final : Bool) (r : Call) (now : UnixNano) (h : r.uncapped final = true) :
      RowStep S (final, r) (final, r.lease r.nextRevision now)
  | discard (final : Bool) (r : Call) (h : r.pendingRevision.isSome = true) :
      RowStep S (final, r) (final, r.close none)
  | finish (final final' : Bool) (r : Call) (revision : ℕ)
      (h : r.pendingRevision = some revision) :
      RowStep S (final, r) (final', ((r.close (some revision)).noted final').project)
  | fail (final : Bool) (r : Call) (attempts : ℕ) (due : UnixNano) (code : String)
      (h : r.pendingRevision.isSome = true) :
      RowStep S (final, r) (final, r.fail attempts due code)

/-- An operation creates the row of a call that had none. -/
inductive Created (S : CallStore) (c : Catalog) : Op → CallKey → Call → Prop
  /-- A batch whose spans name the call's key, and are credited to it. -/
  | spans {p : ProjectId} {prepared : List Prepared} {rejected : ℕ} {now : UnixNano}
      {target : CallTarget} {key : SessionKey} {preset : CapturePreset} {t : TraceId}
      (ht : t ∈ callTraceIds S c p prepared now target.callId)
      (hcredit : (creditOf S c p prepared now target.callId).spans ≠ 0) :
      Created S c (.recordSpans p prepared rejected now) (p, target.callId)
        ((Catalog.newCall p target key preset none).credited S
          (creditOf S c p prepared now target.callId) now false)
  /-- A recording, at once due. -/
  | recording {p : ProjectId} {manifest : RecordingManifest} {now due : UnixNano}
      {target : CallTarget} {key : SessionKey} :
      Created S c (.createRecording p manifest now) (p, target.callId)
        (Catalog.newCall p target key .full (some due))
  /-- A quiet parked trace. -/
  | promoted {limit : ℕ} {clock : ProjectId × TraceId → UnixNano} {now : UnixNano}
      {d : Catalog} {row : CallTrace} :
      Created S c (.collectParkedTraces limit clock now)
        (d.promotedCall S row (clock row.key)).key (d.promotedCall S row (clock row.key))

namespace Catalog

variable {S : CallStore} {c c' d : Catalog} {k : CallKey} {now : UnixNano} {r' : Call}

/-- The call was there; its row is as it was, or written once. -/
def Moved (S : CallStore) (c c' : Catalog) (k : CallKey) (r' : Call) : Prop :=
  ∃ r, c.calls.find? k = some r ∧
    Relation.ReflGen (RowStep S) (c.hasFinal k, r) (c'.hasFinal k, r')

theorem Moved.of_eq (hrow : c'.calls.find? k = c.calls.find? k)
    (hfinal : c'.hasFinal k = c.hasFinal k) (hr' : c'.calls.find? k = some r') :
    Moved S c c' k r' := by
  rw [hrow] at hr'
  refine ⟨r', hr', ?_⟩
  rw [hfinal]

theorem Moved.of_step {r : Call} (hr : c.calls.find? k = some r)
    (h : RowStep S (c.hasFinal k, r) (c'.hasFinal k, r')) : Moved S c c' k r' :=
  ⟨r, hr, .single h⟩

/-! ## Closers -/

theorem moved_aside (h : Aside c d) (hr' : d.calls.find? k = some r') : Moved S c d k r' := by
  have hfinal : d.hasFinal k = c.hasFinal k := hasFinal_congr h.onlyCalls.callRevisions k
  rcases h.calls k with hk | hk
  · exact .of_eq hk hfinal hr'
  · rw [hk] at hr'
    obtain ⟨r, hr, rfl⟩ := Option.map_eq_some_iff.mp hr'
    refine .of_step hr ?_
    rw [hfinal]
    exact .setAside _ _

theorem moved_claim {uploading : List CallKey} {claim? : Option CallClaim}
    (h : c.claim S now uploading = some (c', claim?)) (hr' : c'.calls.find? k = some r') :
    Moved S c c' k r' := by
  obtain ⟨d, ha, ⟨-, rfl⟩ | ⟨r, preset, hr, hrc, huncapped, -, -, -, rfl⟩⟩ := claim_cases h
  · exact moved_aside ha hr'
  · have hfinal : (d.claimed r now).hasFinal k = c.hasFinal k :=
      hasFinal_congr ha.onlyCalls.callRevisions k
    by_cases hk : k = r.key
    · subst hk
      rw [find?_calls_claimed_self hr] at hr'
      obtain rfl := Option.some.inj hr'
      refine .of_step hrc ?_
      have huncapped' : r.uncapped (c.hasFinal r.key) = true := by
        rw [← hasFinal_congr ha.onlyCalls.callRevisions]
        exact huncapped
      rw [hfinal]
      exact .lease _ _ _ huncapped'
    · rw [find?_calls_claimed_of_ne hk] at hr'
      obtain ⟨r₀, hr₀, hmoved⟩ := moved_aside ha hr'
      rw [hasFinal_congr ha.onlyCalls.callRevisions] at hmoved
      refine ⟨r₀, hr₀, ?_⟩
      rw [hfinal]
      exact hmoved

theorem moved_finish {claim : CallClaim} (h : c.finish claim now = some c')
    (hr' : c'.calls.find? k = some r') : Moved S c c' k r' := by
  obtain ⟨r, hr, -, hrev, ⟨-, rfl⟩ | ⟨-, -, rfl⟩⟩ := finish_cases h
  · have hfinal : (c.updateCall claim.key (Call.close none) (Call.close_key _)).hasFinal k =
        c.hasFinal k := rfl
    by_cases hk : k = claim.key
    · subst hk
      rw [find?_updateCall_self, hr, Option.map_some] at hr'
      obtain rfl := Option.some.inj hr'
      refine .of_step hr ?_
      rw [hfinal]
      exact .discard _ _ (by rw [hrev]; rfl)
    · exact .of_eq (find?_updateCall_of_ne _ _ hk) hfinal hr'
  · by_cases hk : k = claim.key
    · subst hk
      rw [find?_calls_finished_self hr] at hr'
      obtain rfl := Option.some.inj hr'
      exact .of_step hr (.finish _ _ _ _ hrev)
    · refine .of_eq (find?_calls_finished_of_ne hk) ?_ hr'
      rw [Bool.eq_iff_iff, hasFinal_iff, hasFinal_iff, callRevisions_finished]
      constructor
      · rintro ⟨v, hv, hvk, hfin⟩
        rcases Table.mem_insert.mp hv with hv | ⟨rfl, -⟩
        · exact ⟨v, hv, hvk, hfin⟩
        · exact absurd hvk.symm hk
      · rintro ⟨v, hv, hvk, hfin⟩
        exact ⟨v, Table.mem_insert.mpr (Or.inl hv), hvk, hfin⟩

theorem moved_fail {claim : CallClaim} {code : String} (h : c.fail S claim code now = some c')
    (hr' : c'.calls.find? k = some r') : Moved S c c' k r' := by
  obtain ⟨r, hr, -, hrev, attempts, due, rfl⟩ := fail_eq_some h
  have hfinal : (c.updateCall claim.key (Call.fail attempts due code)
      (Call.fail_key _ _ _)).hasFinal k = c.hasFinal k := rfl
  by_cases hk : k = claim.key
  · subst hk
    rw [find?_updateCall_self, hr, Option.map_some] at hr'
    obtain rfl := Option.some.inj hr'
    refine .of_step hr ?_
    rw [hfinal]
    exact .fail _ _ _ _ _ (by rw [hrev]; rfl)
  · exact .of_eq (find?_updateCall_of_ne _ _ hk) hfinal hr'

theorem moved_releaseLeases (hr' : c.releaseLeases.calls.find? k = some r') :
    Moved S c c.releaseLeases k r' := by
  rw [releaseLeases, Table.find?_patch] at hr'
  obtain ⟨r, hr, rfl⟩ := Option.map_eq_some_iff.mp hr'
  exact .of_step hr (.release _ _)

/-! ## Evidence -/

theorem moved_finishUpload {p : ProjectId} {recordingId : String} {upload : Upload}
    (h : c.finishUpload S p recordingId upload now = some c')
    (hr' : c'.calls.find? k = some r') : Moved S c c' k r' := by
  obtain ⟨row, -, -, rfl⟩ := finishUpload_eq_some h
  generalize hd : ({ c with
    recordings := c.recordings.patch (storeRecording row.key upload now)
      (storeRecording_key row.key upload now) } : Catalog) = d at hr' ⊢
  have hcalls : d.calls = c.calls := by rw [← hd]
  have hfinal : d.hasFinal k = c.hasFinal k := by rw [← hd]; rfl
  have hcredit : ∀ item, (d.addCallEvidence S row.callKey item now).hasFinal k = c.hasFinal k :=
    fun item => (hasFinal_congr onlyCalls_addCallEvidence.callRevisions k).trans hfinal
  by_cases hk : k = row.callKey
  · subst hk
    rw [find?_addCallEvidence_self, hcalls] at hr'
    obtain ⟨r, hr, rfl⟩ := Option.map_eq_some_iff.mp hr'
    refine .of_step hr ?_
    rw [hcredit, hfinal]
    exact .credit _ _ _ _
  · refine .of_eq ?_ (hcredit _) hr'
    rw [find?_addCallEvidence_of_ne hk, hcalls]

/-- A call that does not exist has no revision. -/
theorem Linked.hasFinal_of_none (hl : Linked c) (h : c.calls.find? k = none) :
    c.hasFinal k = false := by
  by_contra hne
  obtain ⟨v, hv, hk, -⟩ := hasFinal_iff.mp (Bool.eq_true_of_not_eq_false hne)
  have hcall := hl.revision_call v hv
  rw [hk, h] at hcall
  cases hcall

/-- A trace that brings its call more than tail spans makes the credit more
than its tail spans. -/
theorem tailSpans_lt_spans {p : ProjectId} {prepared : List Prepared} {t : TraceId}
    {callId : String}
    (ht : t ∈ callTraceIds S c p prepared now callId)
    (h : joiningSpans c p t ≠ [] ∨ ∃ x ∈ newSpans S c p prepared now t, x.tail = false) :
    (creditOf S c p prepared now callId).tailSpans <
      (creditOf S c p prepared now callId).spans := by
  have hle : ∀ t', (newSpans S c p prepared now t').countP (·.tail) ≤
      (joiningSpans c p t').length + (newSpans S c p prepared now t').length :=
    fun t' => List.countP_le_length.trans (Nat.le_add_left _ _)
  refine List.sum_lt_sum _ _ (fun t' _ => hle t') ⟨t, ht, ?_⟩
  rcases h with hjoin | ⟨x, hx, htail⟩
  · have hpos := List.length_pos_iff.mpr hjoin
    have hcount : (newSpans S c p prepared now t).countP (·.tail) ≤
        (newSpans S c p prepared now t).length := List.countP_le_length
    omega
  · have hlt : (newSpans S c p prepared now t).countP (·.tail) <
        (newSpans S c p prepared now t).length := by
      refine lt_of_le_of_ne List.countP_le_length fun heq => ?_
      rw [List.countP_eq_length] at heq
      rw [heq x hx] at htail
      cases htail
    omega

/-- A call with a trace in the batch is credited with something, when the
trace is not bound to it already. -/
theorem Linked.creditOf_ne_zero (hl : Linked c) {p : ProjectId} {prepared : List Prepared}
    {t : TraceId} {callId : String} (ht : t ∈ callTraceIds S c p prepared now callId)
    (hunbound : c.binding (p, t) = none) : (creditOf S c p prepared now callId).spans ≠ 0 := by
  have hkept : t ∈ keptIds S c p prepared now := (List.mem_filter.mp ht).1
  have hpos : 0 < (joiningSpans c p t).length + (newSpans S c p prepared now t).length := by
    cases hrow : c.callTraces.find? (p, t) with
    | none =>
        have hne : newSpans S c p prepared now t ≠ [] :=
          newSpans_ne_nil (mem_keptIds.mp hkept).1 hrow
        have := List.length_pos_iff.mpr hne
        omega
    | some row =>
        obtain ⟨s, hs, hsk⟩ := hl.trace_span (p, t) (by rw [hrow]; rfl)
        have hmem : s ∈ joiningSpans c p t := by
          rw [joiningSpans, hrow, hunbound]
          exact mem_spansOf.mpr ⟨hs, hsk⟩
        have := List.length_pos_of_mem hmem
        omega
  have hle : (joiningSpans c p t).length + (newSpans S c p prepared now t).length ≤
      (creditOf S c p prepared now callId).spans :=
    List.le_sum_of_mem (List.mem_map.mpr ⟨t, ht, rfl⟩)
  omega

theorem row_of_recorded (hl : Linked c) {p : ProjectId} {prepared : List Prepared} {rejected : ℕ}
    {preset : CapturePreset} (h : Recorded S c p prepared preset now c')
    (hr' : c'.calls.find? k = some r') :
    Moved S c c' k r' ∨
      (c.calls.find? k = none ∧ Created S c (.recordSpans p prepared rejected now) k r') := by
  have hfinal : c'.hasFinal k = c.hasFinal k := hasFinal_congr h.callRevisions k
  obtain ⟨p', callId⟩ := k
  by_cases hp : p' = p
  · subst hp
    cases hr : c.calls.find? (p', callId) with
    | some r =>
        rw [h.calls_stored callId r hr] at hr'
        obtain rfl := Option.some.inj hr'
        refine Or.inl ⟨r, hr, ?_⟩
        rw [hfinal, creditedRow, Table.key_of_find? hr]
        split
        · exact .refl
        · exact .single (.credit _ _ _ _)
    | none =>
        obtain ⟨target, htarget, hcreated, rfl, ⟨key, hkey, rfl⟩, -⟩ :=
          h.calls_new callId r' hr hr'
        refine Or.inr ⟨rfl, ?_⟩
        obtain ⟨t, ht, target', htarget', first, hag⟩ := mem_keptTargets htarget
        have hdest : destination S c p' prepared now t = some target.callId := by
          rw [destination, htarget', hag]
          rfl
        have hmem : t ∈ callTraceIds S c p' prepared now target.callId :=
          List.mem_filter.mpr ⟨ht, decide_eq_true hdest⟩
        -- a bound trace would have brought a stored call
        have hunbound : c.binding (p', t) = none := by
          by_contra hne
          obtain ⟨id, hid⟩ := Option.ne_none_iff_exists'.mp hne
          have hsame : destination S c p' prepared now t = some id := destination_of_bound hid
          obtain rfl := Option.some.inj (hdest.symm.trans hsame)
          have hcall := hl.trace_call _ _ hid
          rw [hr] at hcall
          cases hcall
        have hcredit := hl.creditOf_ne_zero hmem hunbound
        have hnofinal : c.hasFinal (newCall p' target key preset none).key = false :=
          hl.hasFinal_of_none hr
        have hid : (newCall p' target key preset none).callId = target.callId := rfl
        rw [creditedRow, hid, if_neg hcredit, hnofinal]
        exact .spans hmem hcredit
  · exact Or.inl (.of_eq (h.calls_other _ hp) hfinal hr')

theorem row_of_createRecording {p : ProjectId} {manifest : RecordingManifest}
    {result : CreateResult} (h : c.createRecording S p manifest now = some (c', result))
    (hr' : c'.calls.find? k = some r') :
    Moved S c c' k r' ∨
      (c.calls.find? k = none ∧ Created S c (.createRecording p manifest now) k r') := by
  rcases createRecording_cases h with rfl | rfl | ⟨-, -, c₁, h₁, rfl⟩
  · exact Or.inl (.of_eq rfl rfl hr')
  · have hcalls : (c.bumpCounter p .purgedCallEvidenceDropped 1).calls.find? k =
        c.calls.find? k := by rw [calls_bumpCounter]
    exact Or.inl (.of_eq hcalls (hasFinal_congr (onlyCalls_bumpCounter _ _ _).callRevisions k) hr')
  · have hfinal : c₁.hasFinal k = c.hasFinal k :=
      hasFinal_congr (onlyCalls_insertCalls h₁).callRevisions k
    change c₁.calls.find? k = some r' at hr'
    cases hr : c.calls.find? k with
    | some r =>
        have hrow : c₁.calls.find? k = c.calls.find? k := by
          rw [find?_insertCalls_of_some h₁ hr, hr]
        exact Or.inl (.of_eq (c := c) hrow hfinal hr')
    | none =>
        obtain ⟨target, -, -, key, -, rfl, -⟩ := find?_insertCalls_of_none h₁ hr hr'
        have hk := Table.key_of_find? hr'
        obtain rfl : (p, target.callId) = k := hk
        exact Or.inr ⟨rfl, .recording⟩

/-- One collected trace keeps every call's row, or promotes the trace. -/
theorem row_of_collectParkedTrace {row : CallTrace} {created : UnixNano}
    (h : c.collectParkedTrace S row now created = some c') (hr' : c'.calls.find? k = some r') :
    c.calls.find? k = some r' ∨
      (c.calls.find? k = none ∧ r' = c.promotedCall S row created ∧ k = r'.key) := by
  rcases collectParkedTrace_cases h with ⟨name, n, -, rfl⟩ | ⟨-, -, c₁, h₁, rfl⟩
  · rw [calls_bumpCounter] at hr'
    exact Or.inl hr'
  · change c₁.calls.find? k = some r' at hr'
    rw [find?_insertCall h₁] at hr'
    cases hr : c.calls.find? k with
    | some r =>
        rw [hr, Option.some_or] at hr'
        exact Or.inl hr'
    | none =>
        rw [hr, Option.none_or] at hr'
        split at hr'
        · rename_i hk
          obtain rfl := Option.some.inj hr'
          exact Or.inr ⟨rfl, rfl, hk.symm⟩
        · cases hr'

theorem row_of_collectParkedTraces {limit : ℕ} {clock : ProjectId × TraceId → UnixNano}
    (h : c.collectParkedTraces S now limit clock = some c') (hr' : c'.calls.find? k = some r') :
    Moved S c c' k r' ∨
      (c.calls.find? k = none ∧ Created S c (.collectParkedTraces limit clock now) k r') := by
  -- along the fold, stored rows stay and new ones are promoted
  have hall : c'.callRevisions = c.callRevisions ∧
      (∀ r, c.calls.find? k = some r → c'.calls.find? k = some r) ∧
      (c.calls.find? k = none → ∀ r', c'.calls.find? k = some r' →
        Created S c (.collectParkedTraces limit clock now) k r') := by
    refine collectParkedTraces_induction
      (P := fun d : Catalog => d.callRevisions = c.callRevisions ∧
        (∀ r, c.calls.find? k = some r → d.calls.find? k = some r) ∧
        (c.calls.find? k = none → ∀ r', d.calls.find? k = some r' →
          Created S c (.collectParkedTraces limit clock now) k r'))
      ?_ h ⟨rfl, fun _ hr => hr, fun hnone r' hr' => by rw [hnone] at hr'; cases hr'⟩
    rintro d d' row ⟨hrevisions, hkeeps, hnew⟩ - - hone
    refine ⟨?_, fun r hr => ?_, fun hnone r' hr' => ?_⟩
    · rw [← hrevisions]
      exact callRevisions_collectParkedTrace hone
    · exact find?_calls_collectParkedTrace hone (hkeeps r hr)
    · rcases row_of_collectParkedTrace hone hr' with hold | ⟨-, rfl, rfl⟩
      · exact hnew hnone r' hold
      · exact .promoted
  cases hr : c.calls.find? k with
  | some r =>
      have hrow := hall.2.1 r hr
      exact Or.inl (.of_eq (hrow.trans hr.symm) (hasFinal_congr hall.1 k) hr')
  | none => exact Or.inr ⟨rfl, hall.2.2 hr r' hr'⟩

/-! ## Every operation -/

theorem row_of_purgeCall {k' : CallKey} (h : c.purgeCall S k' now = some c')
    (hr' : c'.calls.find? k = some r') : k ≠ k' ∧ Moved S c c' k r' := by
  obtain ⟨r, -, -, hkeys⟩ := purgeCall_eq_some h
  rw [hkeys.calls, find?_calls_deleteCall] at hr'
  split at hr'
  · cases hr'
  · rename_i hne
    refine ⟨hne, .of_eq ?_ ?_ ?_⟩
    · rw [hkeys.calls, find?_calls_deleteCall, if_neg hne]
    · rw [Bool.eq_iff_iff, hasFinal_iff, hasFinal_iff, hkeys.callRevisions]
      constructor
      · rintro ⟨v, hv, hk, hfin⟩
        exact ⟨v, (mem_callRevisions_deleteCall.mp hv).1, hk, hfin⟩
      · rintro ⟨v, hv, hk, hfin⟩
        exact ⟨v, mem_callRevisions_deleteCall.mpr ⟨hv, hk ▸ hne⟩, hk, hfin⟩
    · rw [hkeys.calls, find?_calls_deleteCall, if_neg hne]
      exact hr'

theorem Moved.of_onlyCalls {r : Call} (hone : OnlyCalls d c') (h : Moved S c d k r) :
    Moved S c c' k r := by
  obtain ⟨r₀, hr₀, hsteps⟩ := h
  refine ⟨r₀, hr₀, ?_⟩
  rwa [hasFinal_congr hone.callRevisions]

end Catalog

/-- **Every operation leaves a row, writes it once, or creates it.** -/
theorem row_of_catalogStep {S : CallStore} {c c' : Catalog} {op : Op} {k : CallKey} {r' : Call}
    (hl : c.Linked) (h : CatalogStep S c op c') (hr' : c'.calls.find? k = some r') :
    Catalog.Moved S c c' k r' ∨ (c.calls.find? k = none ∧ Created S c op k r') := by
  cases h with
  | provisionProject | setCapturePreset | beginProjectDeletion | failStaleUploads
  | collectExpiredTombstones => exact Or.inl (.of_eq rfl rfl hr')
  | recordSpans hrec =>
      rename_i p prepared rejected now preset c₁ counts
      have hbump : Catalog.OnlyCalls c₁ ((((c₁.bumpCounter p .rejectedSpans rejected).bumpCounter p
          .spanConflicts counts.conflicts).bumpCounter p .keyDisagreements
            counts.disagreements).bumpCounter p .purgedCallEvidenceDropped counts.dropped) :=
        (((Catalog.onlyCalls_bumpCounter _ _ _).trans (Catalog.onlyCalls_bumpCounter _ _ _)).trans
          (Catalog.onlyCalls_bumpCounter _ _ _)).trans (Catalog.onlyCalls_bumpCounter _ _ _)
      simp only [Catalog.calls_bumpCounter] at hr'
      exact (Catalog.row_of_recorded hl (recorded_of_record hrec) hr').imp
        (fun hmoved => hmoved.of_onlyCalls hbump) id
  | createRecording hrun => exact Catalog.row_of_createRecording hrun hr'
  | finishUpload hrun => exact Or.inl (Catalog.moved_finishUpload hrun hr')
  | collectParkedTraces hrun => exact Catalog.row_of_collectParkedTraces hrun hr'
  | claim hrun => exact Or.inl (Catalog.moved_claim hrun hr')
  | finish hrun => exact Or.inl (Catalog.moved_finish hrun hr')
  | fail hrun => exact Or.inl (Catalog.moved_fail hrun hr')
  | releaseLeases => exact Or.inl (Catalog.moved_releaseLeases hr')
  | purgeCall hrun => exact Or.inl (Catalog.row_of_purgeCall hrun hr').2

/-- Only a purge takes a call. -/
theorem isSome_of_catalogStep {S : CallStore} {c c' : Catalog} {op : Op} {k : CallKey}
    (h : CatalogStep S c op c') (hop : op.purges k = false)
    (hk : (c.calls.find? k).isSome = true) : (c'.calls.find? k).isSome = true := by
  obtain ⟨r, hr⟩ := Option.isSome_iff_exists.mp hk
  have hupdate : ∀ (d : Catalog) (k' : CallKey) (f : Call → Call) (hf : ∀ r, (f r).key = r.key),
      (d.calls.find? k).isSome = true → ((d.updateCall k' f hf).calls.find? k).isSome = true := by
    intro d k' f hf hd
    by_cases hkk : k = k'
    · rw [hkk] at hd ⊢
      rwa [Catalog.find?_updateCall_self, Option.isSome_map]
    · rwa [Catalog.find?_updateCall_of_ne _ _ hkk]
  cases h with
  | provisionProject | setCapturePreset | beginProjectDeletion | failStaleUploads
  | collectExpiredTombstones => exact hk
  | recordSpans hrec =>
      simp only [Catalog.calls_bumpCounter]
      exact (recorded_of_record hrec).isSome_calls hk
  | createRecording hrun =>
      rcases Catalog.createRecording_cases hrun with rfl | rfl | ⟨-, -, c₁, h₁, rfl⟩
      · exact hk
      · rwa [Catalog.calls_bumpCounter]
      · change (c₁.calls.find? k).isSome = true
        rw [Catalog.find?_insertCalls_of_some h₁ hr]
        rfl
  | finishUpload hrun =>
      obtain ⟨row, -, -, rfl⟩ := Catalog.finishUpload_eq_some hrun
      by_cases hkk : k = row.callKey
      · subst hkk
        rw [Catalog.find?_addCallEvidence_self, Option.isSome_map]
        exact hk
      · rw [Catalog.find?_addCallEvidence_of_ne hkk]
        exact hk
  | collectParkedTraces hrun =>
      have hrow := Catalog.collectParkedTraces_induction
        (P := fun d => d.calls.find? k = some r)
        (fun d d' row hd _ _ hone => Catalog.find?_calls_collectParkedTrace hone hd) hrun hr
      rw [hrow]
      rfl
  | claim hrun =>
      obtain ⟨d, ha, hcases⟩ := Catalog.claim_cases hrun
      have hd : (d.calls.find? k).isSome = true := by
        rcases ha.calls k with heq | heq
        · rwa [heq]
        · rwa [heq, Option.isSome_map]
      rcases hcases with ⟨-, rfl⟩ | ⟨r', preset, -, -, -, -, -, -, rfl⟩
      · exact hd
      · exact hupdate d _ _ (Call.lease_key _ _) hd
  | finish hrun =>
      obtain ⟨r', hr', -, -, ⟨-, rfl⟩ | ⟨-, -, rfl⟩⟩ := Catalog.finish_cases hrun
      · exact hupdate _ _ _ _ hk
      · rename_i claim now
        by_cases hkk : k = claim.key
        · rw [hkk, Catalog.find?_calls_finished_self hr']
          rfl
        · rwa [Catalog.find?_calls_finished_of_ne hkk]
  | fail hrun =>
      obtain ⟨r', -, -, -, attempts, due, rfl⟩ := Catalog.fail_eq_some hrun
      exact hupdate _ _ _ _ hk
  | releaseLeases =>
      rw [Catalog.releaseLeases, Table.find?_patch, Option.isSome_map]
      exact hk
  | purgeCall hrun =>
      obtain ⟨r', -, -, hkeys⟩ := Catalog.purgeCall_eq_some hrun
      have hne : ∀ {k'}, (k' == k) = false → k ≠ k' := fun h => Ne.symm (by simpa using h)
      rw [hkeys.calls, Catalog.find?_calls_deleteCall, if_neg (hne hop)]
      exact hk

/-- What every write keeps, a moved row has. -/
theorem Catalog.Moved.preserves {S : CallStore} {c c' : Catalog} {k : CallKey} {r' : Call}
    {P : Bool → Call → Prop} (hstep : ∀ x y, P x.1 x.2 → RowStep S x y → P y.1 y.2)
    (hP : ∀ r, c.calls.find? k = some r → P (c.hasFinal k) r) (h : Moved S c c' k r') :
    P (c'.hasFinal k) r' := by
  obtain ⟨r, hr, hmoved⟩ := h
  generalize hy : (c'.hasFinal k, r') = y at hmoved
  have hPy : P y.1 y.2 := by
    cases hmoved with
    | refl => exact hP r hr
    | single hone => exact hstep _ _ (hP r hr) hone
  rwa [← hy] at hPy

end Earshot
