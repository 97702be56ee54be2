import Earshot.History.Counts
import Earshot.Media.Coupled
/-!
# The counts of a call's row

`span_count` and `recording_count` are written as evidence comes and never
computed from it. Over every run of the catalog's operations and the fetches',
a call's row counts the stored spans of its traces and its stored recordings
(`exactCounts_after`): a recording is counted once, by the upload that stores
it, and what else happens to a recording happens to one that is not stored.
-/

namespace Earshot

open Relational

/-- The call's recording is stored. -/
def RecordingRow.storedOf (k : CallKey) (r : RecordingRow) : Bool :=
  r.callKey = k && r.state = .stored

namespace Catalog

/-- How many stored recordings a call has. -/
def storedRecordings (c : Catalog) (k : CallKey) : ℕ :=
  c.recordings.rows.countP (RecordingRow.storedOf k)

/-- **Every call's row counts its stored spans and its stored recordings.** -/
def ExactCounts (c : Catalog) : Prop :=
  ∀ k r, c.calls.find? k = some r →
    r.spanCount = (c.callSpans k).length ∧ r.recordingCount = c.storedRecordings k

/-- The recordings' half of it. -/
def CountsRecordings (c : Catalog) : Prop :=
  ∀ k r, c.calls.find? k = some r → r.recordingCount = c.storedRecordings k

variable {S : CallStore} {c c' : Catalog} {p : ProjectId} {prepared : List Prepared}
variable {preset : CapturePreset} {now created : UnixNano} {k : CallKey}

/-! ## Stored recordings -/

theorem storedRecordings_congr (h : c'.recordings = c.recordings) (k : CallKey) :
    c'.storedRecordings k = c.storedRecordings k := by
  rw [storedRecordings, storedRecordings, h]

/-- A patch under which no recording starts or stops being a call's stored
one. -/
theorem storedRecordings_patch {f : RecordingRow → RecordingRow} {hf : ∀ r, (f r).key = r.key}
    (hsame : ∀ r ∈ c.recordings, (f r).storedOf k = r.storedOf k) :
    ({ c with recordings := c.recordings.patch f hf } : Catalog).storedRecordings k =
      c.storedRecordings k := by
  show (c.recordings.rows.map f).countP _ = _
  rw [List.countP_map]
  exact List.countP_congr fun r hr => by rw [Function.comp_apply, hsame r hr]

/-- A recording that is created is not stored. -/
theorem storedRecordings_insert {row : RecordingRow} (hpending : row.state = .pending) :
    ({ c with recordings := c.recordings.insert row } : Catalog).storedRecordings k =
      c.storedRecordings k := by
  show (c.recordings.insert row).rows.countP _ = _
  cases hrow : c.recordings.find? row.key with
  | some r =>
      rw [Table.insert, dif_pos, storedRecordings]
      exact List.mem_map.mpr ⟨r, Table.mem_of_find? hrow, Table.key_of_find? hrow⟩
  | none =>
      have hnot : RecordingRow.storedOf k row = false := by
        rw [RecordingRow.storedOf, hpending]
        exact Bool.and_false _
      rw [Table.rows_insert_of_new hrow, List.countP_append, List.countP_singleton, hnot,
        if_neg Bool.false_ne_true, Nat.add_zero, storedRecordings]

/-- **An upload stores one recording of its call**, and no other call's. -/
theorem storedRecordings_upload {row : RecordingRow} {upload : Upload}
    (hrow : c.recordings.find? row.key = some row) (hpending : row.state = .pending)
    (k : CallKey) :
    ({ c with
        recordings := c.recordings.patch (storeRecording row.key upload now)
          (storeRecording_key row.key upload now) } : Catalog).storedRecordings k =
      c.storedRecordings k + if row.callKey = k then 1 else 0 := by
  have hperm := Table.perm_cons_delete hrow
  have hothers : (c.recordings.delete fun x => decide (x.key = row.key)).rows.map
      (storeRecording row.key upload now) =
        (c.recordings.delete fun x => decide (x.key = row.key)).rows := by
    refine (List.map_congr_left fun r hr => ?_).trans (List.map_id _)
    have hne : r.key ≠ row.key := of_decide_eq_false (Table.mem_delete.mp hr).2
    rw [storeRecording, if_neg hne, id_eq]
  have hstored : RecordingRow.storedOf k (storeRecording row.key upload now row) =
      decide (row.callKey = k) := by
    rw [storeRecording, if_pos rfl]
    exact Bool.and_true _
  have hbefore : RecordingRow.storedOf k row = false := by
    rw [RecordingRow.storedOf, hpending]
    exact Bool.and_false _
  show (c.recordings.rows.map (storeRecording row.key upload now)).countP _ = _
  rw [(hperm.map _).countP_eq, List.map_cons, hothers, List.countP_cons, hstored,
    storedRecordings, hperm.countP_eq, List.countP_cons, hbefore, if_neg Bool.false_ne_true]
  by_cases hk : row.callKey = k
  · rw [decide_eq_true hk, if_pos rfl, if_pos hk]
  · rw [decide_eq_false hk, if_neg Bool.false_ne_true, if_neg hk]

/-- A call that is not stored has no recordings. -/
theorem storedRecordings_eq_zero (hl : Linked c) (h : c.calls.find? k = none) :
    c.storedRecordings k = 0 := by
  refine List.countP_eq_zero.mpr fun r hr hstored => ?_
  rw [RecordingRow.storedOf, Bool.and_eq_true, decide_eq_true_eq] at hstored
  have hcall := hl.recording_call r hr
  rw [hstored.1, h] at hcall
  cases hcall

/-! ## What keeps the counts -/

theorem countsRecordings_empty : CountsRecordings empty := fun _ _ h => by cases h

/-- What leaves the calls' counts and their stored recordings alone. -/
theorem CountsRecordings.of_same (h : CountsRecordings c)
    (hrows : KeepsRows Call.recordingCount c c')
    (hstored : ∀ k, (c'.calls.find? k).isSome = true →
      c'.storedRecordings k = c.storedRecordings k) : CountsRecordings c' := by
  intro k r' hr'
  obtain ⟨r, hr, heq⟩ := hrows k r' hr'
  rw [heq, h k r hr, hstored k (by rw [hr']; rfl)]

/-- A patch of the recordings alone. -/
theorem CountsRecordings.patch (h : CountsRecordings c) {f : RecordingRow → RecordingRow}
    {hf : ∀ r, (f r).key = r.key}
    (hsame : ∀ k, ∀ r ∈ c.recordings, (f r).storedOf k = r.storedOf k) :
    CountsRecordings { c with recordings := c.recordings.patch f hf } :=
  h.of_same (fun _ r hr => ⟨r, hr, rfl⟩) fun k _ => storedRecordings_patch (hsame k)

theorem CountsRecordings.of_onlyCalls (h : CountsRecordings c) (honly : OnlyCalls c c')
    (hrows : KeepsRows Call.recordingCount c c') :
    CountsRecordings c' :=
  h.of_same hrows fun k _ => storedRecordings_congr honly.recordings k

theorem CountsRecordings.bumpCounter (h : CountsRecordings c) (name : OtlpCounterName) (n : ℕ) :
    CountsRecordings (c.bumpCounter p name n) :=
  h.of_onlyCalls (onlyCalls_bumpCounter _ _ _) fun k r hr => ⟨r, by
    rwa [calls_bumpCounter] at hr, rfl⟩

theorem CountsRecordings.updateCall (h : CountsRecordings c) {f : Call → Call}
    {hf : ∀ r, (f r).key = r.key} (hcount : ∀ r, (f r).recordingCount = r.recordingCount) :
    CountsRecordings (c.updateCall k f hf) := by
  exact h.of_onlyCalls (onlyCalls_updateCall f hf) (keepsRows_updateCall hcount)

theorem CountsRecordings.aside {d : Catalog} (h : CountsRecordings c) (ha : Aside c d) :
    CountsRecordings d := by
  exact h.of_onlyCalls ha.onlyCalls (ha.keepsRows fun _ => rfl)

/-- A new call has no recordings yet. -/
theorem CountsRecordings.insertCalls {targets : List CallTarget} {due : Option UnixNano}
    (h : CountsRecordings c) (hl : Linked c)
    (hins : c.insertCalls p targets preset due = some c') : CountsRecordings c' := by
  intro k r' hr'
  rw [storedRecordings_congr (onlyCalls_insertCalls hins).recordings]
  cases hr : c.calls.find? k with
  | some r =>
      rw [find?_insertCalls_of_some hins hr] at hr'
      obtain rfl := Option.some.inj hr'
      exact h k r hr
  | none =>
      obtain ⟨target, -, -, key, -, rfl, -⟩ := find?_insertCalls_of_none hins hr hr'
      exact (storedRecordings_eq_zero hl hr).symm

/-! ## Rows -/

theorem recordingCount_noted {r : Call} {final : Bool} :
    (r.noted final).recordingCount = r.recordingCount := by
  unfold Call.noted
  split <;> rfl

/-- Spans that are counted only come with no recording. -/
theorem recordingCount_addEvidence {r : Call} {item : Evidence} :
    (r.addEvidence S item now).recordingCount = r.recordingCount + item.recordings := by
  unfold Call.addEvidence
  split
  · rename_i hcounted
    rw [Call.countedOnly, Bool.and_eq_true, Bool.and_eq_true, decide_eq_true_eq,
      decide_eq_true_eq] at hcounted
    rw [hcounted.1.2, Nat.add_zero]
  · rfl

theorem recordingCount_credited {r : Call} {item : Evidence} {final : Bool} :
    (r.credited S item now final).recordingCount = r.recordingCount + item.recordings := by
  unfold Call.credited
  split
  · rw [recordingCount_noted, recordingCount_addEvidence]
  · exact recordingCount_addEvidence

/-- A batch brings no recordings. -/
theorem recordingCount_creditedRow (r : Call) :
    (creditedRow S c p prepared now r).recordingCount = r.recordingCount := by
  rw [creditedRow]
  split
  · rfl
  · rw [recordingCount_credited]
    rfl

/-! ## The operations -/

theorem CountsRecordings.recorded (h : CountsRecordings c) (hl : Linked c)
    (hrec : Recorded S c p prepared preset now c') : CountsRecordings c' := by
  rintro ⟨p', callId⟩ r' hr'
  rw [storedRecordings_congr hrec.recordings]
  by_cases hp : p' = p
  · subst hp
    cases hr : c.calls.find? (p', callId) with
    | some r =>
        rw [hrec.calls_stored callId r hr] at hr'
        obtain rfl := Option.some.inj hr'
        rw [recordingCount_creditedRow, h _ r hr]
    | none =>
        obtain ⟨target, -, -, rfl, ⟨key, -, rfl⟩, -⟩ := hrec.calls_new callId r' hr hr'
        rw [recordingCount_creditedRow, storedRecordings_eq_zero hl hr]
        rfl
  · rw [hrec.calls_other _ hp] at hr'
    exact h _ r' hr'

/-- **An upload is counted once**, in the transaction that stores it. -/
theorem CountsRecordings.finishUpload (h : CountsRecordings c) {recordingId : String}
    {upload : Upload} (hrun : c.finishUpload S p recordingId upload now = some c') :
    CountsRecordings c' := by
  obtain ⟨row, hrow, hpending, rfl⟩ := finishUpload_eq_some hrun
  have hstored : c.recordings.find? row.key = some row := by
    rwa [show row.key = (p, recordingId) from Table.key_of_find? hrow]
  intro k r' hr'
  rw [storedRecordings_congr onlyCalls_addCallEvidence.recordings,
    storedRecordings_upload hstored hpending]
  by_cases hk : k = row.callKey
  · rw [hk, find?_addCallEvidence_self] at hr'
    obtain ⟨r, hr, rfl⟩ := Option.map_eq_some_iff.mp hr'
    rw [recordingCount_credited, h k r (hk ▸ hr), if_pos hk.symm]
  · rw [find?_addCallEvidence_of_ne hk] at hr'
    rw [if_neg (Ne.symm hk), Nat.add_zero]
    exact h k r' hr'

/-- A sweep fails recordings that are not stored. -/
theorem CountsRecordings.failStaleUploads (h : CountsRecordings c)
    {uploading fetching : List (ProjectId × String)} :
    CountsRecordings (c.failStaleUploads S now uploading fetching) := by
  refine h.patch fun k r _ => ?_
  unfold failRecording
  split
  · rename_i hexpired
    cases hcall : c.calls.find? r.callKey with
    | none =>
        rw [uploadExpired, hcall] at hexpired
        cases hexpired
    | some call =>
        rw [RecordingRow.storedOf, RecordingRow.storedOf, ((uploadExpired_iff hcall).mp hexpired).1]
        rfl
  · rfl

/-- Nor does a fetch that ends fail a stored one. -/
theorem CountsRecordings.failFetched (h : CountsRecordings c) (k : ProjectId × String) :
    CountsRecordings (c.failFetched k) := by
  refine h.patch fun k' r _ => ?_
  split
  · rename_i hpending
    rw [RecordingRow.storedOf, RecordingRow.storedOf, hpending.2]
    rfl
  · rfl

theorem CountsRecordings.collectParkedTrace {row : CallTrace} (h : CountsRecordings c)
    (hl : Linked c) (hrun : c.collectParkedTrace S row now created = some c') :
    CountsRecordings c' := by
  rcases collectParkedTrace_cases hrun with ⟨name, n, -, rfl⟩ | ⟨-, -, c₁, h₁, rfl⟩
  · have hdeleted : CountsRecordings (c.deleteTrace row.projectId row.traceId) :=
      h.of_same (fun k r hr => ⟨r, hr, rfl⟩) fun k _ => rfl
    exact hdeleted.bumpCounter name n
  · intro k r' hr'
    change c₁.calls.find? k = some r' at hr'
    show r'.recordingCount = c₁.storedRecordings k
    rw [storedRecordings_congr (onlyCalls_insertCall h₁).recordings]
    rw [find?_insertCall h₁] at hr'
    by_cases hk : (c.promotedCall S row created).key = k
    · have hnone := find?_eq_none_of_insertCall h₁
      rw [hk] at hnone
      rw [hnone, Option.none_or, if_pos hk] at hr'
      obtain rfl := Option.some.inj hr'
      exact (storedRecordings_eq_zero hl hnone).symm
    · rw [if_neg hk, Option.or_none] at hr'
      exact h k r' hr'

/-- A claim marks recordings and stores none. -/
theorem CountsRecordings.claimed (h : CountsRecordings c) {r : Call} :
    CountsRecordings (c.claimed r now) := by
  have hupdated : CountsRecordings (c.updateCall r.key (Call.lease r.nextRevision now)
      (Call.lease_key _ _)) := h.updateCall fun _ => rfl
  refine hupdated.of_same (fun k r' hr' => ⟨r', hr', rfl⟩) fun k _ => ?_
  show (c.recordings.rows.map (markRecording r.key r.nextRevision)).countP _ =
    c.recordings.rows.countP _
  rw [List.countP_map]
  refine List.countP_congr fun x _ => ?_
  have hsame := markRecording_columns r.key r.nextRevision x
  rw [Function.comp_apply, RecordingRow.storedOf, RecordingRow.storedOf,
    show (markRecording r.key r.nextRevision x).callKey = x.callKey from
      congrArg (fun y : Recording => (y.projectId, y.callId)) hsame,
    show (markRecording r.key r.nextRevision x).state = x.state from
      congrArg Recording.state hsame]

theorem CountsRecordings.purgeCall (h : CountsRecordings c) {k : CallKey}
    (hrun : c.purgeCall S k now = some c') : CountsRecordings c' := by
  obtain ⟨r, -, -, hkeys⟩ := purgeCall_eq_some hrun
  intro k' r' hr'
  rw [hkeys.calls, find?_calls_deleteCall] at hr'
  split at hr'
  · cases hr'
  · rename_i hne
    rw [storedRecordings_congr hkeys.recordings, h k' r' hr']
    show _ = (c.recordings.rows.filter _).countP _
    rw [List.countP_filter, storedRecordings]
    refine List.countP_congr fun x _ => ?_
    rw [RecordingRow.storedOf, Bool.and_eq_true, Bool.and_eq_true, Bool.and_eq_true,
      decide_eq_true_eq]
    refine ⟨fun hx => ⟨hx, ?_⟩, And.left⟩
    rw [Bool.not_eq_true', decide_eq_false_iff_not, hx.1]
    exact hne

end Catalog

/-- **Every operation of the catalog keeps the count of recordings.** -/
theorem countsRecordings_step {S : CallStore} {c c' : Catalog} {op : Op} (hl : c.Linked)
    (h : c.CountsRecordings) (hstep : CatalogStep S c op c') : c'.CountsRecordings := by
  cases hstep with
  | provisionProject | setCapturePreset | beginProjectDeletion | collectExpiredTombstones =>
      exact h
  | failStaleUploads => exact h.failStaleUploads
  | recordSpans hrec =>
      exact (((((h.recorded hl (recorded_of_record hrec)).bumpCounter _ _).bumpCounter _
        _).bumpCounter _ _).bumpCounter _ _)
  | createRecording hrun =>
      rcases Catalog.createRecording_cases hrun with rfl | rfl | ⟨-, -, c₁, h₁, rfl⟩
      · exact h
      · exact h.bumpCounter _ _
      · exact (h.insertCalls hl h₁).of_same (fun k r hr => ⟨r, hr, rfl⟩)
          fun k _ => Catalog.storedRecordings_insert rfl
  | finishUpload hrun => exact h.finishUpload hrun
  | collectParkedTraces hrun =>
      have hboth := Catalog.collectParkedTraces_induction
        (P := fun d => d.Linked ∧ d.CountsRecordings)
        (fun d d' row hd hrow _ hone => ⟨hd.1.collectParkedTrace hrow hone,
          hd.2.collectParkedTrace hd.1 hone⟩) hrun ⟨hl, h⟩
      exact hboth.2
  | claim hrun =>
      obtain ⟨d, ha, ⟨-, rfl⟩ | ⟨r, preset, -, -, -, -, -, -, rfl⟩⟩ := Catalog.claim_cases hrun
      · exact h.aside ha
      · exact (h.aside ha).claimed
  | finish hrun =>
      rename_i claim now
      obtain ⟨r, hr, -, -, ⟨-, rfl⟩ | ⟨-, -, rfl⟩⟩ := Catalog.finish_cases hrun
      · exact h.updateCall fun _ => rfl
      · exact h.of_same
          (Catalog.keepsRows_finished hr fun _ _ _ => Catalog.recordingCount_noted)
          fun k _ => Catalog.storedRecordings_congr
            (@Catalog.onlyCalls_finished c now claim).recordings k
  | fail hrun =>
      obtain ⟨r, -, -, -, attempts, due, rfl⟩ := Catalog.fail_eq_some hrun
      exact h.updateCall fun _ => rfl
  | releaseLeases =>
      exact h.of_same (Catalog.keepsRows_releaseLeases fun _ => rfl) fun k _ => rfl
  | purgeCall hrun => exact h.purgeCall hrun

/-! ## Fetches -/

namespace FetchWorld

open Catalog

variable {S : CallStore} {w w' : FetchWorld} {k : ProjectId × String}

/-- **What a transaction does to the catalog**: an operation of the catalog,
a recording failed with its fetch, a recording held for one, or nothing. -/
inductive OnCatalog (S : CallStore) (c : Catalog) : Catalog → Prop where
  | op {op : Op} {c' : Catalog} (h : CatalogStep S c op c') : OnCatalog S c c'
  | failed (k : ProjectId × String) : OnCatalog S c (c.failFetched k)
  | held {p : ProjectId} {callId : String} (recording : ProviderRecording) (now : UnixNano)
      (hcall : (c.calls.find? (p, callId)).isSome = true) :
      OnCatalog S c
        { c with recordings := c.recordings.insert (heldRecording p callId recording now) }
  | kept : OnCatalog S c c

theorem onCatalog_endFetch {lease : JobLease (ProjectId × String)} {now : UnixNano}
    {how : JobEnd FetchEnd} {code : String} :
    OnCatalog S w.world.catalog (w.endFetch lease now how code).world.catalog := by
  unfold endFetch
  split
  · exact .kept
  · exact .failed _

theorem onCatalog_settleAs {lease : JobLease (ProjectId × String)} {now : UnixNano}
    (state? : Option RecordingState) :
    OnCatalog S w.world.catalog (w.settleAs lease now state?).world.catalog := by
  unfold settleAs
  split
  · exact .kept
  · exact onCatalog_endFetch
  · exact .kept

theorem onCatalog_retryFetch {claim : FetchClaim} {code : String} {now : UnixNano} :
    OnCatalog S w.world.catalog (w.retryFetch claim code now).world.catalog := by
  unfold retryFetch
  split
  · exact onCatalog_endFetch
  · split
    · exact .kept
    · split
      · exact .failed _
      · exact .kept

theorem onCatalog_claimFetch {leaseNano : ℤ} {token : ℕ} {now : UnixNano}
    (hrun : w.claimFetch leaseNano token now = some w') :
    OnCatalog S w.world.catalog w'.world.catalog := by
  unfold claimFetch at hrun
  split at hrun
  · cases hrun
  · rename_i fetches lease _
    split at hrun
    · split at hrun
      · obtain rfl := Option.some.inj hrun
        exact onCatalog_settleAs (w := { w with fetches := fetches }) _
      · split at hrun
        · obtain rfl := Option.some.inj hrun
          exact onCatalog_endFetch (w := { w with fetches := fetches })
        · obtain rfl := Option.some.inj hrun
          exact .kept
    · cases hrun

theorem onCatalog_of_step {op : FetchOp} (hrun : step S w op = some w') :
    OnCatalog S w.world.catalog w'.world.catalog := by
  cases op with
  | catalog op =>
      obtain ⟨-, world, hop, rfl⟩ := step_catalog_eq_some hrun
      exact .op (catalogStep_of_step hop)
  | sweep uploading now =>
      have hswept : (Earshot.step S w.world (.failStaleUploads uploading w.fetching now)).map
        w.commit = some w' := hrun
      obtain ⟨world, hop, rfl⟩ := Option.map_eq_some_iff.mp hswept
      exact .op (catalogStep_of_step hop)
  | holdRecording p callId endpointId recording now =>
      obtain ⟨-, hrun⟩ := Option.ite_none_left_eq_some.mp hrun
      obtain ⟨hcall, hrun⟩ := Option.ite_none_left_eq_some.mp hrun
      obtain ⟨-, hrun⟩ := Option.ite_none_left_eq_some.mp hrun
      obtain rfl := Option.some.inj hrun
      exact .held recording now (Option.isNone_eq_false_iff.mp (Bool.eq_false_of_not_eq_true hcall))
  | refreshUrl | dropFetch | releaseLeases =>
      obtain rfl := Option.some.inj hrun
      exact .kept
  | claim => exact onCatalog_claimFetch hrun
  | upload claim upload now =>
      obtain ⟨-, hrun⟩ := Option.ite_none_right_eq_some.mp hrun
      obtain ⟨world, hop, rfl⟩ := Option.map_eq_some_iff.mp hrun
      exact .op (catalogStep_of_step hop)
  | completeStored claim now =>
      obtain ⟨-, hrun⟩ := Option.ite_none_right_eq_some.mp hrun
      obtain rfl := Option.some.inj hrun
      exact .kept
  | settle claim now =>
      obtain ⟨-, hrun⟩ := Option.ite_none_right_eq_some.mp hrun
      obtain rfl := Option.some.inj hrun
      exact onCatalog_settleAs _
  | fail claim code how now =>
      obtain ⟨-, hrun⟩ := Option.ite_none_right_eq_some.mp hrun
      cases how with
      | retry =>
          obtain rfl := Option.some.inj hrun
          exact onCatalog_retryFetch
      | failed | expired =>
          obtain rfl := Option.some.inj hrun
          exact onCatalog_endFetch

/-- Every transaction keeps the links. -/
theorem linked_onCatalog {c c' : Catalog} (h : c.Linked) (hstep : OnCatalog S c c') :
    c'.Linked := by
  cases hstep with
  | op hop => exact linked_step h hop
  | failed k =>
      refine h.patchRecordings _ _ (fun r => ?_) fun r hst => ?_
      · split <;> rfl
      · split at hst
        · cases hst
        · rename_i hne
          rw [if_neg hne]
          exact ⟨hst, rfl⟩
  | held recording now hcall =>
      refine ⟨h.trace_call, h.span_trace, h.trace_span, fun r hr => ?_, h.revision_call,
        h.parked_unmarked, fun r hr hst => ?_⟩
      · rcases Table.mem_insert.mp hr with hr | ⟨rfl, -⟩
        · exact h.recording_call r hr
        · exact hcall
      · rcases Table.mem_insert.mp hr with hr | ⟨rfl, -⟩
        · exact h.pending_unmarked r hr hst
        · rfl
  | kept => exact h

/-- The counts, with the links they rest on. -/
structure Counting (c : Catalog) : Prop where
  linked : c.Linked
  spans : c.Counted
  recordings : c.CountsRecordings

/-- **Every transaction keeps the counts.** -/
theorem Counting.onCatalog {c c' : Catalog} (h : Counting c) (hstep : OnCatalog S c c') :
    Counting c' := by
  refine ⟨linked_onCatalog h.linked hstep, ?_, ?_⟩
  · cases hstep with
    | op hop => exact counted_step h.linked h.spans hop
    | failed | held | kept => exact h.spans
  · cases hstep with
    | op hop => exact countsRecordings_step h.linked h.recordings hop
    | failed k => exact h.recordings.failFetched k
    | held recording now hcall =>
        exact h.recordings.of_same (fun k r hr => ⟨r, hr, rfl⟩) fun k _ =>
          storedRecordings_insert rfl
    | kept => exact h.recordings

theorem counting_after (S : CallStore) (ops : List FetchOp) :
    Counting (after S ops).world.catalog :=
  Transition.run_invariant (P := fun w : FetchWorld => Counting w.world.catalog)
    (fun _ _ _ h hrun => h.onCatalog (onCatalog_of_step hrun)) ops _
    ⟨linked_empty, counted_empty, countsRecordings_empty⟩

/-- **The counts of a call's row are exact**, in every catalog that batches,
joins, promotions, uploads, fetches, sweeps and purges reach. -/
theorem exactCounts_after (S : CallStore) (ops : List FetchOp) :
    (after S ops).world.catalog.ExactCounts := fun k r hr =>
  ⟨congrArg Prod.fst ((counting_after S ops).spans k r hr),
    (counting_after S ops).recordings k r hr⟩

end FetchWorld

end Earshot
