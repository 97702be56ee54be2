import Earshot.History.Ledger
/-!
# What closers may rely on

The three promises of revision history, read off the ledger of the call:
no evidence is lost between revisions (`evidence_announced`), a stored
revision's evidence can be read back (`revision_readBack`), and the history
is linear, fenced and bounded (`revisionHistory`). Each is about every run
that does not purge the call: any batches, recordings, parked traces,
claims, finishes and failures by any number of closers, and purges of
other calls.
-/

namespace Earshot

open Relational Snapshots

variable {S : CallStore} {w w' : World} {k : CallKey} {r : Call}

/-! ## No evidence is lost -/

/-- Evidence marked `first` is in no stored revision. -/
def Call.unrevised (r : Call) (first : Option ℕ) : Bool :=
  first.all fun n => r.latestRevision.all (· < n)

theorem Tracked.top_lt (ht : Tracked w r.key) (hr : r ∈ w.catalog.calls) {e : Item} {m : Option ℕ}
    (he : w.catalog.Holds r.key e m) (hm : r.unrevised m = true) (n : ℕ) (hn : m = some n) :
    (w.ledger r.key).top < n := by
  subst hn
  have hpos := ht.sound.faithful.mark_pos e n he
  change (w.catalog.head r.key).latest.getD 0 < n
  rw [Catalog.head_of_find? (Table.find?_of_mem hr)]
  change r.latestRevision.getD 0 < n
  rw [Call.unrevised, Option.all_some] at hm
  cases hl : r.latestRevision with
  | none => exact hpos
  | some l =>
      rw [hl, Option.all_some, decide_eq_true_eq] at hm
      exact hm

/-- Urgent evidence that no stored revision has is announced. -/
theorem Tracked.announced (ht : Tracked w r.key) (hr : r ∈ w.catalog.calls) {e : Item}
    {m : Option ℕ} (hurgent : e ∈ w.catalog.Urgent r.key) (he : w.catalog.Holds r.key e m)
    (hm : r.unrevised m = true) : r.dirty = true ∨ r.pendingRevision.isSome = true := by
  have hhead := Catalog.head_of_find? (Table.find?_of_mem hr)
  have hann := ht.sound.covered.announced hurgent he (ht.top_lt hr he hm)
  change (w.catalog.head r.key).dirty = true ∨ (w.catalog.head r.key).pending ≠ none at hann
  rw [hhead] at hann
  exact hann.imp id Option.isSome_iff_ne_none.mpr

/-- **No evidence is lost between revisions.** A call with a span that is
not a tail span, or a stored recording, that no stored revision has is
dirty, or has a revision pending. -/
theorem evidence_announced (S : CallStore) (ops : List Op) (r : Call)
    (hr : r ∈ (worldAfter S ops).catalog.calls) (hops : ∀ op ∈ ops, op.purges r.key = false)
    (hevidence :
      (∃ s ∈ (worldAfter S ops).catalog.callSpans r.key,
        s.tail = false ∧ r.unrevised s.firstRevision = true) ∨
      (∃ x ∈ (worldAfter S ops).catalog.recordings,
        x.callKey = r.key ∧ x.state = .stored ∧ r.unrevised x.firstRevision = true)) :
    r.dirty = true ∨ r.pendingRevision.isSome = true := by
  have ht := tracked_worldAfter S r.key ops hops
  rcases hevidence with ⟨s, hs, htail, hm⟩ | ⟨x, hx, hk, hst, hm⟩
  · exact ht.announced (e := .span s.traceId s.spanId) hr ⟨s, hs, rfl, rfl, htail⟩
      ⟨s, hs, rfl, rfl, rfl⟩ hm
  · exact ht.announced (e := .recording x.toRecording) hr trivial ⟨x, hx, hk, hst, rfl, rfl⟩ hm

/-- A run in which a span that names a session makes a call. -/
def turnRun : List Op := demoRun [demoSpan 1 1 "pipecat.turn" "turn" (some "k")]

/-- The call is closed with a revision. -/
def closedRun : List Op :=
  turnRun ++ .claim [] 100 ::
    (worldAfter plainStore (turnRun ++ [.claim [] 100])).claims.map fun claim => .finish claim 101

/-- A span arrives that the revision has not. -/
def reopenedRun : List Op :=
  closedRun ++ [.recordSpans demoProject [demoSpan 1 2 "pipecat.stt" "stt" (some "k")] 0 120]

def reopenedCall : Call :=
  (worldAfter plainStore reopenedRun).catalog.calls.rows.head (by decide +kernel)

theorem evidence_announced_reopenedCall :
    reopenedCall.latestRevision = some 1 ∧
      (reopenedCall.dirty = true ∨ reopenedCall.pendingRevision.isSome = true) := by
  refine ⟨by decide +kernel, evidence_announced plainStore reopenedRun reopenedCall
    (List.head_mem _) (by decide +kernel) (Or.inl ?_)⟩
  exact ⟨((worldAfter plainStore reopenedRun).catalog.callSpans reopenedCall.key).getLast
    (by decide +kernel), List.getLast_mem _, by decide +kernel, by decide +kernel⟩

/-! ## A stored revision can be read back -/

/-- A claim's lists are as its reads order them. -/
structure CallClaim.Listed (claim : CallClaim) : Prop where
  spanKeys : claim.spanKeys.Nodup
  recordings : claim.recordings.Pairwise (·.recordingId < ·.recordingId)

namespace Catalog

variable {c : Catalog}

/-- The keys of one call's spans are distinct. -/
theorem nodup_callSpans_keys (spans : List Span) (hsub : spans.Sublist (c.callSpans k)) :
    (spans.map fun s => (s.traceId, s.spanId)).Nodup := by
  have hnodup : spans.Nodup :=
    ((c.spans.nodup.of_map _).filter _).sublist hsub
  refine (List.nodup_map_iff_inj_on hnodup).mpr fun s hs s' hs' heq => ?_
  obtain ⟨ht, hx⟩ := Prod.mk.inj heq
  exact eq_of_mem_callSpans (hsub.subset hs) (hsub.subset hs') ht hx

/-- Recordings of one call, by ID, are strictly ordered. -/
theorem pairwise_recordings (rows : List RecordingRow) (hsub : rows.Sublist c.recordings.rows)
    (hk : ∀ x ∈ rows, x.callKey = k) :
    ((rows.map (·.toRecording)).insertionSort fun a b => a.recordingId ≤ b.recordingId).Pairwise
      (·.recordingId < ·.recordingId) := by
  have hkeys : (rows.map (·.key)).Nodup := c.recordings.nodup.sublist (hsub.map _)
  have hne : (rows.map (·.toRecording)).Pairwise (·.recordingId ≠ ·.recordingId) := by
    rw [List.pairwise_map]
    refine (List.pairwise_map.mp hkeys).imp_of_mem fun {x y} hx hy hxy heq => ?_
    refine hxy (Prod.ext ?_ heq)
    exact (congrArg Prod.fst (hk x hx)).trans (congrArg Prod.fst (hk y hy)).symm
  have hsorted := List.pairwise_insertionSort
    (fun a b : Recording => a.recordingId ≤ b.recordingId) (rows.map (·.toRecording))
  have hne' := hne.perm (List.perm_insertionSort
    (fun a b : Recording => a.recordingId ≤ b.recordingId) _).symm fun h => Ne.symm h
  exact (hsorted.and hne').imp fun h => lt_of_le_of_ne h.1 h.2

theorem listed_claimOf {preset : CapturePreset} : (c.claimOf r preset).Listed where
  spanKeys := (List.perm_insertionSort _ _).nodup_iff.mpr
    (nodup_callSpans_keys (c.callSpans r.key) (List.Sublist.refl _))
  recordings := by
    refine pairwise_recordings (k := r.key) _ List.filter_sublist fun x hx => ?_
    have := (List.mem_filter.mp hx).2
    rw [Bool.and_eq_true, decide_eq_true_eq] at this
    exact this.1

/-! ### What a read at a revision finds -/

theorem mem_sourceSpans_keys {revision : ℕ} {t : TraceId} {x : SpanId} :
    (t, x) ∈ (c.sourceSpans k revision).map (fun s => (s.traceId, s.spanId)) ↔
      ∃ n ≤ revision, c.Holds k (.span t x) (some n) := by
  rw [List.mem_map]
  constructor
  · rintro ⟨s, hs, heq⟩
    obtain ⟨hs, hn⟩ := List.mem_filter.mp hs
    obtain ⟨n, hsn, hle⟩ := (Option.any_eq_true _ _).mp hn
    obtain ⟨ht, hx⟩ := Prod.mk.inj heq
    exact ⟨n, of_decide_eq_true hle, s, hs, ht, hx, hsn⟩
  · rintro ⟨n, hle, s, hs, rfl, rfl, hsn⟩
    refine ⟨s, List.mem_filter.mpr ⟨hs, ?_⟩, rfl⟩
    rw [hsn]
    exact decide_eq_true hle

theorem mem_sourceRecordings {revision : ℕ} {x : Recording} :
    x ∈ c.sourceRecordings k revision ↔ ∃ n ≤ revision, c.Holds k (.recording x) (some n) := by
  rw [sourceRecordings, List.mem_insertionSort, List.mem_map]
  constructor
  · rintro ⟨row, hrow, rfl⟩
    obtain ⟨hrow, hcond⟩ := List.mem_filter.mp hrow
    rw [Bool.and_eq_true, Bool.and_eq_true, decide_eq_true_eq, decide_eq_true_eq] at hcond
    obtain ⟨n, hn, hle⟩ := (Option.any_eq_true _ _).mp hcond.2
    exact ⟨n, of_decide_eq_true hle, row, hrow, hcond.1.1, hcond.1.2, rfl, hn⟩
  · rintro ⟨n, hle, row, hrow, hk, hst, rfl, hn⟩
    refine ⟨row, List.mem_filter.mpr ⟨hrow, ?_⟩, rfl⟩
    rw [hn, Bool.and_eq_true, Bool.and_eq_true, decide_eq_true_eq, decide_eq_true_eq]
    exact ⟨⟨hk, hst⟩, decide_eq_true hle⟩

theorem nodup_sourceSpans_keys {revision : ℕ} :
    ((c.sourceSpans k revision).map fun s => (s.traceId, s.spanId)).Nodup :=
  nodup_callSpans_keys _ List.filter_sublist

theorem pairwise_sourceRecordings {revision : ℕ} :
    (c.sourceRecordings k revision).Pairwise (·.recordingId < ·.recordingId) := by
  refine pairwise_recordings (k := k) _ List.filter_sublist fun x hx => ?_
  have := (List.mem_filter.mp hx).2
  rw [Bool.and_eq_true, Bool.and_eq_true, decide_eq_true_eq] at this
  exact this.1.1

/-- A read at the revision finds what the claim took. -/
structure ReadsBack (c : Catalog) (v : CallRevision) (claim : CallClaim) : Prop where
  spans : ((c.sourceSpans v.callKey v.revision).map fun s => (s.traceId, s.spanId)).Perm
    claim.spanKeys
  recordings : c.sourceRecordings v.callKey v.revision = claim.recordings
  spanCount : v.spanCount = (c.sourceSpans v.callKey v.revision).length
  recordingCount : v.recordingCount = (c.sourceRecordings v.callKey v.revision).length

end Catalog

/-- Every claim of every run is listed. -/
theorem listed_worldAfter (S : CallStore) (ops : List Op) :
    ∀ claim ∈ (worldAfter S ops).claims, claim.Listed := by
  refine Transition.run_invariant (P := fun w : World => ∀ claim ∈ w.claims, claim.Listed)
    (fun w op w' hw h => ?_) ops _ (fun _ h => absurd h List.not_mem_nil)
  cases hcloses : op.closes with
  | false => rwa [(past_of_step h hcloses).1]
  | true =>
      cases op with
      | claim uploading now =>
          obtain ⟨claim?, hrun, hclaims, -⟩ := step_claim_eq_some h
          rw [hclaims]
          intro claim hmem
          rcases List.mem_append.mp hmem with hnew | hold
          · obtain ⟨d, -, ⟨rfl, -⟩ | ⟨r, preset, -, -, -, -, -, rfl, -⟩⟩ := Catalog.claim_cases hrun
            · exact absurd hnew List.not_mem_nil
            · obtain rfl := List.mem_singleton.mp hnew
              exact Catalog.listed_claimOf
          · exact hw claim hold
      | finish claim now => rwa [(step_finish_eq_some h).2.2.1]
      | fail claim code now => rwa [(step_fail_eq_some h).2.2.1]
      | _ => cases hcloses

/-- A claim that settled as a revision is what is marked up to its number. -/
theorem Tracked.reads (ht : Tracked w k) {claim : CallClaim} (hlisted : claim.Listed)
    (hmem : (claim, .revision) ∈ w.settled) (hk : claim.key = k) :
    ((w.catalog.sourceSpans k claim.revision).map fun s => (s.traceId, s.spanId)).Perm
        claim.spanKeys ∧
      w.catalog.sourceRecordings k claim.revision = claim.recordings := by
  have hitems := ht.sound.faithful.stored_items claim.snapshot ⟨claim, hmem, hk, rfl⟩
  constructor
  · refine (List.perm_ext_iff_of_nodup Catalog.nodup_sourceSpans_keys hlisted.spanKeys).mpr ?_
    rintro ⟨t, x⟩
    rw [Catalog.mem_sourceSpans_keys]
    exact (hitems (.span t x)).symm
  · have hne : ∀ {l : List Recording}, l.Pairwise (·.recordingId < ·.recordingId) → l.Nodup :=
      fun h => h.imp fun hlt heq => absurd (congrArg Recording.recordingId heq) hlt.ne
    have hperm : (w.catalog.sourceRecordings k claim.revision).Perm claim.recordings := by
      refine (List.perm_ext_iff_of_nodup (hne Catalog.pairwise_sourceRecordings)
        (hne hlisted.recordings)).mpr fun x => ?_
      rw [Catalog.mem_sourceRecordings]
      exact (hitems (.recording x)).symm
    exact hperm.eq_of_pairwise (fun a b _ _ hab hba => absurd hab (lt_asymm hba))
      Catalog.pairwise_sourceRecordings hlisted.recordings

/-- **A stored revision's evidence can be read back for ever.** A claim
settled as the revision, and whichever did, a read at the revision finds
the claim's spans and recordings, as many as the revision counts. -/
theorem revision_readBack (S : CallStore) (ops : List Op) (v : CallRevision)
    (hv : v ∈ (worldAfter S ops).catalog.callRevisions)
    (hops : ∀ op ∈ ops, op.purges v.callKey = false) :
    (∃ claim, (claim, .revision) ∈ (worldAfter S ops).settled ∧ claim.key = v.callKey ∧
      claim.revision = v.revision) ∧
    ∀ claim, (claim, .revision) ∈ (worldAfter S ops).settled → claim.key = v.callKey →
      claim.revision = v.revision → (worldAfter S ops).catalog.ReadsBack v claim := by
  have ht := tracked_worldAfter S v.callKey ops hops
  have hreads : ∀ claim, (claim, .revision) ∈ (worldAfter S ops).settled → claim.key = v.callKey →
      claim.revision = v.revision → _ ∧ _ := fun claim hmem hk hrev =>
    hrev ▸ ht.reads (listed_worldAfter S ops claim (ht.settled_mem _ hmem)) hmem hk
  obtain ⟨claim₀, now, hmem₀, hv₀⟩ := ht.revises.settled v hv rfl
  have hk₀ : claim₀.key = v.callKey := by
    rw [hv₀]
    rfl
  have hrev₀ : claim₀.revision = v.revision := by
    rw [hv₀]
    rfl
  obtain ⟨hspans₀, hrecordings₀⟩ := hreads claim₀ hmem₀ hk₀ hrev₀
  refine ⟨⟨claim₀, hmem₀, hk₀, hrev₀⟩, fun claim hmem hk hrev => ?_⟩
  obtain ⟨hspans, hrecordings⟩ := hreads claim hmem hk hrev
  refine ⟨hspans, hrecordings, ?_, ?_⟩
  · rw [← List.length_map (fun s : Span => (s.traceId, s.spanId)), hspans₀.length_eq, hv₀]
    rfl
  · rw [hrecordings₀, hv₀]
    rfl

theorem revision_readBack_closedRun :
    ∃ v ∈ (worldAfter plainStore closedRun).catalog.callRevisions, ∃ claim,
      (worldAfter plainStore closedRun).catalog.ReadsBack v claim := by
  have hmem : (worldAfter plainStore closedRun).catalog.callRevisions.rows.head (by decide) ∈
      (worldAfter plainStore closedRun).catalog.callRevisions := List.head_mem _
  obtain ⟨⟨claim, hsettled, hk, hrev⟩, hreads⟩ :=
    revision_readBack plainStore closedRun _ hmem (by decide)
  exact ⟨_, hmem, claim, hreads claim hsettled hk hrev⟩

/-! ## The history is linear -/

/-- The stored revisions of a call. -/
def Catalog.revisionsOf (c : Catalog) (k : CallKey) : List CallRevision :=
  c.callRevisions.rows.filter (·.callKey = k)

theorem Catalog.mem_revisionsOf {c : Catalog} {v : CallRevision} :
    v ∈ c.revisionsOf k ↔ v ∈ c.callRevisions ∧ v.callKey = k := by
  rw [revisionsOf, List.mem_filter, decide_eq_true_eq, Table.mem_def]

/-- Of one call, a revision number names one revision. -/
theorem Catalog.eq_of_mem_revisionsOf {c : Catalog} {v v' : CallRevision}
    (hv : v ∈ c.revisionsOf k) (hv' : v' ∈ c.revisionsOf k) (h : v.revision = v'.revision) :
    v = v' := by
  obtain ⟨hv, hk⟩ := mem_revisionsOf.mp hv
  obtain ⟨hv', hk'⟩ := mem_revisionsOf.mp hv'
  obtain ⟨hp, hid⟩ := Prod.mk.inj (hk.trans hk'.symm)
  exact Table.eq_of_key_eq hv hv' (Prod.ext hp (Prod.ext hid h))

/-- A row and a snapshot are one revision. -/
structure CallRevision.Is (v : CallRevision) (s : Snapshot Item) : Prop where
  revision : s.revision = v.revision
  final : s.final = true ↔ v.finality = .final
  first : s.first = true ↔ v.closeReason = .endSignal

theorem Catalog.revisionRow_is {claim : CallClaim} {now : UnixNano} :
    (revisionRow claim now).Is claim.snapshot where
  revision := rfl
  final := finality_revisionRow.symm
  first := beq_iff_eq

theorem Tracked.exists_snapshot (ht : Tracked w k) {v : CallRevision}
    (hv : v ∈ w.catalog.revisionsOf k) : ∃ s ∈ (w.ledger k).stored, v.Is s := by
  obtain ⟨hv, hk⟩ := Catalog.mem_revisionsOf.mp hv
  obtain ⟨claim, now, hmem, rfl⟩ := ht.revises.settled v hv hk
  exact ⟨claim.snapshot, ⟨claim, hmem, hk, rfl⟩, Catalog.revisionRow_is⟩

theorem Tracked.exists_revision (ht : Tracked w k) {s : Snapshot Item}
    (hs : s ∈ (w.ledger k).stored) : ∃ v ∈ w.catalog.revisionsOf k, v.Is s := by
  obtain ⟨claim, hmem, hk, rfl⟩ := hs
  obtain ⟨now, hrow⟩ := ht.revises.stored claim hmem hk
  exact ⟨_, Catalog.mem_revisionsOf.mpr ⟨hrow, hk⟩, Catalog.revisionRow_is⟩

/-- **The revisions of a call are one bounded line.** -/
structure RevisionHistory (S : CallStore) (w : World) (r : Call) : Prop where
  /-- Numbered without gap or duplicate. -/
  numbered : ((w.catalog.revisionsOf r.key).map (·.revision)).Perm
    (List.range' 1 (r.latestRevision.getD 0))
  /-- No claim commits two outcomes. -/
  settled_once : ((w.settled.filter (·.1.key = r.key)).map (·.1.leaseToken)).Nodup
  /-- A claim whose lease was taken over commits none. -/
  fenced : ∀ claim, claim.key = r.key → claim.leaseToken ≠ r.leaseToken → ∀ code now,
    step S w (.finish claim now) = none ∧ step S w (.fail claim code now) = none
  /-- Final from the first final one on. -/
  final_up : ∀ v ∈ w.catalog.revisionsOf r.key, ∀ v' ∈ w.catalog.revisionsOf r.key,
    v.finality = .final → v.revision ≤ v'.revision → v'.finality = .final
  end_signal : ∀ v ∈ w.catalog.revisionsOf r.key, v.closeReason = .endSignal ↔
    v.finality = .final ∧
      ∀ v' ∈ w.catalog.revisionsOf r.key, v'.finality = .final → v.revision ≤ v'.revision
  one_end_signal : (∃ v ∈ w.catalog.revisionsOf r.key, v.finality = .final) →
    ∃! v, v ∈ w.catalog.revisionsOf r.key ∧ v.closeReason = .endSignal
  bounded : (w.catalog.revisionsOf r.key).length ≤ REVISION_CAP + 1
  /-- A revision past the cap is the first final one. -/
  past_cap : ∀ v ∈ w.catalog.revisionsOf r.key, REVISION_CAP < v.revision →
    v.closeReason = .endSignal

namespace Tracked

theorem top_eq (hr : r ∈ w.catalog.calls) : (w.ledger r.key).top = r.latestRevision.getD 0 := by
  change (w.catalog.head r.key).latest.getD 0 = _
  rw [Catalog.head_of_find? (Table.find?_of_mem hr)]
  rfl

theorem numbered (ht : Tracked w r.key) (hr : r ∈ w.catalog.calls) :
    ((w.catalog.revisionsOf r.key).map (·.revision)).Perm
      (List.range' 1 (r.latestRevision.getD 0)) := by
  have hlinear := ht.sound.linear
  have hnodup : (w.catalog.revisionsOf r.key).Nodup :=
    (w.catalog.callRevisions.nodup.of_map _).filter _
  refine (List.perm_ext_iff_of_nodup ((List.nodup_map_iff_inj_on hnodup).mpr
    fun v hv v' hv' h => Catalog.eq_of_mem_revisionsOf hv hv' h) List.nodup_range').mpr
    fun n => ?_
  rw [List.mem_map, List.mem_range'_1, ← top_eq hr]
  constructor
  · rintro ⟨v, hv, rfl⟩
    obtain ⟨s, hs, his⟩ := ht.exists_snapshot hv
    have := hlinear.pos s hs
    rw [his.revision] at this
    omega
  · rintro ⟨hpos, hlt⟩
    obtain ⟨s, hs, hsn⟩ := hlinear.exists_of_le n hpos (by omega)
    obtain ⟨v, hv, his⟩ := ht.exists_revision hs
    exact ⟨v, hv, his.revision.symm.trans hsn⟩

theorem final_up (ht : Tracked w k) {v v' : CallRevision} (hv : v ∈ w.catalog.revisionsOf k)
    (hv' : v' ∈ w.catalog.revisionsOf k) (hfin : v.finality = .final)
    (hle : v.revision ≤ v'.revision) : v'.finality = .final := by
  obtain ⟨s, hs, his⟩ := ht.exists_snapshot hv
  obtain ⟨s', hs', his'⟩ := ht.exists_snapshot hv'
  rw [← his.revision, ← his'.revision] at hle
  exact his'.final.mp (ht.sound.linear.final_up s hs s' hs' hle (his.final.mpr hfin))

theorem end_signal (ht : Tracked w k) {v : CallRevision} (hv : v ∈ w.catalog.revisionsOf k) :
    v.closeReason = .endSignal ↔ v.finality = .final ∧
      ∀ v' ∈ w.catalog.revisionsOf k, v'.finality = .final → v.revision ≤ v'.revision := by
  obtain ⟨s, hs, his⟩ := ht.exists_snapshot hv
  rw [← his.first, ht.sound.linear.first_iff s hs, his.final, his.revision]
  refine and_congr_right fun _ => ⟨fun hall v' hv' hfin => ?_, fun hall s' hs' hfin => ?_⟩
  · obtain ⟨s', hs', his'⟩ := ht.exists_snapshot hv'
    exact his'.revision ▸ hall s' hs' (his'.final.mpr hfin)
  · obtain ⟨v', hv', his'⟩ := ht.exists_revision hs'
    exact his'.revision ▸ hall v' hv' (his'.final.mp hfin)

theorem one_end_signal (ht : Tracked w k)
    (hfinal : ∃ v ∈ w.catalog.revisionsOf k, v.finality = .final) :
    ∃! v, v ∈ w.catalog.revisionsOf k ∧ v.closeReason = .endSignal := by
  classical
  have hex : ∃ n, ∃ v ∈ w.catalog.revisionsOf k, v.finality = .final ∧ v.revision = n := by
    obtain ⟨v, hv, hfin⟩ := hfinal
    exact ⟨v.revision, v, hv, hfin, rfl⟩
  obtain ⟨v, hv, hfin, hn⟩ := Nat.find_spec hex
  have hleast : ∀ v' ∈ w.catalog.revisionsOf k, v'.finality = .final →
      v.revision ≤ v'.revision := fun v' hv' hfin' =>
    hn ▸ Nat.find_min' hex ⟨v', hv', hfin', rfl⟩
  refine ⟨v, ⟨hv, (ht.end_signal hv).mpr ⟨hfin, hleast⟩⟩, ?_⟩
  rintro v' ⟨hv', hend⟩
  obtain ⟨hfin', hleast'⟩ := (ht.end_signal hv').mp hend
  exact Catalog.eq_of_mem_revisionsOf hv' hv
    (le_antisymm (hleast' v hv hfin) (hleast v' hv' hfin'))

theorem past_cap (ht : Tracked w k) {v : CallRevision} (hv : v ∈ w.catalog.revisionsOf k)
    (hcap : REVISION_CAP < v.revision) : v.closeReason = .endSignal := by
  obtain ⟨s, hs, his⟩ := ht.exists_snapshot hv
  have hle := (ht.sound.linear.pos s hs).2
  rw [his.revision] at hle
  rcases ht.sound.linear.bounded with hb | ⟨htop, s', hs', hrev', hfirst'⟩
  · omega
  · have hsame : s = s' := ht.sound.linear.unique s hs s' hs' (by rw [his.revision]; omega)
    exact his.first.mp (hsame ▸ hfirst')

end Tracked

/-- A claim that does not hold its call settles nothing. -/
theorem step_eq_none_of_leaseToken (hr : r ∈ w.catalog.calls) {claim : CallClaim}
    (hk : claim.key = r.key) (htok : claim.leaseToken ≠ r.leaseToken) (code : String)
    (now : UnixNano) :
    step S w (.finish claim now) = none ∧ step S w (.fail claim code now) = none := by
  have hfind : w.catalog.calls.find? claim.key = some r := hk ▸ Table.find?_of_mem hr
  constructor
  · by_contra hne
    obtain ⟨w', h⟩ := Option.ne_none_iff_exists'.mp hne
    obtain ⟨-, hrun, -⟩ := step_finish_eq_some h
    obtain ⟨r', hr', htok', -⟩ := Catalog.finish_cases hrun
    obtain rfl := Option.some.inj (hfind.symm.trans hr')
    exact htok htok'.symm
  · by_contra hne
    obtain ⟨w', h⟩ := Option.ne_none_iff_exists'.mp hne
    obtain ⟨-, hrun, -⟩ := step_fail_eq_some h
    obtain ⟨r', hr', htok', -⟩ := Catalog.fail_eq_some hrun
    obtain rfl := Option.some.inj (hfind.symm.trans hr')
    exact htok htok'.symm

/-- **Revision history is linear and fenced**, after every run that does
not purge the call. -/
theorem revisionHistory (S : CallStore) (ops : List Op) (r : Call)
    (hr : r ∈ (worldAfter S ops).catalog.calls) (hops : ∀ op ∈ ops, op.purges r.key = false) :
    RevisionHistory S (worldAfter S ops) r := by
  have ht := tracked_worldAfter S r.key ops hops
  have hlength : ((worldAfter S ops).catalog.revisionsOf r.key).length =
      ((worldAfter S ops).ledger r.key).top := by
    have := (ht.numbered hr).length_eq
    rwa [List.length_map, List.length_range', ← Tracked.top_eq hr] at this
  refine ⟨ht.numbered hr, ht.sound.leases.settled_nodup,
    fun claim hk htok code now => step_eq_none_of_leaseToken hr hk htok code now,
    fun v hv v' hv' => ht.final_up hv hv', fun v hv => ht.end_signal hv, ht.one_end_signal, ?_,
    fun v hv => ht.past_cap hv⟩
  rw [hlength]
  rcases ht.sound.linear.bounded with hb | ⟨htop, -⟩ <;> omega

theorem revisionHistory_closedRun :
    ∃ r ∈ (worldAfter plainStore closedRun).catalog.calls, r.latestRevision = some 1 ∧
      RevisionHistory plainStore (worldAfter plainStore closedRun) r := by
  have hmem : (worldAfter plainStore closedRun).catalog.calls.rows.head (by decide) ∈
      (worldAfter plainStore closedRun).catalog.calls := List.head_mem _
  exact ⟨_, hmem, by decide, revisionHistory plainStore closedRun _ hmem (by decide)⟩

end Earshot
