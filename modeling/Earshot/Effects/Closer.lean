import Earshot.Effects.Evidence
import Earshot.Calls.System
/-!
# What recordings, closers and purges do to the catalog

One lemma for each operation that says all it can have done when it
committed (`…_eq_some`, `…_cases`), guards included.
-/

namespace Earshot

open Relational

namespace Catalog

variable {S : CallStore} {c c' d : Catalog} {p : ProjectId} {now : UnixNano}

/-! ## Recordings -/

/-- The call a recording's key names is there already, or is created. -/
theorem createRecording_cases {manifest : RecordingManifest} {result : CreateResult}
    (h : c.createRecording S p manifest now = some (c', result)) :
    c' = c ∨ c' = c.bumpCounter p .purgedCallEvidenceDropped 1 ∨
    (c.tombstoned p (S.keyFingerprint p manifest.sessionKey) now = false ∧
      c.recordings.find? (p, manifest.recordingId) = none ∧
      ∃ c₁, c.insertCalls p [c.recordingTarget S p manifest.sessionKey now] .full
          (some (S.closeDue .open false now)) = some c₁ ∧
        c' = { c₁ with
          recordings := c₁.recordings.insert (pendingRecording p manifest
            (c.recordingTarget S p manifest.sessionKey now).callId now) }) := by
  rw [createRecording, Option.bind_eq_bind, Option.bind_eq_some_iff] at h
  obtain ⟨preset, -, h⟩ := h
  split at h
  · cases h
  · split at h
    · dsimp only at h
      split at h
      · cases h
      · exact Or.inl (congrArg Prod.fst (Option.some.inj h)).symm
    · rename_i hnone
      rw [Option.bind_eq_bind, Option.bind_eq_some_iff] at h
      obtain ⟨⟨c₁, callId?⟩, hcall, h⟩ := h
      rw [recordingCall] at hcall
      split at hcall
      · obtain ⟨rfl, rfl⟩ := Prod.mk.inj (Option.some.inj hcall)
        exact Or.inr (Or.inl (congrArg Prod.fst (Option.some.inj h)).symm)
      · rename_i htomb
        obtain ⟨c₂, h₂, heq⟩ := Option.map_eq_some_iff.mp hcall
        obtain ⟨rfl, rfl⟩ := Prod.mk.inj heq
        dsimp only at h
        split at h
        · cases h
        · exact Or.inr (Or.inr ⟨by simpa using htomb, hnone, c₂, h₂,
            (congrArg Prod.fst (Option.some.inj h)).symm⟩)

/-- Only a pending recording is stored. -/
theorem finishUpload_eq_some {recordingId : String} {upload : Upload}
    (h : c.finishUpload S p recordingId upload now = some c') :
    ∃ row, c.recordings.find? (p, recordingId) = some row ∧ row.state = .pending ∧
      c' = { c with
        recordings := c.recordings.patch (storeRecording row.key upload now)
          (storeRecording_key row.key upload now) }.addCallEvidence S row.callKey
        { spans := 0, recordings := 1, endMarker := false, tailSpans := 0 } now := by
  rw [finishUpload, Option.bind_eq_bind, Option.bind_eq_some_iff] at h
  obtain ⟨preset, -, h⟩ := h
  rw [Option.bind_eq_bind, Option.bind_eq_some_iff] at h
  obtain ⟨row, hrow, h⟩ := h
  rw [Option.filter_eq_some_iff, decide_eq_true_eq] at hrow
  exact ⟨row, hrow.1, hrow.2, (Option.some.inj h).symm⟩

/-! ## Setting aside -/

/-- Some calls were set aside; nothing else happened. -/
structure Aside (c d : Catalog) : Prop where
  tables : d = { c with calls := d.calls }
  calls : ∀ k, d.calls.find? k = c.calls.find? k ∨
    d.calls.find? k = (c.calls.find? k).map Call.setAside

theorem Aside.onlyCalls (h : Aside c d) : OnlyCalls c d := by
  rw [h.tables]
  exact ⟨rfl, rfl, rfl, rfl, rfl, rfl, rfl, rfl⟩

theorem setAsideBroken_aside {uploading : List CallKey} {r? : Option Call} (fuel : ℕ)
    (h : c.setAsideBroken S now uploading fuel = (d, r?)) :
    Aside c d ∧ ∀ r, r? = some r → d.nextClaimable S now uploading = some r ∧
      d.revisionStored r = false := by
  have hrefl : ∀ c : Catalog, Aside c c := fun c => ⟨rfl, fun k => Or.inl rfl⟩
  induction fuel generalizing c with
  | zero =>
      obtain ⟨rfl, rfl⟩ := Prod.mk.inj h
      exact ⟨hrefl c, fun r hr => by cases hr⟩
  | succ fuel ih =>
      rw [setAsideBroken] at h
      split at h
      · obtain ⟨rfl, rfl⟩ := Prod.mk.inj h
        exact ⟨hrefl c, fun r hr => by cases hr⟩
      · rename_i r hr
        split at h
        · obtain ⟨haside, hnext⟩ := ih h
          refine ⟨⟨haside.tables, fun k => ?_⟩, hnext⟩
          have hone : (c.setAside r.key).calls.find? k = c.calls.find? k ∨
              (c.setAside r.key).calls.find? k = (c.calls.find? k).map Call.setAside := by
            by_cases hk : k = r.key
            · rw [hk]
              exact Or.inr (find?_updateCall_self _ _)
            · exact Or.inl (find?_updateCall_of_ne _ _ hk)
          rcases haside.calls k with hd | hd
          · rw [hd]
            exact hone
          · rcases hone with h₁ | h₁
            · rw [hd, h₁]
              exact Or.inr rfl
            · rw [hd, h₁, Option.map_map]
              exact Or.inr rfl
        · rename_i hstored
          obtain ⟨rfl, rfl⟩ := Prod.mk.inj h
          refine ⟨hrefl c, fun r' hr' => ?_⟩
          obtain rfl := Option.some.inj hr'
          exact ⟨hr, by simpa using hstored⟩

/-! ## Claims -/

/-- What a claim requires of the call it takes. -/
theorem nextClaimable_eq_some {uploading : List CallKey} {r : Call}
    (h : c.nextClaimable S now uploading = some r) :
    r ∈ c.calls ∧ c.uncapped r = true ∧ (r.pendingRevision.isSome = true ∨ r.dirty = true) ∧
      r.materializeError ≠ some CALL_INTEGRITY ∧ r.key ∉ uploading := by
  rw [nextClaimable] at h
  have hup := List.find?_some h
  have hmem := List.mem_of_find?_eq_some h
  have hclaimable : ∀ cond : Call → Bool, r ∈ ((c.calls.rows.filter fun r =>
      cond r && c.claimable now (now - S.timings.uploadHoldNano) r).insertionSort
        closesBefore).take (uploading.length + 1) →
      r ∈ c.calls ∧ cond r = true ∧ c.uncapped r = true ∧
        r.materializeError ≠ some CALL_INTEGRITY := by
    intro cond hr
    have hr' := (List.mem_insertionSort _).mp (List.mem_of_mem_take hr)
    rw [List.mem_filter, Bool.and_eq_true, claimable] at hr'
    simp only [Bool.and_eq_true, bne_iff_ne] at hr'
    exact ⟨hr'.1, hr'.2.1, hr'.2.2.1.1.2, hr'.2.2.1.1.1.2⟩
  have hnot : r.key ∉ uploading := by simpa using hup
  rcases List.mem_append.mp hmem with hr | hr
  · obtain ⟨h₁, h₂, h₃, h₄⟩ := hclaimable _ hr
    exact ⟨h₁, h₃, Or.inl h₂, h₄, hnot⟩
  · obtain ⟨h₁, h₂, h₃, h₄⟩ := hclaimable _ hr
    exact ⟨h₁, h₃, Or.inr (Bool.and_eq_true _ _ ▸ h₂).1, h₄, hnot⟩

/-- A claim sets broken calls aside, and takes the next claimable call of
what that leaves; a call set aside is not it. -/
theorem claim_eq_some {uploading : List CallKey} {claim? : Option CallClaim}
    (h : c.claim S now uploading = some (c', claim?)) :
    ∃ d, Aside c d ∧ ((claim? = none ∧ c' = d) ∨
      ∃ r preset, d.nextClaimable S now uploading = some r ∧ c.calls.find? r.key = some r ∧
        d.revisionStored r = false ∧
        claim? = some (d.claimOf r preset) ∧ c' = d.claimed r now) := by
  rw [claim] at h
  generalize hrun : c.setAsideBroken S now uploading c.calls.rows.length = out at h
  obtain ⟨d, r?⟩ := out
  obtain ⟨haside, hnext⟩ := setAsideBroken_aside _ hrun
  refine ⟨d, haside, ?_⟩
  cases r? with
  | none =>
      obtain ⟨rfl, rfl⟩ := Prod.mk.inj (Option.some.inj h)
      exact Or.inl ⟨rfl, rfl⟩
  | some r =>
      obtain ⟨hclaimable, hstored⟩ := hnext r rfl
      obtain ⟨hmem, -, -, herror, -⟩ := nextClaimable_eq_some hclaimable
      -- a call set aside is not claimed
      have hc : c.calls.find? r.key = some r := by
        rcases haside.calls r.key with heq | heq
        · rw [← heq, Table.find?_of_mem hmem]
        · rw [Table.find?_of_mem hmem] at heq
          obtain ⟨r₀, -, hr₀⟩ := Option.map_eq_some_iff.mp heq.symm
          rw [← hr₀] at herror
          exact absurd rfl herror
      obtain ⟨out, hout, heq⟩ := Option.map_eq_some_iff.mp h
      obtain ⟨rfl, rfl⟩ := Prod.mk.inj heq
      rw [claimCall, Option.bind_eq_bind, Option.bind_eq_some_iff] at hout
      obtain ⟨preset, -, hout⟩ := hout
      obtain rfl := Option.some.inj hout
      exact Or.inr ⟨r, preset, hclaimable, hc, hstored, rfl, rfl⟩

/-- **A claim** sets broken calls aside, and takes at most one other call,
which may be revised. -/
theorem claim_cases {uploading : List CallKey} {claim? : Option CallClaim}
    (h : c.claim S now uploading = some (c', claim?)) :
    ∃ d, Aside c d ∧ ((claim? = none ∧ c' = d) ∨
      ∃ r preset, d.calls.find? r.key = some r ∧ c.calls.find? r.key = some r ∧
        d.uncapped r = true ∧ (r.pendingRevision.isSome = true ∨ r.dirty = true) ∧
        d.revisionStored r = false ∧
        claim? = some (d.claimOf r preset) ∧ c' = d.claimed r now) := by
  obtain ⟨d, haside, hcases⟩ := claim_eq_some h
  refine ⟨d, haside, hcases.imp id ?_⟩
  rintro ⟨r, preset, hnext, hc, hstored, hclaim, hc'⟩
  obtain ⟨hmem, huncapped, hdue, -, -⟩ := nextClaimable_eq_some hnext
  exact ⟨r, preset, Table.find?_of_mem hmem, hc, huncapped, hdue, hstored, hclaim, hc'⟩

theorem find?_calls_claimed_self {r : Call} (h : c.calls.find? r.key = some r) :
    (c.claimed r now).calls.find? r.key = some (r.lease r.nextRevision now) := by
  change (c.updateCall r.key (Call.lease r.nextRevision now)
    (Call.lease_key _ _)).calls.find? r.key = _
  rw [find?_updateCall_self, h, Option.map_some]

theorem find?_calls_claimed_of_ne {r : Call} {k : CallKey} (h : k ≠ r.key) :
    (c.claimed r now).calls.find? k = c.calls.find? k :=
  find?_updateCall_of_ne (Call.lease r.nextRevision now) (Call.lease_key _ _) h

/-! ## Marks -/

theorem mem_spans_claimed {r : Call} {s : Span} :
    s ∈ (c.claimed r now).spans ↔ ∃ s₀ ∈ c.spans, c.markSpan r.key r.nextRevision s₀ = s := by
  change s ∈ c.spans.patch (c.markSpan r.key r.nextRevision) (c.markSpan_key _ _) ↔ _
  exact Table.mem_patch

theorem mem_recordings_claimed {r : Call} {x : RecordingRow} :
    x ∈ (c.claimed r now).recordings ↔
      ∃ x₀ ∈ c.recordings, markRecording r.key r.nextRevision x₀ = x := by
  change x ∈ c.recordings.patch (markRecording r.key r.nextRevision) (markRecording_key _ _) ↔ _
  exact Table.mem_patch

theorem markSpan_columns (k : CallKey) (revision : ℕ) (s : Span) :
    (c.markSpan k revision s).traceKey = s.traceKey ∧
    (c.markSpan k revision s).tail = s.tail ∧
    (c.markSpan k revision s).endMarker = s.endMarker ∧
    (c.markSpan k revision s).resourceDigest = s.resourceDigest ∧
    (c.markSpan k revision s).projectId = s.projectId := by
  unfold markSpan
  split <;> exact ⟨rfl, rfl, rfl, rfl, rfl⟩

theorem markRecording_columns (k : CallKey) (revision : ℕ) (r : RecordingRow) :
    (markRecording k revision r).toRecording = r.toRecording := by
  unfold markRecording
  split <;> rfl

/-! ## Settling -/

theorem close_eq_some {claim : CallClaim} {latest : Option ℕ}
    (h : c.close claim latest = some c') :
    ∃ r, c.calls.find? claim.key = some r ∧ r.leaseToken = claim.leaseToken ∧
      r.pendingRevision = some claim.revision ∧
      c' = c.updateCall claim.key (Call.close latest) (Call.close_key _) := by
  rw [close] at h
  split at h
  · rename_i hany
    obtain ⟨r, hr, hholds⟩ := (Option.any_eq_true _ _).mp hany
    rw [holds, Bool.and_eq_true, beq_iff_eq, beq_iff_eq] at hholds
    exact ⟨r, hr, hholds.1, hholds.2, (Option.some.inj h).symm⟩
  · cases h

/-- The catalog a finish that stores a revision leaves. -/
def finished (c : Catalog) (claim : CallClaim) (now : UnixNano) : Catalog :=
  ({ c.updateCall claim.key (Call.close (some claim.revision)) (Call.close_key _) with
      callRevisions := c.callRevisions.insert (revisionRow claim now) }.noteEvidencePastCap
    claim.key).updateCall claim.key Call.project Call.project_key

/-- **A finish** holds its call, and stores a revision unless the snapshot
was empty. -/
theorem finish_cases {claim : CallClaim} (h : c.finish claim now = some c') :
    ∃ r, c.calls.find? claim.key = some r ∧ r.leaseToken = claim.leaseToken ∧
      r.pendingRevision = some claim.revision ∧
      ((claim.isEmpty = true ∧
          c' = c.updateCall claim.key (Call.close none) (Call.close_key _)) ∨
        (claim.isEmpty = false ∧
          (∀ v ∈ c.callRevisions, v.key ≠ (revisionRow claim now).key) ∧
          c' = c.finished claim now)) := by
  rw [finish] at h
  split at h
  · rename_i hempty
    obtain ⟨r, hr, htok, hrev, heq⟩ := close_eq_some h
    exact ⟨r, hr, htok, hrev, Or.inl ⟨hempty, heq⟩⟩
  · rename_i hempty
    rw [Option.bind_eq_bind, Option.bind_eq_some_iff] at h
    obtain ⟨c₁, hclose, h⟩ := h
    rw [Option.bind_eq_some_iff] at h
    obtain ⟨c₂, hinsert, h⟩ := h
    obtain ⟨r, hr, htok, hrev, rfl⟩ := close_eq_some hclose
    rw [insertRevision] at hinsert
    split at hinsert
    · cases hinsert
    · rename_i hnew
      obtain rfl := Option.some.inj hinsert
      refine ⟨r, hr, htok, hrev, Or.inr ⟨by simpa using hempty, fun v hv heq => ?_,
        (Option.some.inj h).symm⟩⟩
      exact hnew (List.any_eq_true.mpr ⟨v, hv, by rw [Bool.or_eq_true, beq_iff_eq]; exact Or.inl heq⟩)

/-- A failure holds its call, whose revision is not stored. -/
theorem fail_eq_some {claim : CallClaim} {code : String} (h : c.fail S claim code now = some c') :
    ∃ r, c.calls.find? claim.key = some r ∧ r.leaseToken = claim.leaseToken ∧
      r.pendingRevision = some claim.revision ∧ ∃ attempts due,
        c' = c.updateCall claim.key (Call.fail attempts due code) (Call.fail_key _ _ _) := by
  rw [fail, Option.bind_eq_bind, Option.bind_eq_some_iff] at h
  obtain ⟨r, hr, h⟩ := h
  rw [Option.filter_eq_some_iff, holds, Bool.and_eq_true, Bool.and_eq_true, beq_iff_eq,
    beq_iff_eq] at hr
  exact ⟨r, hr.1, hr.2.1.1, hr.2.1.2, _, _, (Option.some.inj h).symm⟩

/-- Beside the calls, a finish writes its revision. -/
theorem onlyCalls_finished {claim : CallClaim} :
    OnlyCalls { c with callRevisions := c.callRevisions.insert (revisionRow claim now) }
      (c.finished claim now) := by
  obtain ⟨h₁, h₂, h₃, h₄, h₅, h₆, h₇, h₈⟩ := onlyCalls_noteEvidencePastCap (k := claim.key)
    (c := { c.updateCall claim.key (Call.close (some claim.revision)) (Call.close_key _) with
      callRevisions := c.callRevisions.insert (revisionRow claim now) })
  exact ⟨h₁, h₂, h₃, h₄, h₅, h₆, h₇, h₈⟩

theorem callRevisions_finished {claim : CallClaim} :
    (c.finished claim now).callRevisions = c.callRevisions.insert (revisionRow claim now) :=
  onlyCalls_finished.callRevisions

theorem find?_calls_finished_self {claim : CallClaim} {r : Call}
    (h : c.calls.find? claim.key = some r) :
    (c.finished claim now).calls.find? claim.key =
      some ((r.close (some claim.revision)).noted
        ((c.finished claim now).hasFinal claim.key)).project := by
  have hfinal : (c.finished claim now).hasFinal claim.key =
      { c.updateCall claim.key (Call.close (some claim.revision)) (Call.close_key _) with
        callRevisions := c.callRevisions.insert (revisionRow claim now) }.hasFinal claim.key :=
    hasFinal_congr callRevisions_finished claim.key
  rw [hfinal, finished, find?_updateCall_self, find?_noteEvidencePastCap_self]
  change (((c.updateCall claim.key (Call.close (some claim.revision))
    (Call.close_key _)).calls.find? claim.key).map _).map _ = _
  rw [find?_updateCall_self, h, Option.map_some, Option.map_some, Option.map_some]

theorem find?_calls_finished_of_ne {claim : CallClaim} {k : CallKey} (h : k ≠ claim.key) :
    (c.finished claim now).calls.find? k = c.calls.find? k := by
  rw [finished, find?_updateCall_of_ne _ _ h, find?_noteEvidencePastCap_of_ne h]
  exact find?_updateCall_of_ne (Call.close (some claim.revision)) (Call.close_key _) h

/-! ## Purges -/

/-- Only generations and tombstones may differ. -/
structure OnlyKeys (c c' : Catalog) : Prop where
  projects : c'.projects = c.projects
  calls : c'.calls = c.calls
  callTraces : c'.callTraces = c.callTraces
  spans : c'.spans = c.spans
  recordings : c'.recordings = c.recordings
  callRevisions : c'.callRevisions = c.callRevisions
  otlpResources : c'.otlpResources = c.otlpResources
  otlpCounters : c'.otlpCounters = c.otlpCounters

theorem onlyKeys_foldl_putTombstone (rows : List CallTombstone) :
    OnlyKeys c (rows.foldl putTombstone c) := by
  induction rows generalizing c with
  | nil => exact ⟨rfl, rfl, rfl, rfl, rfl, rfl, rfl, rfl⟩
  | cons row rows ih =>
      obtain ⟨h₁, h₂, h₃, h₄, h₅, h₆, h₇, h₈⟩ := ih (c := c.putTombstone row)
      exact ⟨h₁, h₂, h₃, h₄, h₅, h₆, h₇, h₈⟩

/-- **A purge** deletes its call, then writes keys only. -/
theorem purgeCall_eq_some {k : CallKey} (h : c.purgeCall S k now = some c') :
    ∃ r, c.calls.find? k = some r ∧
      c' = (c.purgeTombstones S r
          (now + S.timings.longQuietNano + TOMBSTONE_GRACE_NANO)).foldl putTombstone
        ((c.deleteCall k).bumpGeneration r.projectId r.keyFingerprint r.generation) ∧
      OnlyKeys (c.deleteCall k) c' := by
  rw [purgeCall, Option.bind_eq_bind, Option.bind_eq_some_iff] at h
  obtain ⟨r, hr, h⟩ := h
  obtain rfl := Option.some.inj h
  refine ⟨r, hr, rfl, ?_⟩
  obtain ⟨h₁, h₂, h₃, h₄, h₅, h₆, h₇, h₈⟩ := onlyKeys_foldl_putTombstone
    (c := (c.deleteCall k).bumpGeneration r.projectId r.keyFingerprint r.generation)
    (c.purgeTombstones S r (now + S.timings.longQuietNano + TOMBSTONE_GRACE_NANO))
  exact ⟨h₁, h₂, h₃, h₄, h₅, h₆, h₇, h₈⟩

theorem find?_calls_deleteCall {k k' : CallKey} :
    (c.deleteCall k).calls.find? k' = if k' = k then none else c.calls.find? k' := by
  change (c.calls.delete (·.key = k)).find? k' = _
  rw [Table.find?_delete]
  cases h : c.calls.find? k' with
  | none => simp
  | some r => simp [Option.filter, Table.key_of_find? h]

theorem find?_callTraces_deleteCall {k : CallKey} {t : ProjectId × TraceId} :
    (c.deleteCall k).callTraces.find? t =
      if c.bound k t = true then none else c.callTraces.find? t := by
  change (c.callTraces.delete fun r => r.projectId = k.1 && r.callId = some k.2).find? t = _
  rw [Table.find?_delete, bound]
  cases h : c.callTraces.find? t with
  | none => simp
  | some r =>
      simp only [Option.any_some, Option.filter_some]
      by_cases hr : (r.projectId = k.1 && r.callId = some k.2) = true
      · simp [hr]
      · simp [hr]

theorem mem_spans_deleteCall {k : CallKey} {s : Span} :
    s ∈ (c.deleteCall k).spans ↔ s ∈ c.spans ∧ c.bound k s.traceKey = false :=
  Table.mem_delete

theorem mem_recordings_deleteCall {k : CallKey} {r : RecordingRow} :
    r ∈ (c.deleteCall k).recordings ↔ r ∈ c.recordings ∧ r.callKey ≠ k := by
  change r ∈ c.recordings.delete (·.callKey = k) ↔ _
  rw [Table.mem_delete, decide_eq_false_iff_not]

theorem mem_callRevisions_deleteCall {k : CallKey} {v : CallRevision} :
    v ∈ (c.deleteCall k).callRevisions ↔ v ∈ c.callRevisions ∧ v.callKey ≠ k := by
  change v ∈ c.callRevisions.delete (·.callKey = k) ↔ _
  rw [Table.mem_delete, decide_eq_false_iff_not]

theorem onlyKeys_collectExpiredTombstones {limit : ℕ} :
    OnlyKeys c (c.collectExpiredTombstones now limit) :=
  ⟨rfl, rfl, rfl, rfl, rfl, rfl, rfl, rfl⟩

end Catalog

end Earshot
