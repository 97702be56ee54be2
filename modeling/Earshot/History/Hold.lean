import Earshot.Calls.Closer
import Earshot.Common.Queue
import Earshot.Effects.Closer
/-!
# The upload hold and the sweep

A pending recording holds its call until its pending deadline, and is
failed after it. The rule is written three times: as a maximum, as a
predicate of the closer's candidate reads with both sides less the hold,
and as the sweep's horizon with the deadline beside it. All three agree
(`claimable_iff`, `uploadExpired_iff`), and the closer's reads, bounded by
the number of calls with an upload in flight, find the call that is next
among all that may be claimed (`nextClaimable_spec`).
-/

namespace Earshot

open Relational

namespace Catalog

variable {S : CallStore} {c c' : Catalog} {now : UnixNano} {uploading : List CallKey}
variable {r : Call} {rec : RecordingRow}

/-- The pending deadline of a recording of the call. -/
def deadline (S : CallStore) (r : Call) (rec : RecordingRow) : UnixNano :=
  pendingDeadline rec.createdUnixNano r.lastEvidenceUnixNano r.endSignalUnixNano
    S.timings.uploadHoldNano

/-- The call may be revised: its lease is free or expired, it is not set
aside or at the cap, and its project is active. -/
structure Revisable (c : Catalog) (now : UnixNano) (r : Call) : Prop where
  leaseFree : ∀ t, r.leaseUntilUnixNano = some t → t < now
  notSetAside : r.materializeError ≠ some CALL_INTEGRITY
  uncapped : c.uncapped r = true
  projectActive : ∃ p ∈ c.projects, p.projectId = r.projectId ∧ p.active = true

/-- The call has a revision pending, or is dirty and due. -/
def Wanted (now : UnixNano) (r : Call) : Prop :=
  r.pendingRevision.isSome = true ∨
    (r.dirty = true ∧ ∃ due, r.closeDueUnixNano = some due ∧ due ≤ now)

/-- **A call that may be claimed**: wanted and revisable, with no upload in
flight and every pending recording's deadline reached. -/
structure MayClaim (S : CallStore) (c : Catalog) (now : UnixNano) (uploading : List CallKey)
    (r : Call) : Prop where
  stored : r ∈ c.calls
  wanted : Wanted now r
  revisable : c.Revisable now r
  idle : r.key ∉ uploading
  reached : ∀ rec ∈ c.recordings, rec.callKey = r.key → rec.state = .pending →
    deadline S r rec ≤ now

/-! ## One deadline -/

/-- The hold's predicate, with both sides less the hold. -/
theorem notHeld_iff {created last : UnixNano} {endSignal : Option UnixNano} {hold : ℕ} :
    (¬ (now - hold < created ∨ now - hold < last ∨ now - hold < endSignal.getD 0)) ↔
      pendingDeadline created last endSignal hold ≤ now := by
  have hless : pendingDeadline created last endSignal hold ≤ now ↔
      max (max created last) (endSignal.getD 0) ≤ now - hold := le_sub_iff_add_le.symm
  rw [hless, max_le_iff, max_le_iff, not_or, not_or, not_lt, not_lt, not_lt, and_assoc]

/-- The sweep's horizon says nothing the deadline does not. -/
theorem created_lt_of_deadline_lt {created last : UnixNano} {endSignal : Option UnixNano}
    {hold : ℕ} (h : pendingDeadline created last endSignal hold < now) : created < now - hold := by
  have hless : max (max created last) (endSignal.getD 0) < now - hold := lt_sub_iff_add_lt.mpr h
  exact (max_lt_iff.mp (max_lt_iff.mp hless).1).1

/-- **The closer's predicate is the deadline.** -/
theorem claimable_iff : c.claimable now (now - S.timings.uploadHoldNano) r = true ↔
    c.Revisable now r ∧ ∀ rec ∈ c.recordings, rec.callKey = r.key → rec.state = .pending →
      deadline S r rec ≤ now := by
  have hrec : ∀ rec : RecordingRow,
      (rec.callKey == r.key && rec.state == .pending &&
        (now - S.timings.uploadHoldNano < rec.createdUnixNano ||
          now - S.timings.uploadHoldNano < r.lastEvidenceUnixNano ||
          now - S.timings.uploadHoldNano < r.endSignalUnixNano.getD 0)) = false ↔
      (rec.callKey = r.key → rec.state = .pending → deadline S r rec ≤ now) := by
    intro rec
    rw [deadline, ← notHeld_iff, ← Bool.not_eq_true]
    simp only [Bool.and_eq_true, Bool.or_eq_true, decide_eq_true_eq, beq_iff_eq, or_assoc]
    constructor
    · exact fun hno hk hs hheld => hno ⟨⟨hk, hs⟩, hheld⟩
    · exact fun hall ⟨⟨hk, hs⟩, hheld⟩ => hall hk hs hheld
  have hlease : r.leaseUntilUnixNano.all (· < now) = true ↔
      ∀ t, r.leaseUntilUnixNano = some t → t < now := by
    cases r.leaseUntilUnixNano <;> simp
  have hproject : (c.projects.rows.any fun p => p.projectId == r.projectId && p.active) = true ↔
      ∃ p ∈ c.projects, p.projectId = r.projectId ∧ p.active = true := by
    simp [Table.mem_def]
  rw [claimable, Bool.and_eq_true, Bool.and_eq_true, Bool.and_eq_true, Bool.and_eq_true, hlease,
    hproject, bne_iff_ne, Bool.not_eq_true', List.any_eq_false]
  constructor
  · rintro ⟨⟨⟨⟨h₁, h₂⟩, h₃⟩, h₄⟩, h₅⟩
    exact ⟨⟨h₁, h₂, h₃, h₄⟩, fun rec hmem => (hrec rec).mp (Bool.not_eq_true _ ▸ h₅ rec hmem)⟩
  · rintro ⟨⟨h₁, h₂, h₃, h₄⟩, h₅⟩
    exact ⟨⟨⟨⟨h₁, h₂⟩, h₃⟩, h₄⟩, fun rec hmem =>
      Bool.not_eq_true _ ▸ (hrec rec).mpr (h₅ rec hmem)⟩

/-- **The sweep's predicate is the deadline**, passed. -/
theorem uploadExpired_iff {uploading fetching : List (ProjectId × String)}
    (hr : c.calls.find? rec.callKey = some r) :
    c.uploadExpired S now uploading fetching rec = true ↔
      rec.state = .pending ∧ rec.key ∉ fetching ∧ rec.key ∉ uploading ∧
        deadline S r rec < now := by
  rw [uploadExpired, hr]
  simp only [Bool.and_eq_true, beq_iff_eq, decide_eq_true_eq, Bool.not_eq_true',
    List.contains_eq_mem, decide_eq_false_iff_not]
  constructor
  · rintro ⟨⟨⟨⟨h₁, -⟩, h₃⟩, h₄⟩, h₅⟩
    exact ⟨h₁, h₃, h₄, h₅⟩
  · rintro ⟨h₁, h₃, h₄, h₅⟩
    exact ⟨⟨⟨⟨h₁, created_lt_of_deadline_lt h₅⟩, h₃⟩, h₄⟩, h₅⟩

/-! ## The next call -/

instance : Std.Total closesBefore.tie where
  total a b := by
    unfold closesBefore.tie
    rcases lt_trichotomy a.projectId.value b.projectId.value with h | h | h
    · exact Or.inl (Or.inl h)
    · exact (le_total a.callId b.callId).imp (fun hid => Or.inr ⟨h, hid⟩)
        fun hid => Or.inr ⟨h.symm, hid⟩
    · exact Or.inr (Or.inl h)

instance : IsTrans Call closesBefore.tie where
  trans a b d hab hbd := by
    unfold closesBefore.tie at *
    rcases hab with hab | ⟨hab, hid⟩
    · rcases hbd with hbd | ⟨hbd, -⟩
      · exact Or.inl (hab.trans hbd)
      · exact Or.inl (hbd ▸ hab)
    · rcases hbd with hbd | ⟨hbd, hid'⟩
      · exact Or.inl (hab ▸ hbd)
      · exact Or.inr ⟨hab.trans hbd, hid.trans hid'⟩

instance : Std.Total closesBefore where
  total a b := by
    have htie := Std.Total.total (r := closesBefore.tie) a b
    unfold closesBefore
    cases a.closeDueUnixNano with
    | none =>
        cases b.closeDueUnixNano with
        | none => exact htie
        | some y => exact Or.inl trivial
    | some x =>
        cases b.closeDueUnixNano with
        | none => exact Or.inr trivial
        | some y =>
            rcases lt_trichotomy x y with h | h | h
            · exact Or.inl (Or.inl h)
            · exact htie.imp (fun ht => Or.inr ⟨h, ht⟩) fun ht => Or.inr ⟨h.symm, ht⟩
            · exact Or.inr (Or.inl h)

instance : IsTrans Call closesBefore where
  trans a b d := by
    have htie := IsTrans.trans (r := closesBefore.tie) a b d
    unfold closesBefore
    cases a.closeDueUnixNano with
    | none =>
        cases b.closeDueUnixNano with
        | none =>
            cases d.closeDueUnixNano with
            | none => exact htie
            | some z => exact fun _ _ => trivial
        | some y =>
            cases d.closeDueUnixNano with
            | none => exact fun _ h => h.elim
            | some z => exact fun _ _ => trivial
    | some x =>
        cases b.closeDueUnixNano with
        | none => exact fun h => h.elim
        | some y =>
            cases d.closeDueUnixNano with
            | none => exact fun _ h => h.elim
            | some z =>
                rintro (hxy | ⟨rfl, hab⟩)
                · rintro (hyz | ⟨rfl, -⟩)
                  · exact Or.inl (hxy.trans hyz)
                  · exact Or.inl hxy
                · rintro (hyz | ⟨rfl, hbd⟩)
                  · exact Or.inl hyz
                  · exact Or.inr ⟨rfl, htie hab hbd⟩

/-- A claimable call, wanted and with no upload in flight. -/
theorem mayClaim_iff : MayClaim S c now uploading r ↔ r ∈ c.calls ∧ Wanted now r ∧
    c.claimable now (now - S.timings.uploadHoldNano) r = true ∧ r.key ∉ uploading := by
  rw [claimable_iff]
  constructor
  · rintro ⟨h₁, h₂, h₃, h₄, h₅⟩
    exact ⟨h₁, h₂, ⟨h₃, h₅⟩, h₄⟩
  · rintro ⟨h₁, h₂, ⟨h₃, h₅⟩, h₄⟩
    exact ⟨h₁, h₂, h₃, h₄, h₅⟩

/-- **The call a claim is to take**: one that may be claimed, one with a
revision pending before any other, and of its kind the least. -/
structure NextClaim (S : CallStore) (c : Catalog) (now : UnixNano) (uploading : List CallKey)
    (r : Call) : Prop where
  may : MayClaim S c now uploading r
  pendingFirst : ∀ r', MayClaim S c now uploading r' → r'.pendingRevision.isSome = true →
    r.pendingRevision.isSome = true
  least : ∀ r', MayClaim S c now uploading r' →
    (r.pendingRevision.isSome = true → r'.pendingRevision.isSome = true) →
      r' = r ∨ closesBefore r r'

/-- What the read of the calls with a revision pending admits. -/
def pendingCandidate (S : CallStore) (c : Catalog) (now : UnixNano) (r : Call) : Bool :=
  r.pendingRevision.isSome && c.claimable now (now - S.timings.uploadHoldNano) r

/-- What the read of the dirty calls that are due admits. -/
def dueCandidate (S : CallStore) (c : Catalog) (now : UnixNano) (r : Call) : Bool :=
  (r.dirty && r.closeDueUnixNano.any (· ≤ now)) &&
    c.claimable now (now - S.timings.uploadHoldNano) r

/-- The two candidate reads are bounded reads of the queue of calls. -/
theorem nextClaimable_eq : c.nextClaimable S now uploading =
    ((Queue.read closesBefore c.calls.rows (c.pendingCandidate S now)
        (uploading.length + 1)).find? (Queue.free Call.key uploading)).or
      ((Queue.read closesBefore c.calls.rows (c.dueCandidate S now)
        (uploading.length + 1)).find? (Queue.free Call.key uploading)) := by
  have hfree : (fun r : Call => !uploading.contains r.key) = Queue.free Call.key uploading := by
    funext r
    rw [Bool.eq_iff_iff, Queue.free_iff]
    simp
  rw [← List.find?_append, ← hfree]
  rfl

theorem mayClaim_of_pending (hr : r ∈ c.calls) (hc : c.pendingCandidate S now r = true)
    (hidle : r.key ∉ uploading) : MayClaim S c now uploading r := by
  rw [pendingCandidate, Bool.and_eq_true] at hc
  exact mayClaim_iff.mpr ⟨hr, Or.inl hc.1, hc.2, hidle⟩

theorem mayClaim_of_due (hr : r ∈ c.calls) (hc : c.dueCandidate S now r = true)
    (hidle : r.key ∉ uploading) : MayClaim S c now uploading r := by
  rw [dueCandidate, Bool.and_eq_true, Bool.and_eq_true] at hc
  have hdue : ∃ due, r.closeDueUnixNano = some due ∧ due ≤ now := by
    cases hd : r.closeDueUnixNano with
    | none => rw [hd] at hc; cases hc.1.2
    | some due => rw [hd] at hc; exact ⟨due, rfl, of_decide_eq_true hc.1.2⟩
  exact mayClaim_iff.mpr ⟨hr, Or.inr ⟨hc.1.1, hdue⟩, hc.2, hidle⟩

/-- A call that may be claimed is a candidate of one of the reads. -/
theorem MayClaim.candidate (h : MayClaim S c now uploading r) :
    c.pendingCandidate S now r = true ∨ c.dueCandidate S now r = true := by
  obtain ⟨-, hwanted, hclaimable, -⟩ := mayClaim_iff.mp h
  rw [pendingCandidate, dueCandidate, hclaimable, Bool.and_true, Bool.and_true]
  refine hwanted.imp id fun ⟨hdirty, due, hdue, hle⟩ => ?_
  rw [hdirty, hdue, Bool.true_and]
  exact decide_eq_true hle

/-- **The bounded reads choose the next call of all.** -/
theorem nextClaimable_spec (S : CallStore) (c : Catalog) (now : UnixNano)
    (uploading : List CallKey) :
    (c.nextClaimable S now uploading = none ↔ ∀ r, ¬ MayClaim S c now uploading r) ∧
      ∀ r, c.nextClaimable S now uploading = some r → NextClaim S c now uploading r := by
  have hnd : (c.calls.rows.map Call.key).Nodup := c.calls.nodup
  rw [nextClaimable_eq]
  constructor
  · rw [Option.or_eq_none_iff, Queue.find?_read_eq_none hnd, Queue.find?_read_eq_none hnd]
    constructor
    · rintro ⟨hpending, hdue⟩ r hmay
      rcases hmay.candidate with hc | hc
      · exact hmay.idle (hpending r hmay.stored hc)
      · exact hmay.idle (hdue r hmay.stored hc)
    · intro hno
      constructor
      · intro r hr hc
        by_contra hidle
        exact hno r (mayClaim_of_pending hr hc hidle)
      · intro r hr hc
        by_contra hidle
        exact hno r (mayClaim_of_due hr hc hidle)
  · intro r h
    rcases Option.or_eq_some_iff.mp h with hpending | ⟨hnone, hdue⟩
    · obtain ⟨hr, hc, hidle, hleast⟩ := Queue.find?_read_eq_some hnd hpending
      have hisSome : r.pendingRevision.isSome = true := ((Bool.and_eq_true _ _).mp hc).1
      refine ⟨mayClaim_of_pending hr hc hidle, fun _ _ _ => hisSome, fun r' hmay hkind => ?_⟩
      obtain ⟨-, -, hclaimable, -⟩ := mayClaim_iff.mp hmay
      refine hleast r' hmay.stored ?_ hmay.idle
      rw [pendingCandidate, hkind hisSome, hclaimable, Bool.and_self]
    · obtain ⟨hr, hc, hidle, hleast⟩ := Queue.find?_read_eq_some hnd hdue
      -- nothing that may be claimed has a revision pending
      have hno : ∀ r', MayClaim S c now uploading r' → c.pendingCandidate S now r' ≠ true := by
        intro r' hmay hc'
        exact hmay.idle ((Queue.find?_read_eq_none hnd).mp hnone r' hmay.stored hc')
      refine ⟨mayClaim_of_due hr hc hidle, fun r' hmay hsome => ?_, fun r' hmay _ => ?_⟩
      · obtain ⟨-, -, hclaimable, -⟩ := mayClaim_iff.mp hmay
        refine absurd ?_ (hno r' hmay)
        rw [pendingCandidate, hsome, hclaimable, Bool.and_self]
      · exact hleast r' hmay.stored (hmay.candidate.resolve_left (hno r' hmay)) hmay.idle

/-! ## What is claimed, and what is failed -/

/-- A claimed call may be claimed as it stands in the catalog, but for the
calls set aside before it. -/
theorem mayClaim_of_claim {claim : CallClaim}
    (h : c.claim S now uploading = some (c', some claim)) :
    ∃ r, r.key = claim.key ∧ c.calls.find? claim.key = some r ∧
      ∃ d, Aside c d ∧ MayClaim S d now uploading r := by
  obtain ⟨d, haside, ⟨hnone, -⟩ | ⟨r, preset, hnext, hr, -, hclaim, -⟩⟩ := claim_eq_some h
  · cases hnone
  · obtain rfl := Option.some.inj hclaim
    exact ⟨r, rfl, hr, d, haside, ((nextClaimable_spec S d now uploading).2 r hnext).may⟩

/-- The sweep fails the recordings it finds expired. -/
theorem find?_failStaleUploads {uploading fetching : List (ProjectId × String)}
    (k : ProjectId × String) :
    (c.failStaleUploads S now uploading fetching).recordings.find? k =
      (c.recordings.find? k).map (c.failRecording S now uploading fetching) := by
  rw [failStaleUploads, Table.find?_patch]

theorem expired_of_failed {uploading fetching : List (ProjectId × String)} {k : ProjectId × String}
    {rec' : RecordingRow} (hrec : c.recordings.find? k = some rec) (hstate : rec.state ≠ .failed)
    (hfailed : (c.failStaleUploads S now uploading fetching).recordings.find? k = some rec')
    (hstate' : rec'.state = .failed) :
    c.uploadExpired S now uploading fetching rec = true := by
  rw [find?_failStaleUploads, hrec, Option.map_some, Option.some.injEq] at hfailed
  by_contra hno
  rw [failRecording, if_neg hno] at hfailed
  rw [hfailed] at hstate
  exact hstate hstate'

end Catalog

/-- **The upload hold and the sweep agree** on the deadline of each pending
recording, at one time and with one set of attempts in flight. -/
structure HoldsAgree (S : CallStore) (c : Catalog) (now : UnixNano)
    (inFlight : List UploadInFlight) (fetching : List (ProjectId × String)) : Prop where
  /-- A claimed call has no upload in flight, and each of its pending
  recordings has reached its deadline. -/
  claimed : ∀ c' claim, c.claim S now (uploadingCalls inFlight) = some (c', some claim) →
    (∀ u ∈ inFlight, u.callKey ≠ claim.key) ∧
      ∃ r, c.calls.find? claim.key = some r ∧ ∀ rec ∈ c.recordings, rec.callKey = claim.key →
        rec.state = .pending → Catalog.deadline S r rec ≤ now
  /-- A recording is failed past its deadline, with no attempt on it in
  flight and no live fetch job. -/
  failed : ∀ k rec rec', c.recordings.find? k = some rec → rec.state ≠ .failed →
    (c.failStaleUploads S now (uploadingRecordings inFlight) fetching).recordings.find? k =
      some rec' → rec'.state = .failed →
    rec.state = .pending ∧ k ∉ fetching ∧ (∀ u ∈ inFlight, u.recordingKey ≠ k) ∧
      ∃ r, c.calls.find? rec.callKey = some r ∧ Catalog.deadline S r rec < now
  /-- The closer's predicate is the deadline, reached. -/
  closer : ∀ r, c.claimable now (now - S.timings.uploadHoldNano) r = true ↔
    c.Revisable now r ∧ ∀ rec ∈ c.recordings, rec.callKey = r.key → rec.state = .pending →
      Catalog.deadline S r rec ≤ now
  /-- The sweep's is the deadline, passed. -/
  sweep : ∀ rec r, c.calls.find? rec.callKey = some r →
    (c.uploadExpired S now (uploadingRecordings inFlight) fetching rec = true ↔
      rec.state = .pending ∧ rec.key ∉ fetching ∧ rec.key ∉ uploadingRecordings inFlight ∧
        Catalog.deadline S r rec < now)
  /-- The bounded reads find a call whenever one may be claimed … -/
  finds : c.nextClaimable S now (uploadingCalls inFlight) = none ↔
    ∀ r, ¬ Catalog.MayClaim S c now (uploadingCalls inFlight) r
  /-- … and the one that is next of all. -/
  next : ∀ r, c.nextClaimable S now (uploadingCalls inFlight) = some r →
    Catalog.NextClaim S c now (uploadingCalls inFlight) r

/-- **The upload hold and the sweep agree**, in every state every run
reaches, at every time, whatever is being uploaded and fetched. -/
theorem holdsAgree_worldAfter (S : CallStore) (ops : List Op) (now : UnixNano)
    (inFlight : List UploadInFlight) (fetching : List (ProjectId × String)) :
    HoldsAgree S (worldAfter S ops).catalog now inFlight fetching where
  claimed c' claim h := by
    obtain ⟨r, hkey, hr, d, haside, hmay⟩ := Catalog.mayClaim_of_claim h
    refine ⟨fun u hu huk => hmay.idle ?_, r, hr, fun rec hrec hk hstate => ?_⟩
    · exact mem_uploadingCalls.mpr ⟨u, hu, huk.trans hkey.symm⟩
    · refine hmay.reached rec ?_ (hk.trans hkey.symm) hstate
      rw [haside.tables]
      exact hrec
  failed k rec rec' hrec hstate hrec' hstate' := by
    have hexpired := Catalog.expired_of_failed hrec hstate hrec' hstate'
    have hkey := Table.key_of_find? hrec
    cases hr : (worldAfter S ops).catalog.calls.find? rec.callKey with
    | none =>
        rw [Catalog.uploadExpired, hr] at hexpired
        cases hexpired
    | some r =>
        obtain ⟨hpending, hfetching, huploading, hpast⟩ :=
          (Catalog.uploadExpired_iff hr).mp hexpired
        rw [show rec.key = k from hkey] at hfetching huploading
        refine ⟨hpending, hfetching, fun u hu huk => huploading ?_, r, rfl, hpast⟩
        exact mem_uploadingRecordings.mpr ⟨u, hu, huk⟩
  closer r := Catalog.claimable_iff
  sweep rec r hr := Catalog.uploadExpired_iff hr
  finds := (Catalog.nextClaimable_spec S _ now _).1
  next r h := (Catalog.nextClaimable_spec S _ now _).2 r h

end Earshot
