import Earshot.Effects.Rows
/-!
# Evidence past the revision cap

A dirty call that may be revised no more is flagged, a flagged call is
dirty or pending (`CapKept`), and a project's `revision_cap_reached` is
the number of its calls that were ever flagged (`CapLedger`). The row's
`revision_cap_counted` carries the count over a flag that is cleared and
set again; the log of incarnations seen flagged carries it over purges.
-/

namespace Earshot

open Relational

variable {S : CallStore} {c c' d : Catalog} {p : ProjectId} {now : UnixNano} {k k' : CallKey}
variable {r : Call} {final : Bool}

/-! ## Rows -/

/-- What holds of a row before its call is looked at for evidence past the
cap. -/
structure Call.CapNear (final : Bool) (r : Call) : Prop where
  pending : r.pendingRevision.isSome = true → r.uncapped final = true
  announced : r.evidenceAfterLatestRevision = true →
    r.dirty = true ∨ r.pendingRevision.isSome = true
  counted : r.evidenceAfterLatestRevision = true → r.revisionCapCounted = true

/-- **Evidence past the cap is flagged**, and a flag announced. -/
structure Call.CapKept (final : Bool) (r : Call) : Prop extends CapNear final r where
  flagged : r.dirty = true → r.uncapped final = false → r.evidenceAfterLatestRevision = true

namespace Call

/-- Looking at a call flags what should be. -/
theorem CapNear.noted (h : CapNear final r) : CapKept final (r.noted final) := by
  unfold Call.noted
  split
  · rename_i hnote
    simp only [Bool.and_eq_true, Bool.not_eq_true'] at hnote
    exact ⟨⟨h.pending, fun _ => Or.inl hnote.1.1, fun _ => rfl⟩, fun _ _ => rfl⟩
  · rename_i hno
    refine ⟨h, fun hdirty hcapped => ?_⟩
    by_contra hflag
    refine hno ?_
    rw [hdirty, hcapped, Bool.eq_false_iff.mpr hflag]
    rfl

theorem uncapped_of_latest (h : r.latestRevision.any (REVISION_CAP ≤ ·) = false) :
    r.uncapped final = true := by
  rw [uncapped, Bool.or_eq_true]
  refine Or.inl ?_
  cases hl : r.latestRevision with
  | none => rfl
  | some n =>
      rw [hl, Option.any_some, decide_eq_false_iff_not] at h
      rw [Option.all_some, decide_eq_true_eq]
      omega

/-- An end signal can only lift the cap. -/
theorem uncapped_addEvidence {item : Evidence} (h : r.uncapped final = true) :
    (r.addEvidence S item now).uncapped final = true := by
  unfold addEvidence
  split
  · exact h
  · rw [uncapped, Bool.or_eq_true, Bool.and_eq_true] at h ⊢
    refine h.imp id (And.imp (fun hended => ?_) id)
    dsimp only
    split
    · rfl
    · exact hended

theorem CapKept.credited {item : Evidence} (h : CapKept final r) :
    CapKept final (r.credited S item now final) := by
  have hnear : CapNear final (r.addEvidence S item now) := by
    refine ⟨fun hpending => uncapped_addEvidence (h.pending ?_), ?_, ?_⟩
    · unfold addEvidence at hpending
      split at hpending <;> exact hpending
    · unfold addEvidence
      split
      · exact h.announced
      · exact fun _ => Or.inl rfl
    · unfold addEvidence
      split <;> exact h.counted
  unfold Call.credited
  split
  · exact hnear.noted
  · rename_i hcond
    rw [Bool.and_eq_true, Bool.not_eq_true'] at hcond
    refine ⟨hnear, fun hdirty hcapped => ?_⟩
    by_cases hcounted : r.countedOnly item = true
    · unfold addEvidence at hdirty hcapped ⊢
      rw [if_pos hcounted] at hdirty hcapped ⊢
      exact h.flagged hdirty hcapped
    · have hlatest : r.latestRevision.any (REVISION_CAP ≤ ·) = false := by
        by_contra hne
        exact hcond ⟨Bool.eq_false_iff.mpr hcounted, Bool.eq_true_of_not_eq_false hne⟩
      rw [uncapped_addEvidence (uncapped_of_latest hlatest)] at hcapped
      cases hcapped

end Call

/-- **Every write keeps what is past the cap flagged.** -/
theorem RowStep.capKept {x y : Bool × Call} (hx : x.2.CapKept x.1) (h : RowStep S x y) :
    y.2.CapKept y.1 := by
  cases h with
  | setAside | release => exact ⟨⟨hx.pending, hx.announced, hx.counted⟩, hx.flagged⟩
  | credit final r item now => exact hx.credited
  | lease final r now huncapped =>
      exact ⟨⟨fun _ => huncapped, fun _ => Or.inr rfl, hx.counted⟩, nofun⟩
  | discard final r hpending =>
      -- a pending revision is one the cap allows
      refine ⟨⟨nofun, nofun, nofun⟩, fun _ hcapped => ?_⟩
      have huncapped : (r.close none).uncapped final = r.uncapped final := rfl
      rw [huncapped, hx.pending hpending] at hcapped
      cases hcapped
  | finish final final' r revision hrevision =>
      have hnear : (r.close (some revision)).CapNear final' := ⟨nofun, nofun, nofun⟩
      have hnoted := hnear.noted
      exact ⟨⟨hnoted.pending, hnoted.announced, hnoted.counted⟩, hnoted.flagged⟩
  | fail final r attempts due code hpending =>
      refine ⟨⟨nofun, fun _ => Or.inl rfl, hx.counted⟩, fun _ hcapped => ?_⟩
      have huncapped : (r.fail attempts due code).uncapped final = r.uncapped final := rfl
      rw [huncapped, hx.pending hpending] at hcapped
      cases hcapped

/-- What a new call is, evidence credited or not. -/
theorem Created.new {op : Op} (h : Created S c op k r) : r.latestRevision = none ∧
    r.evidenceAfterLatestRevision = false ∧ r.revisionCapCounted = false := by
  cases h with
  | spans ht hcredit =>
      rw [Call.credited, if_neg (by simp [Catalog.newCall]), Call.addEvidence]
      split <;> exact ⟨rfl, rfl, rfl⟩
  | recording | promoted => exact ⟨rfl, rfl, rfl⟩

/-- A new call is below the cap. -/
theorem Created.capKept {op : Op} (h : Created S c op k r) : r.CapKept final := by
  obtain ⟨hlatest, hflag, -⟩ := h.new
  have huncapped : r.uncapped final = true := Call.uncapped_of_latest (by rw [hlatest]; rfl)
  have hno : r.evidenceAfterLatestRevision ≠ true := by simp [hflag]
  exact ⟨⟨fun _ => huncapped, fun h => absurd h hno, fun h => absurd h hno⟩,
    fun _ h => by simp [huncapped] at h⟩

/-- **A call is counted when it is flagged.** -/
theorem RowStep.flag_of_counted {x y : Bool × Call} (h : RowStep S x y)
    (hx : x.2.revisionCapCounted = false) (hy : y.2.revisionCapCounted = true) :
    y.2.evidenceAfterLatestRevision = true := by
  have hnoted : ∀ (final : Bool) (r : Call), r.revisionCapCounted = false →
      (r.noted final).revisionCapCounted = true →
      (r.noted final).evidenceAfterLatestRevision = true := by
    intro final r hr hn
    unfold Call.noted at hn ⊢
    split at hn
    · rename_i hcond
      rw [if_pos hcond]
      rfl
    · rw [hr] at hn
      cases hn
  have hadd : ∀ (r : Call) (item : Evidence) (now : UnixNano),
      (r.addEvidence S item now).revisionCapCounted = r.revisionCapCounted := by
    intro r item now
    unfold Call.addEvidence
    split <;> rfl
  cases h with
  | credit final r item now =>
      change (r.credited S item now final).revisionCapCounted = true at hy
      change (r.credited S item now final).evidenceAfterLatestRevision = true
      have hr : (r.addEvidence S item now).revisionCapCounted = false := (hadd r item now).trans hx
      unfold Call.credited at hy ⊢
      split at hy
      · rename_i hcond
        rw [if_pos hcond]
        exact hnoted _ _ hr hy
      · rw [hr] at hy
        cases hy
  | finish final final' r revision => exact hnoted final' (r.close (some revision)) hx hy
  | setAside | release | lease | discard | fail =>
      exact absurd (hx.symm.trans hy) Bool.false_ne_true

theorem RowStep.counted {x y : Bool × Call} (h : RowStep S x y)
    (hx : x.2.revisionCapCounted = true) : y.2.revisionCapCounted = true := by
  have hnoted : ∀ (final : Bool) (r : Call), r.revisionCapCounted = true →
      (r.noted final).revisionCapCounted = true := by
    intro final r hr
    unfold Call.noted
    split
    · rfl
    · exact hr
  cases h with
  | credit final r item now =>
      have hr : (r.addEvidence S item now).revisionCapCounted = true := by
        unfold Call.addEvidence
        split <;> exact hx
      change (r.credited S item now final).revisionCapCounted = true
      unfold Call.credited
      split
      · exact hnoted _ _ hr
      · exact hr
  | finish final final' r revision => exact hnoted final' (r.close (some revision)) hx
  | setAside | release | lease | discard | fail => exact hx

/-! ## Counters -/

namespace Catalog

/-- The call was counted as past the cap. -/
def countedAt (c : Catalog) (k : CallKey) : Bool := (c.calls.find? k).any (·.revisionCapCounted)

/-- The counted calls of a project. -/
def countedKeys (c : Catalog) (p : ProjectId) : List CallKey :=
  (c.calls.rows.filter fun r => r.projectId = p && r.revisionCapCounted).map (·.key)

theorem mem_countedKeys : k ∈ c.countedKeys p ↔ k.1 = p ∧ c.countedAt k = true := by
  rw [countedKeys, List.mem_map, countedAt]
  constructor
  · rintro ⟨r, hr, rfl⟩
    obtain ⟨hr, hcond⟩ := List.mem_filter.mp hr
    rw [Bool.and_eq_true, decide_eq_true_eq] at hcond
    rw [Table.find?_of_mem hr]
    exact hcond
  · rintro ⟨hp, hcounted⟩
    obtain ⟨r, hr, hcounted⟩ := (Option.any_eq_true _ _).mp hcounted
    have hk := Table.key_of_find? hr
    refine ⟨r, List.mem_filter.mpr ⟨Table.mem_of_find? hr, ?_⟩, hk⟩
    rw [Bool.and_eq_true, decide_eq_true_eq]
    exact ⟨(congrArg Prod.fst hk).trans hp, hcounted⟩

theorem nodup_countedKeys : (c.countedKeys p).Nodup :=
  c.calls.nodup.sublist (List.filter_sublist.map _)

/-- The counter moves as the counted calls do. -/
def Balanced (c c' : Catalog) : Prop :=
  ∀ p, c'.counter p .revisionCapReached + (c.countedKeys p).length =
    c.counter p .revisionCapReached + (c'.countedKeys p).length

theorem Balanced.trans (h : Balanced c d) (h' : Balanced d c') : Balanced c c' := by
  intro p
  have h₁ := h p
  have h₂ := h' p
  omega

theorem length_countedKeys_congr (h : ∀ k, c'.countedAt k = c.countedAt k) (p : ProjectId) :
    (c'.countedKeys p).length = (c.countedKeys p).length := by
  refine ((List.perm_ext_iff_of_nodup nodup_countedKeys nodup_countedKeys).mpr
    fun k => ?_).length_eq
  rw [mem_countedKeys, mem_countedKeys, h]

/-- Neither the counter nor a counted call moved. -/
theorem Balanced.of_countedAt
    (hcounter : ∀ p, c'.counter p .revisionCapReached = c.counter p .revisionCapReached)
    (hcounted : ∀ k, c'.countedAt k = c.countedAt k) : Balanced c c' := by
  intro p
  rw [hcounter, length_countedKeys_congr hcounted]

theorem Balanced.of_eq (hcalls : c'.calls = c.calls)
    (hcounters : c'.otlpCounters = c.otlpCounters) :
    Balanced c c' :=
  .of_countedAt (fun p => by rw [counter, counter, hcounters])
    fun k => by rw [countedAt, countedAt, hcalls]

theorem counter_bumpCounter (p' : ProjectId) (name name' : OtlpCounterName) (n : ℕ) :
    (c.bumpCounter p' name' n).counter p name =
      c.counter p name + if p = p' ∧ name = name' then n else 0 := by
  have hkey : (p, name) = (p', name') ↔ p = p' ∧ name = name' := Prod.mk.injEq _ _ _ _ ▸ Iff.rfl
  rw [bumpCounter, ← if_congr hkey rfl rfl, counter, counter]
  split
  · rename_i hn
    simp [hn]
  · dsimp only
    split
    · rw [Table.find?_patch]
      cases hr : c.otlpCounters.find? (p, name) with
      | none =>
          rename_i hsome
          have hne : ¬ (p, name) = (p', name') := fun heq => by simp [← heq, hr] at hsome
          rw [Option.map_none, Option.map_none, if_neg hne]
          rfl
      | some r =>
          have hk := Table.key_of_find? hr
          rw [Option.map_some, Option.map_some, Option.map_some, hk]
          split <;> rfl
    · rename_i hno
      rw [Table.find?_insert]
      change ((((c.otlpCounters.find? (p, name)).or (if (p', name') = (p, name) then _ else none)).map
        (·.value)).getD 0) = _
      by_cases heq : (p, name) = (p', name')
      · rw [heq, if_pos rfl, if_pos rfl]
        rw [Option.not_isSome_iff_eq_none] at hno
        rw [hno]
        simp
      · rw [if_neg heq, if_neg (Ne.symm heq), Option.or_none]
        rfl

theorem counter_bumpCounter_of_ne {p' : ProjectId} {name : OtlpCounterName} {n : ℕ}
    (h : name ≠ .revisionCapReached) :
    (c.bumpCounter p' name n).counter p .revisionCapReached = c.counter p .revisionCapReached := by
  rw [counter_bumpCounter, if_neg fun hboth => h hboth.2.symm, Nat.add_zero]

theorem balanced_bumpCounter {p' : ProjectId} {name : OtlpCounterName} {n : ℕ}
    (h : name ≠ .revisionCapReached) : Balanced c (c.bumpCounter p' name n) :=
  .of_countedAt (fun _ => counter_bumpCounter_of_ne h)
    fun k => by rw [countedAt, countedAt, calls_bumpCounter]

/-- A write of one row that leaves its count. -/
theorem countedAt_updateCall (f : Call → Call) (hf : ∀ r, (f r).key = r.key)
    (h : ∀ r, (f r).revisionCapCounted = r.revisionCapCounted) (k' : CallKey) :
    (c.updateCall k f hf).countedAt k' = c.countedAt k' := by
  rw [countedAt, countedAt]
  by_cases hk : k' = k
  · rw [hk, find?_updateCall_self]
    cases c.calls.find? k with
    | none => rfl
    | some r => exact h r
  · rw [find?_updateCall_of_ne f hf hk]

theorem balanced_updateCall (f : Call → Call) (hf : ∀ r, (f r).key = r.key)
    (h : ∀ r, (f r).revisionCapCounted = r.revisionCapCounted) :
    Balanced c (c.updateCall k f hf) :=
  .of_countedAt (fun _ => rfl) (countedAt_updateCall f hf h)

/-- **A call is counted once**: the counter and the call's row move
together. -/
theorem balanced_noteEvidencePastCap : Balanced c (c.noteEvidencePastCap k) := by
  unfold noteEvidencePastCap
  split
  · exact fun _ => rfl
  · rename_i r hr
    split
    · dsimp only
      have hflag : Balanced c (c.updateCall k Call.flag Call.flag_key) :=
        balanced_updateCall _ _ fun _ => rfl
      split
      · exact hflag
      · rename_i hno
        refine hflag.trans fun p => ?_
        generalize hd : c.updateCall k Call.flag Call.flag_key = d
        have hrow : d.calls.find? k = some r.flag := by
          rw [← hd, find?_updateCall_self, hr, Option.map_some]
        generalize he : d.updateCall k Call.count Call.count_key = e
        have hcounter : e.counter p .revisionCapReached = d.counter p .revisionCapReached := by
          rw [← he]
          rfl
        have hkeys : ((e.bumpCounter k.1 .revisionCapReached 1).countedKeys p).length =
            (e.countedKeys p).length := by
          rw [countedKeys, countedKeys, calls_bumpCounter]
        have hself : e.countedAt k = true := by
          rw [← he, countedAt, find?_updateCall_self, hrow]
          rfl
        have hother : ∀ k', k' ≠ k → e.countedAt k' = d.countedAt k' := by
          intro k' hk'
          rw [← he, countedAt, countedAt, find?_updateCall_of_ne _ _ hk']
        have hbefore : d.countedAt k = false := by
          rw [countedAt, hrow]
          exact Bool.eq_false_iff.mpr hno
        rw [counter_bumpCounter, hkeys, hcounter]
        by_cases hp : p = k.1
        · have hperm : (e.countedKeys p).Perm (k :: d.countedKeys p) := by
            refine (List.perm_ext_iff_of_nodup nodup_countedKeys
              (List.nodup_cons.mpr ⟨fun hmem => ?_, nodup_countedKeys⟩)).mpr fun k' => ?_
            · rw [(mem_countedKeys.mp hmem).2] at hbefore
              cases hbefore
            · rw [List.mem_cons, mem_countedKeys, mem_countedKeys]
              by_cases hk' : k' = k
              · subst hk'
                simp [hself, hp]
              · simp [hother k' hk', hk']
          rw [if_pos ⟨hp, rfl⟩, hperm.length_eq, List.length_cons]
          omega
        · have hperm : (e.countedKeys p).Perm (d.countedKeys p) := by
            refine (List.perm_ext_iff_of_nodup nodup_countedKeys nodup_countedKeys).mpr
              fun k' => ?_
            rw [mem_countedKeys, mem_countedKeys]
            refine and_congr_right fun hp' => ?_
            have hk' : k' ≠ k := by
              rintro rfl
              exact hp hp'.symm
            rw [hother k' hk']
          rw [if_neg fun h => hp h.1, hperm.length_eq, Nat.add_zero]
    · exact fun _ => rfl

theorem balanced_addCallEvidence {item : Evidence} :
    Balanced c (c.addCallEvidence S k item now) := by
  have hadd : Balanced c (c.updateCall k (Call.addEvidence S item now)
      (Call.addEvidence_key S item now)) :=
    balanced_updateCall _ _ fun r => by unfold Call.addEvidence; split <;> rfl
  unfold addCallEvidence
  split
  · exact fun _ => rfl
  · dsimp only
    split
    · exact hadd.trans balanced_noteEvidencePastCap
    · exact hadd

theorem balanced_addEvidence {evidence : List (String × Evidence)} :
    Balanced c (c.addEvidence S p evidence now) := by
  induction evidence generalizing c with
  | nil => exact fun _ => rfl
  | cons e evidence ih => exact balanced_addCallEvidence.trans ih

theorem balanced_insertCall {row : Call} (h : c.insertCall row = some c')
    (hrow : row.revisionCapCounted = false) : Balanced c c' := by
  refine .of_countedAt (fun p => ?_) fun k => ?_
  · rw [(insertCall_eq_some h).2]
    rfl
  · rw [countedAt, countedAt, find?_insertCall h]
    cases c.calls.find? k with
    | some r => rfl
    | none =>
        rw [Option.none_or]
        split
        · exact hrow
        · rfl

theorem balanced_insertCalls {targets : List CallTarget} {preset : CapturePreset}
    {due : Option UnixNano} (h : c.insertCalls p targets preset due = some c') :
    Balanced c c' := by
  induction targets generalizing c with
  | nil =>
      obtain rfl := Option.some.inj h
      exact fun _ => rfl
  | cons target targets ih =>
      rcases insertCalls_cons h with ⟨-, h⟩ | ⟨-, key, c₁, -, h₁, h⟩
      · exact ih h
      · exact (balanced_insertCall h₁ rfl).trans (ih h)

theorem balanced_record {prepared : List Prepared} {preset : CapturePreset} {counts : Counts}
    (h : record S c p prepared preset now = some (c', counts)) : Balanced c c' := by
  obtain ⟨c₂, c₄, h₂, h₄, rfl⟩ := record_eq_some h
  have hdrop := onlyTraces_dropTraces c p (goneTraces S c p prepared now)
  have htraces : Balanced c (withTraces S c p prepared now) :=
    .of_eq hdrop.calls hdrop.otlpCounters
  have hspans : Balanced c₂ c₄ := by
    rw [(insertSpans_eq_some h₄).1]
    exact .of_eq rfl rfl
  exact ((htraces.trans (balanced_insertCalls h₂)).trans hspans).trans balanced_addEvidence

theorem balanced_collectParkedTrace {row : CallTrace} {created : UnixNano}
    (h : c.collectParkedTrace S row now created = some c') : Balanced c c' := by
  rcases collectParkedTrace_cases h with ⟨name, n, hname, rfl⟩ | ⟨-, -, c₁, h₁, rfl⟩
  · have hdelete : Balanced c (c.deleteTrace row.projectId row.traceId) := .of_eq rfl rfl
    exact hdelete.trans (balanced_bumpCounter hname)
  · exact (balanced_insertCall h₁ rfl).trans (.of_eq rfl rfl)

theorem balanced_createRecording {manifest : RecordingManifest} {result : CreateResult}
    (h : c.createRecording S p manifest now = some (c', result)) : Balanced c c' := by
  rcases createRecording_cases h with rfl | rfl | ⟨-, -, c₁, h₁, rfl⟩
  · exact fun _ => rfl
  · exact balanced_bumpCounter (by decide)
  · exact (balanced_insertCalls h₁).trans (.of_eq rfl rfl)

theorem balanced_finishUpload {recordingId : String} {upload : Upload}
    (h : c.finishUpload S p recordingId upload now = some c') : Balanced c c' := by
  obtain ⟨row, -, -, rfl⟩ := finishUpload_eq_some h
  have hstored : Balanced c { c with
      recordings := c.recordings.patch (storeRecording row.key upload now)
        (storeRecording_key row.key upload now) } := .of_eq rfl rfl
  exact hstored.trans balanced_addCallEvidence

theorem balanced_aside (h : Aside c d) : Balanced c d := by
  refine .of_countedAt (fun p => ?_) fun k => ?_
  · rw [h.tables]
    rfl
  · rw [countedAt, countedAt]
    rcases h.calls k with hk | hk
    · rw [hk]
    · rw [hk]
      cases c.calls.find? k <;> rfl

theorem balanced_claim {uploading : List CallKey} {claim? : Option CallClaim}
    (h : c.claim S now uploading = some (c', claim?)) : Balanced c c' := by
  obtain ⟨d, ha, ⟨-, rfl⟩ | ⟨r, preset, -, -, -, -, -, -, rfl⟩⟩ := claim_cases h
  · exact balanced_aside ha
  · have hlease : Balanced d (d.updateCall r.key (Call.lease r.nextRevision now)
        (Call.lease_key _ _)) := balanced_updateCall _ _ fun _ => rfl
    exact ((balanced_aside ha).trans hlease).trans (.of_eq rfl rfl)

theorem balanced_finish {claim : CallClaim} (h : c.finish claim now = some c') :
    Balanced c c' := by
  obtain ⟨r, -, -, -, ⟨-, rfl⟩ | ⟨-, -, rfl⟩⟩ := finish_cases h
  · exact balanced_updateCall _ _ fun _ => rfl
  · have hclose : Balanced c (c.updateCall claim.key (Call.close (some claim.revision))
        (Call.close_key _)) := balanced_updateCall _ _ fun _ => rfl
    have hinsert : Balanced (c.updateCall claim.key (Call.close (some claim.revision))
        (Call.close_key _)) { c.updateCall claim.key (Call.close (some claim.revision))
          (Call.close_key _) with
          callRevisions := c.callRevisions.insert (revisionRow claim now) } := .of_eq rfl rfl
    exact ((hclose.trans hinsert).trans balanced_noteEvidencePastCap).trans
      (balanced_updateCall _ _ fun _ => rfl)

theorem balanced_fail {claim : CallClaim} {code : String} (h : c.fail S claim code now = some c') :
    Balanced c c' := by
  obtain ⟨r, -, -, -, attempts, due, rfl⟩ := fail_eq_some h
  exact balanced_updateCall _ _ fun _ => rfl

theorem balanced_releaseLeases : Balanced c c.releaseLeases := by
  refine .of_countedAt (fun _ => rfl) fun k => ?_
  rw [countedAt, releaseLeases, Table.find?_patch, countedAt]
  cases c.calls.find? k <;> rfl

/-- A purge takes its call's count with it, and leaves the counter. -/
theorem counter_purgeCall (h : c.purgeCall S k now = some c') (p : ProjectId) :
    c'.counter p .revisionCapReached = c.counter p .revisionCapReached := by
  obtain ⟨r, -, -, hkeys⟩ := purgeCall_eq_some h
  rw [counter, hkeys.otlpCounters]
  rfl

end Catalog

/-- **Every operation but a purge keeps the balance.** -/
theorem balanced_of_catalogStep {op : Op} (h : CatalogStep S c op c')
    (hop : ∀ k now, op ≠ .purgeCall k now) : Catalog.Balanced c c' := by
  cases h with
  | provisionProject | setCapturePreset | beginProjectDeletion | failStaleUploads
  | collectExpiredTombstones => exact .of_eq rfl rfl
  | recordSpans hrec =>
      exact ((((Catalog.balanced_record hrec).trans (Catalog.balanced_bumpCounter (by decide))).trans
        (Catalog.balanced_bumpCounter (by decide))).trans
          (Catalog.balanced_bumpCounter (by decide))).trans
            (Catalog.balanced_bumpCounter (by decide))
  | createRecording hrun => exact Catalog.balanced_createRecording hrun
  | finishUpload hrun => exact Catalog.balanced_finishUpload hrun
  | collectParkedTraces hrun =>
      exact Catalog.collectParkedTraces_induction (P := fun d => Catalog.Balanced c d)
        (fun d d' row hd _ _ hone => hd.trans (Catalog.balanced_collectParkedTrace hone)) hrun
        fun _ => rfl
  | claim hrun => exact Catalog.balanced_claim hrun
  | finish hrun => exact Catalog.balanced_finish hrun
  | fail hrun => exact Catalog.balanced_fail hrun
  | releaseLeases => exact Catalog.balanced_releaseLeases
  | purgeCall => exact absurd rfl (hop _ _)

/-! ## The log of flags -/

variable {w w' : World} {op : Op}

/-- The calls an operation purges. -/
def Op.purgedCalls (c : Catalog) : Op → List Call
  | .purgeCall k _ => (c.calls.find? k).toList
  | _ => []

/-- An operation logs what it purges, then what it left flagged. -/
theorem logs_of_step (h : step S w op = some w') :
    w'.purged = op.purgedCalls w.catalog ++ w.purged ∧
      w'.flagged = World.newlyFlagged { w with catalog := w'.catalog, purged := w'.purged } ++
        w.flagged := by
  cases op with
  | provisionProject | failStaleUploads | releaseLeases | collectExpiredTombstones =>
      obtain rfl := Option.some.inj h
      exact ⟨rfl, rfl⟩
  | setCapturePreset | beginProjectDeletion | recordSpans | createRecording | finishUpload
  | collectParkedTraces | purgeCall | claim =>
      obtain ⟨out, -, rfl⟩ := Option.map_eq_some_iff.mp h
      exact ⟨rfl, rfl⟩
  | finish | fail =>
      rw [step] at h
      split at h
      · obtain ⟨out, -, rfl⟩ := Option.map_eq_some_iff.mp h
        exact ⟨rfl, rfl⟩
      · cases h

theorem World.incarnation_inj (h : w.incarnation k = w.incarnation k') : k = k' :=
  congrArg Prod.fst h

theorem World.mem_newlyFlagged {i : Incarnation} : i ∈ w.newlyFlagged ↔
    (∃ r ∈ w.catalog.calls, r.evidenceAfterLatestRevision = true ∧ w.incarnation r.key = i) ∧
      i ∉ w.flagged := by
  rw [newlyFlagged, List.mem_filter, List.mem_map]
  simp only [List.mem_filter, Bool.not_eq_true', List.contains_eq_mem, decide_eq_false_iff_not,
    Table.mem_def, and_assoc]

theorem World.nodup_newlyFlagged : w.newlyFlagged.Nodup := by
  refine List.Nodup.filter _ ?_
  have hkeys : ((w.catalog.calls.rows.filter (·.evidenceAfterLatestRevision)).map (·.key)).Nodup :=
    w.catalog.calls.nodup.sublist (List.filter_sublist.map _)
  have hmap := hkeys.map (f := w.incarnation) fun k k' h => World.incarnation_inj h
  rwa [List.map_map] at hmap

/-- **The counter and the log agree.** -/
structure CapLedger (w : World) : Prop where
  linked : w.catalog.Linked
  kept : ∀ r ∈ w.catalog.calls, r.CapKept (w.catalog.hasFinal r.key)
  flagged_iff : ∀ k, w.incarnation k ∈ w.flagged ↔ w.catalog.countedAt k = true
  past : ∀ i ∈ w.flagged, i.2 ≤ (w.incarnation i.1).2
  nodup : w.flagged.Nodup
  counter : ∀ p, w.catalog.counter p .revisionCapReached = w.flagged.countP (·.1.1 = p)

/-- A call is new to the counted ones exactly when it is new to the log. -/
theorem CapLedger.flag_iff (hw : CapLedger w) (h : CatalogStep S w.catalog op c')
    (hkept : ∀ r ∈ c'.calls, r.CapKept (c'.hasFinal r.key)) (k : CallKey) :
    ((∃ r ∈ c'.calls, r.key = k ∧ r.evidenceAfterLatestRevision = true) ∧
        w.incarnation k ∉ w.flagged) ↔
      c'.countedAt k = true ∧ w.catalog.countedAt k = false := by
  rw [hw.flagged_iff, Bool.not_eq_true]
  refine and_congr_left fun hbefore => ⟨?_, fun hafter => ?_⟩
  · rintro ⟨r, hr, rfl, hflag⟩
    rw [Catalog.countedAt, Table.find?_of_mem hr]
    exact (hkept r hr).counted hflag
  · obtain ⟨r', hr', hcounted⟩ := (Option.any_eq_true _ _).mp hafter
    refine ⟨r', Table.mem_of_find? hr', Table.key_of_find? hr', ?_⟩
    rcases row_of_catalogStep hw.linked h hr' with ⟨r, hr, hmoved⟩ | ⟨-, hcreated⟩
    · rw [Catalog.countedAt, hr] at hbefore
      have hr₀ : r.revisionCapCounted = false := hbefore
      generalize hy : (c'.hasFinal k, r') = y at hmoved
      cases hmoved with
      | refl =>
          obtain rfl : r' = r := congrArg Prod.snd hy
          rw [hr₀] at hcounted
          cases hcounted
      | single hone =>
          subst hy
          exact hone.flag_of_counted hr₀ hcounted
    · rw [hcreated.new.2.2] at hcounted
      cases hcounted

theorem capKept_of_step (hw : CapLedger w) (h : CatalogStep S w.catalog op c') :
    ∀ r ∈ c'.calls, r.CapKept (c'.hasFinal r.key) := by
  intro r hr
  rcases row_of_catalogStep hw.linked h (Table.find?_of_mem hr) with hmoved | ⟨hnone, hcreated⟩
  · refine hmoved.preserves (P := fun final r => r.CapKept final) (fun _ _ => RowStep.capKept)
      fun r₀ hr₀ => ?_
    have hkept := hw.kept r₀ (Table.mem_of_find? hr₀)
    rwa [Table.key_of_find? hr₀] at hkept
  · exact hcreated.capKept

/-- An operation that purges nothing: what is new to the log is new to the
counted calls. -/
theorem CapLedger.of_balanced (hw : CapLedger w) (hc : CatalogStep S w.catalog op w'.catalog)
    (hop : ∀ k now, op ≠ .purgeCall k now) (hpurged : w'.purged = w.purged)
    (hflagged : w'.flagged =
      World.newlyFlagged { w with catalog := w'.catalog, purged := w'.purged } ++ w.flagged) :
    CapLedger w' := by
  have hkept := capKept_of_step hw hc
  have hinc : ∀ k, w'.incarnation k = w.incarnation k := fun k => by
    rw [World.incarnation, World.incarnation, hpurged]
  generalize hN : World.newlyFlagged { w with catalog := w'.catalog, purged := w'.purged } = N
    at hflagged
  have hNnodup : N.Nodup := hN ▸ World.nodup_newlyFlagged
  have hmemN : ∀ i, i ∈ N ↔ (∃ r ∈ w'.catalog.calls, r.evidenceAfterLatestRevision = true ∧
      w.incarnation r.key = i) ∧ i ∉ w.flagged := by
    intro i
    rw [← hN, World.mem_newlyFlagged]
    refine and_congr_left fun _ => exists_congr fun r => and_congr_right fun _ =>
      and_congr_right fun _ => ?_
    change w'.incarnation r.key = i ↔ _
    rw [hinc]
  -- an incarnation enters the log with the step that counts its call
  have hnew : ∀ k, w.incarnation k ∈ N ↔
      w'.catalog.countedAt k = true ∧ w.catalog.countedAt k = false := by
    intro k
    rw [hmemN, ← hw.flag_iff hc hkept k]
    refine and_congr_left fun _ => exists_congr fun r => and_congr_right fun _ => ?_
    constructor
    · rintro ⟨hflag, hk⟩
      exact ⟨World.incarnation_inj hk, hflag⟩
    · rintro ⟨rfl, hflag⟩
      exact ⟨hflag, rfl⟩
  have hform : ∀ i ∈ N, i = w.incarnation i.1 := by
    intro i hi
    obtain ⟨⟨r, -, -, rfl⟩, -⟩ := (hmemN i).mp hi
    rfl
  have hpurges : ∀ k, op.purges k = false := by
    intro k
    cases op with
    | purgeCall k' now => exact absurd rfl (hop k' now)
    | _ => rfl
  -- a call that is counted stays so, as nothing is purged
  have hpersists : ∀ k, w.catalog.countedAt k = true → w'.catalog.countedAt k = true := by
    intro k hk
    obtain ⟨r, hr, hcounted⟩ := (Option.any_eq_true _ _).mp hk
    obtain ⟨r', hr'⟩ := Option.isSome_iff_exists.mp
      (isSome_of_catalogStep hc (hpurges k) (by rw [hr]; rfl))
    rw [Catalog.countedAt, hr', Option.any_some]
    rcases row_of_catalogStep hw.linked hc hr' with hmoved | ⟨hnone, -⟩
    · refine hmoved.preserves (P := fun _ r => r.revisionCapCounted = true)
        (fun _ _ hx hone => hone.counted hx) fun r₀ hr₀ => ?_
      obtain rfl := Option.some.inj (hr.symm.trans hr₀)
      exact hcounted
    · rw [hr] at hnone
      cases hnone
  refine ⟨linked_step hw.linked hc, hkept, fun k => ?_, fun i hi => ?_, ?_, fun p => ?_⟩
  · rw [hflagged, hinc, List.mem_append, hnew, hw.flagged_iff]
    constructor
    · rintro (h | h)
      · exact h.1
      · exact hpersists k h
    · intro h
      cases hbefore : w.catalog.countedAt k with
      | true => exact Or.inr rfl
      | false => exact Or.inl ⟨h, rfl⟩
  · rw [hinc]
    rw [hflagged] at hi
    rcases List.mem_append.mp hi with hi | hi
    · exact (congrArg Prod.snd (hform i hi)).le
    · exact hw.past i hi
  · rw [hflagged, List.nodup_append]
    exact ⟨hNnodup, hw.nodup, fun i hi j hj heq => ((hmemN i).mp hi).2 (heq ▸ hj)⟩
  · -- the counted calls of the project: those from before, and those new to the log
    have hperm : (w'.catalog.countedKeys p).Perm
        ((N.filter (·.1.1 = p)).map Prod.fst ++ w.catalog.countedKeys p) := by
      refine (List.perm_ext_iff_of_nodup Catalog.nodup_countedKeys (List.nodup_append.mpr
        ⟨?_, Catalog.nodup_countedKeys, fun k hk k' hk' heq => ?_⟩)).mpr fun k => ?_
      · refine (List.nodup_map_iff_inj_on (hNnodup.filter _)).mpr fun i hi j hj heq => ?_
        rw [hform i (List.mem_of_mem_filter hi), hform j (List.mem_of_mem_filter hj), heq]
      · obtain ⟨i, hi, rfl⟩ := List.mem_map.mp hk
        have hiN := List.mem_of_mem_filter hi
        have hcounted := (Catalog.mem_countedKeys.mp hk').2
        rw [← heq, ((hnew i.1).mp (hform i hiN ▸ hiN)).2] at hcounted
        cases hcounted
      · rw [Catalog.mem_countedKeys, List.mem_append, Catalog.mem_countedKeys, List.mem_map]
        constructor
        · rintro ⟨hp, hcounted⟩
          cases hbefore : w.catalog.countedAt k with
          | true => exact Or.inr ⟨hp, rfl⟩
          | false =>
              exact Or.inl ⟨w.incarnation k, List.mem_filter.mpr
                ⟨(hnew k).mpr ⟨hcounted, hbefore⟩, decide_eq_true hp⟩, rfl⟩
        · rintro (⟨i, hi, rfl⟩ | ⟨hp, hcounted⟩)
          · obtain ⟨hiN, hp⟩ := List.mem_filter.mp hi
            exact ⟨of_decide_eq_true hp, ((hnew i.1).mp (hform i hiN ▸ hiN)).1⟩
          · exact ⟨hp, hpersists k hcounted⟩
    have hbalance := balanced_of_catalogStep hc hop p
    have hlength := hperm.length_eq
    rw [List.length_append, List.length_map, ← List.countP_eq_length_filter] at hlength
    rw [hflagged, List.countP_append, ← hw.counter p]
    omega

/-- A purge logs nothing new, and its key's next call is another
incarnation. -/
theorem CapLedger.purge {k₀ : CallKey} (hw : CapLedger w)
    (hrun : w.catalog.purgeCall S k₀ now = some w'.catalog)
    (hpurged : w'.purged = (w.catalog.calls.find? k₀).toList ++ w.purged)
    (hflagged : w'.flagged =
      World.newlyFlagged { w with catalog := w'.catalog, purged := w'.purged } ++ w.flagged) :
    CapLedger w' := by
  have hc : CatalogStep S w.catalog (.purgeCall k₀ now) w'.catalog := .purgeCall hrun
  have hkept := capKept_of_step hw hc
  obtain ⟨r₀, hr₀, -, hkeys⟩ := Catalog.purgeCall_eq_some hrun
  have hr₀k := Table.key_of_find? hr₀
  have hinc : ∀ k, w'.incarnation k = (k, (w.incarnation k).2 + if k = k₀ then 1 else 0) := by
    intro k
    have hcount : (w'.purged.countP (·.key = k)) =
        w.purged.countP (·.key = k) + if k = k₀ then 1 else 0 := by
      rw [hpurged, hr₀, Option.toList_some, List.singleton_append, List.countP_cons, hr₀k]
      simp [eq_comm]
    rw [World.incarnation, hcount]
    rfl
  have hfind : ∀ k, w'.catalog.calls.find? k = if k = k₀ then none else w.catalog.calls.find? k :=
    fun k => by rw [hkeys.calls, Catalog.find?_calls_deleteCall]
  have hcounted : ∀ k, w'.catalog.countedAt k = if k = k₀ then false else w.catalog.countedAt k := by
    intro k
    rw [Catalog.countedAt, hfind, Catalog.countedAt]
    split <;> rfl
  have hnone : World.newlyFlagged { w with catalog := w'.catalog, purged := w'.purged } = [] := by
    refine List.eq_nil_iff_forall_not_mem.mpr fun i hi => ?_
    obtain ⟨⟨r, hr, hflag, rfl⟩, hnew⟩ := World.mem_newlyFlagged.mp hi
    refine hnew ?_
    change w'.incarnation r.key ∈ w.flagged
    have hrow := Table.find?_of_mem hr
    change w'.catalog.calls.find? r.key = some r at hrow
    have hrk := hrow
    rw [hfind] at hrk
    split at hrk
    · cases hrk
    · rename_i hne
      have hold : w.catalog.countedAt r.key = true := by
        rw [Catalog.countedAt, hrk]
        exact (hkept r hr).counted hflag
      rw [hinc, if_neg hne]
      exact (hw.flagged_iff r.key).mpr hold
  rw [hnone, List.nil_append] at hflagged
  refine ⟨linked_step hw.linked hc, hkept, fun k => ?_, fun i hi => ?_, ?_, fun p => ?_⟩
  · rw [hflagged, hinc, hcounted]
    by_cases hk : k = k₀
    · rw [if_pos hk, if_pos hk]
      refine iff_of_false (fun hmem => ?_) Bool.false_ne_true
      have := hw.past _ hmem
      dsimp only at this
      omega
    · rw [if_neg hk, if_neg hk]
      exact hw.flagged_iff k
  · rw [hflagged] at hi
    rw [hinc]
    exact (hw.past i hi).trans (Nat.le_add_right _ _)
  · rw [hflagged]
    exact hw.nodup
  · rw [hflagged, Catalog.counter_purgeCall hrun, hw.counter p]

theorem CapLedger.step (hw : CapLedger w) (h : Earshot.step S w op = some w') : CapLedger w' := by
  obtain ⟨hpurged, hflagged⟩ := logs_of_step h
  have hc := catalogStep_of_step h
  cases op with
  | purgeCall k now =>
      obtain ⟨c', hrun, rfl⟩ := Option.map_eq_some_iff.mp h
      exact hw.purge hrun hpurged hflagged
  | _ => exact hw.of_balanced hc nofun hpurged hflagged

theorem CapLedger.init : CapLedger .init where
  linked := Catalog.linked_empty
  kept _ h := absurd h List.not_mem_nil
  flagged_iff _ := iff_of_false List.not_mem_nil Bool.false_ne_true
  past _ h := absurd h List.not_mem_nil
  nodup := List.nodup_nil
  counter _ := rfl

theorem capLedger_worldAfter (S : CallStore) (ops : List Op) : CapLedger (worldAfter S ops) :=
  Transition.run_invariant (fun _ _ _ hw h => hw.step h) ops _ .init

/-- The call `i` was flagged after some part of the run. -/
def WasFlagged (S : CallStore) (ops : List Op) (i : Incarnation) : Prop :=
  ∃ pre, pre <+: ops ∧ ∃ r ∈ (worldAfter S pre).catalog.calls,
    r.evidenceAfterLatestRevision = true ∧ (worldAfter S pre).incarnation r.key = i

/-- **The log holds the calls that were ever flagged.** -/
theorem mem_flagged_iff (S : CallStore) (ops : List Op) (i : Incarnation) :
    i ∈ (worldAfter S ops).flagged ↔ WasFlagged S ops i := by
  have hsnoc : ∀ (ops : List Op) (op : Op), WasFlagged S (ops ++ [op]) i ↔
      WasFlagged S ops i ∨ ∃ r ∈ (worldAfter S (ops ++ [op])).catalog.calls,
        r.evidenceAfterLatestRevision = true ∧
          (worldAfter S (ops ++ [op])).incarnation r.key = i := by
    intro ops op
    constructor
    · rintro ⟨pre, hpre, hflag⟩
      rcases List.prefix_concat_iff.mp hpre with rfl | hpre
      · exact Or.inr hflag
      · exact Or.inl ⟨pre, hpre, hflag⟩
    · rintro (⟨pre, hpre, hflag⟩ | hflag)
      · exact ⟨pre, hpre.trans (List.prefix_append _ _), hflag⟩
      · exact ⟨ops ++ [op], List.prefix_refl _, hflag⟩
  induction ops using List.reverseRecOn with
  | nil =>
      refine iff_of_false List.not_mem_nil ?_
      rintro ⟨pre, hpre, r, hr, -⟩
      rw [List.prefix_nil] at hpre
      subst hpre
      exact absurd hr List.not_mem_nil
  | append_singleton ops op ih =>
      have hops : i ∈ (worldAfter S ops).flagged ↔ WasFlagged S ops i := ih
      rw [hsnoc, ← hops]
      cases hs : step S (worldAfter S ops) op with
      | none =>
          have hsame : worldAfter S (ops ++ [op]) = worldAfter S ops := by
            rw [worldAfter, Transition.run_append]
            exact Transition.next_of_none hs
          rw [hsame]
          refine ⟨Or.inl, ?_⟩
          rintro (h | ⟨r, hr, hflag, rfl⟩)
          · exact h
          · have hw := capLedger_worldAfter S ops
            rw [hw.flagged_iff, Catalog.countedAt, Table.find?_of_mem hr]
            exact (hw.kept r hr).counted hflag
      | some w' =>
          rw [worldAfter_concat hs]
          obtain ⟨-, hflagged⟩ := logs_of_step hs
          rw [hflagged, List.mem_append, World.mem_newlyFlagged]
          change ((∃ r ∈ w'.catalog.calls, r.evidenceAfterLatestRevision = true ∧
            w'.incarnation r.key = i) ∧ i ∉ (worldAfter S ops).flagged) ∨ _ ↔ _
          by_cases hmem : i ∈ (worldAfter S ops).flagged <;> simp [hmem]

/-- **Evidence past the cap is never hidden.** After every run: a dirty
call that may be revised no more is flagged; a flagged call is dirty or
has a revision pending; and a project's `revision_cap_reached` is the
number of its calls, past ones included, that were ever flagged. -/
theorem evidence_past_cap (S : CallStore) (ops : List Op) :
    (∀ r ∈ (worldAfter S ops).catalog.calls,
      (r.dirty = true → (worldAfter S ops).catalog.uncapped r = false →
        r.evidenceAfterLatestRevision = true) ∧
      (r.evidenceAfterLatestRevision = true →
        r.dirty = true ∨ r.pendingRevision.isSome = true)) ∧
    ∃ flagged : List Incarnation, flagged.Nodup ∧ (∀ i, i ∈ flagged ↔ WasFlagged S ops i) ∧
      ∀ p, (worldAfter S ops).catalog.counter p .revisionCapReached =
        flagged.countP (·.1.1 = p) := by
  have hw := capLedger_worldAfter S ops
  refine ⟨fun r hr => ⟨fun hdirty hcapped => ?_, (hw.kept r hr).announced⟩, ?_⟩
  · exact (hw.kept r hr).flagged hdirty hcapped
  · exact ⟨(worldAfter S ops).flagged, hw.nodup, mem_flagged_iff S ops, hw.counter⟩

end Earshot
