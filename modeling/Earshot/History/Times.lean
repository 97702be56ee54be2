import Earshot.History.Identity
/-!
# First evidence

The list orders calls by their first evidence. It is fixed when the call is
created: no write of a row touches it (`RowStep.firstEvidence`), so one call
keeps it until it is purged (`firstEvidence_eq`), and a call of the same key
after a purge is another incarnation. It is a reading of the clock, the batch's
own or the one that came with the call's first parked span
(`timed_worldAfter`).
-/

namespace Earshot

open Relational

variable {S : CallStore} {c c' d : Catalog} {p : ProjectId} {prepared : List Prepared}
variable {now : UnixNano} {k : CallKey} {r r' : Call}

/-! ## It never changes -/

theorem Call.firstEvidence_credited {item : Evidence} {final : Bool} :
    (r.credited S item now final).firstEvidenceUnixNano = r.firstEvidenceUnixNano := by
  have hadd : (r.addEvidence S item now).firstEvidenceUnixNano = r.firstEvidenceUnixNano := by
    unfold addEvidence
    split <;> rfl
  unfold credited
  split
  · unfold noted
    split <;> exact hadd
  · exact hadd

/-- **No write of a row changes the call's first evidence.** -/
theorem RowStep.firstEvidence {x y : Bool × Call} (h : RowStep S x y) :
    y.2.firstEvidenceUnixNano = x.2.firstEvidenceUnixNano := by
  cases h with
  | setAside | release | lease | discard | fail => rfl
  | credit => exact Call.firstEvidence_credited
  | finish final final' r revision =>
    have hnoted : ((r.close (some revision)).noted final').firstEvidenceUnixNano =
        r.firstEvidenceUnixNano := by
      unfold Call.noted
      split <;> rfl
    exact hnoted

/-- A moved call has the first evidence it had. -/
theorem Catalog.Moved.firstEvidence (h : Catalog.Moved S c c' k r') :
    ∃ r, c.calls.find? k = some r ∧ r'.firstEvidenceUnixNano = r.firstEvidenceUnixNano := by
  obtain ⟨r, hr, hmoved⟩ := h
  refine ⟨r, hr, ?_⟩
  generalize hy : (c'.hasFinal k, r') = y at hmoved
  obtain rfl : r' = y.2 := congrArg Prod.snd hy
  cases hmoved with
  | refl => rfl
  | single hone => exact hone.firstEvidence

namespace World

/-- The incarnation is there with this first evidence, or was purged. -/
def Fixed (i : Incarnation) (first : UnixNano) (w : World) : Prop :=
  (∃ r, w.catalog.calls.find? i.1 = some r ∧ r.firstEvidenceUnixNano = first ∧
    w.incarnation i.1 = i) ∨ i.2 < w.purged.countP (·.key = i.1)

theorem fixed_step {w w' : World} {op : Op} {i : Incarnation} {first : UnixNano}
    (hl : w.catalog.Linked) (hw : w.Fixed i first) (h : Earshot.step S w op = some w') :
    w'.Fixed i first := by
  have hstep := catalogStep_of_step h
  have hpurged := (logs_of_step h).1
  have hcount : w'.purged.countP (·.key = i.1) =
      (op.purgedCalls w.catalog).countP (·.key = i.1) + w.purged.countP (·.key = i.1) := by
    rw [hpurged, List.countP_append]
  rcases hw with ⟨r, hr, hfirst, hi⟩ | hlt
  · have hi2 : w.purged.countP (·.key = i.1) = i.2 := congrArg Prod.snd hi
    cases hop : op.purges i.1 with
    | false =>
      obtain ⟨r', hr'⟩ := Option.isSome_iff_exists.mp
        (isSome_of_catalogStep hstep hop (by rw [hr]; rfl))
      rcases row_of_catalogStep hl hstep hr' with hmoved | ⟨hnone, -⟩
      · obtain ⟨r₀, hr₀, hfirst'⟩ := hmoved.firstEvidence
        obtain rfl := Option.some.inj (hr.symm.trans hr₀)
        refine Or.inl ⟨r', hr', hfirst'.trans hfirst, ?_⟩
        have hzero : (op.purgedCalls w.catalog).countP (·.key = i.1) = 0 := by
          rw [List.countP_eq_zero]
          intro x hx hk
          cases op with
          | purgeCall k' now =>
            have hkey := Table.key_of_find? (Option.mem_toList.mp hx)
            rw [Op.purges, beq_eq_false_iff_ne] at hop
            exact hop (hkey.symm.trans (of_decide_eq_true hk))
          | _ => cases hx
        rw [incarnation, hcount, hzero, Nat.zero_add, hi2]
      · rw [hr] at hnone
        cases hnone
    | true =>
      refine Or.inr ?_
      cases op with
      | purgeCall k' now =>
        obtain rfl : k' = i.1 := by simpa [Op.purges] using hop
        have hone : ((Op.purgeCall i.1 now).purgedCalls w.catalog).countP (·.key = i.1) = 1 := by
          change (w.catalog.calls.find? i.1).toList.countP (·.key = i.1) = 1
          rw [hr, Option.toList_some, List.countP_singleton,
            if_pos (decide_eq_true (Table.key_of_find? hr))]
        omega
      | _ => cases hop
  · exact Or.inr (by omega)

end World

/-- **One incarnation has one first evidence**, however the run goes on. -/
theorem firstEvidence_eq {w : World} (hl : w.catalog.Linked) (ops : List Op)
    (hr : r ∈ w.catalog.calls) (hr' : r' ∈ (Transition.run (step S) w ops).catalog.calls)
    (hi : w.incarnation r.key = (Transition.run (step S) w ops).incarnation r'.key) :
    r'.firstEvidenceUnixNano = r.firstEvidenceUnixNano := by
  have hrun := Transition.run_invariant
    (P := fun w' : World => w'.catalog.Linked ∧
      w'.Fixed (w.incarnation r.key) r.firstEvidenceUnixNano)
    (fun w' op w'' hw' (h : step S w' op = some w'') => ⟨linked_step hw'.1 (catalogStep_of_step h),
      World.fixed_step hw'.1 hw'.2 h⟩) ops w
    ⟨hl, Or.inl ⟨r, Table.find?_of_mem hr, rfl, rfl⟩⟩
  have hkey : r.key = r'.key := congrArg Prod.fst hi
  rcases hrun.2 with ⟨r₀, hr₀, hfirst, -⟩ | hlt
  · have hsame : r₀ = r' := by
      refine Table.eq_of_key_eq (Table.mem_of_find? hr₀) hr' ?_
      exact (Table.key_of_find? hr₀).trans hkey
    rw [← hsame]
    exact hfirst
  · have hcount : w.purged.countP (·.key = r.key) =
        (Transition.run (step S) w ops).purged.countP (·.key = r'.key) := congrArg Prod.snd hi
    rw [hkey] at hcount
    change w.purged.countP (·.key = r.key) <
      (Transition.run (step S) w ops).purged.countP (·.key = r.key) at hlt
    rw [hkey] at hlt
    omega

/-! ## It was read from the clock -/

/-- The times calls and traces began are among `times`. -/
structure Catalog.Timed (c : Catalog) (times : List UnixNano) : Prop where
  calls : ∀ r ∈ c.calls, r.firstEvidenceUnixNano ∈ times
  traces : ∀ r ∈ c.callTraces, r.firstSpanReceivedUnixNano ∈ times

/-- New calls among the targets began at one of the times. -/
def TimedTargets (times : List UnixNano) (targets : List CallTarget) : Prop :=
  ∀ u ∈ targets, u.created = true → u.firstEvidence ∈ times

theorem timedTargets_addTarget {times : List UnixNano} {targets : List CallTarget} {tr : Trace}
    (h : TimedTargets times targets)
    (htarget : ∀ target, tr.target = some target → target.created = true →
      target.firstEvidence ∈ times)
    (hrow : ∀ row, tr.row = some row → row.firstSpanReceivedUnixNano ∈ times) :
    TimedTargets times (addTarget targets tr) := by
  unfold addTarget
  cases ht : tr.target with
  | none => exact h
  | some target =>
    have hput : TimedTargets times (if targets.any (·.callId == target.callId) then targets
        else targets ++ [target]) := by
      split
      · exact h
      · intro u hu hcreated
        rcases List.mem_append.mp hu with hu | hu
        · exact h u hu hcreated
        · rw [List.mem_singleton.mp hu] at hcreated ⊢
          exact htarget target ht hcreated
    cases hr : tr.row with
    | none => exact hput
    | some row =>
      intro u hu hcreated
      obtain ⟨v, hv, rfl⟩ := List.mem_map.mp hu
      split at hcreated
      · rename_i hjoins
        rw [if_pos hjoins]
        change min v.firstEvidence row.firstSpanReceivedUnixNano ∈ times
        rcases min_choice v.firstEvidence row.firstSpanReceivedUnixNano with heq | heq
        · rw [heq]
          exact hput v hv hjoins.2.1
        · rw [heq]
          exact hrow row hr
      · rename_i hjoins
        rw [if_neg hjoins]
        exact hput v hv hcreated

/-- A batch's new calls begin at its reading, or with a parked span. -/
theorem timedTargets_keptTargets {times : List UnixNano} (h : c.Timed times) :
    TimedTargets (now :: times) (keptTargets S c p prepared now) := by
  have hfold : ∀ (kept : List Trace) (targets : List CallTarget),
      (∀ tr ∈ kept, ∃ t, tr = resolved S c p prepared now t) → TimedTargets (now :: times) targets →
        TimedTargets (now :: times) (kept.foldl addTarget targets) := by
    intro kept
    induction kept with
    | nil => exact fun targets _ htargets => htargets
    | cons tr kept ih =>
      intro targets hkept htargets
      refine ih _ (fun x hx => hkept x (List.mem_cons_of_mem _ hx)) ?_
      obtain ⟨t, rfl⟩ := hkept tr List.mem_cons_self
      refine timedTargets_addTarget htargets (fun target htarget hcreated => ?_) fun row hrow => ?_
      · rcases resolveTarget_cases S c p prepared now t with
          ⟨callId, -, -, heq⟩ | ⟨-, -, heq⟩ | ⟨-, -, -, -, heq⟩ | ⟨-, -, key, -, -, heq⟩
        · rw [heq] at htarget
          obtain rfl := Option.some.inj htarget
          cases hcreated
        · rw [heq] at htarget
          cases htarget
        · rw [heq] at htarget
          cases htarget
        · rw [heq] at htarget
          obtain rfl := Option.some.inj htarget
          exact List.mem_cons_self
      · rw [resolved_row] at hrow
        exact List.mem_cons_of_mem _ (h.traces row (Table.mem_of_find? hrow))
  refine hfold _ _ (fun tr htr => ?_) fun u hu => absurd hu List.not_mem_nil
  obtain ⟨t, -, rfl⟩ := List.mem_map.mp (List.mem_filter.mp htr).1
  exact ⟨t, rfl⟩

namespace Catalog

variable {times : List UnixNano}

theorem Timed.mono {times' : List UnixNano} (h : c.Timed times) (hsub : times ⊆ times') :
    c.Timed times' :=
  ⟨fun r hr => hsub (h.calls r hr), fun r hr => hsub (h.traces r hr)⟩

/-- A row of `c'` began when its row of `c` did. -/
theorem Timed.of_moved (h : c.Timed times) (htraces : ∀ r ∈ c'.callTraces, r ∈ c.callTraces)
    (hmoved : ∀ k r', c'.calls.find? k = some r' → Moved S c c' k r') : c'.Timed times where
  calls r' hr' := by
    obtain ⟨r, hr, heq⟩ := (hmoved _ r' (Table.find?_of_mem hr')).firstEvidence
    rw [heq]
    exact h.calls r (Table.mem_of_find? hr)
  traces r hr := h.traces r (htraces r hr)

theorem Timed.recorded {preset : CapturePreset} (h : c.Timed times)
    (hrec : Recorded S c p prepared preset now c') : c'.Timed (now :: times) where
  calls r' hr' := by
    have hcredited : ∀ r, (creditedRow S c p prepared now r).firstEvidenceUnixNano =
        r.firstEvidenceUnixNano := by
      intro r
      rw [creditedRow]
      split
      · rfl
      · exact Call.firstEvidence_credited
    obtain ⟨⟨p', callId⟩, hk⟩ : ∃ k, r'.key = k := ⟨_, rfl⟩
    have hfind : c'.calls.find? (p', callId) = some r' := hk ▸ Table.find?_of_mem hr'
    by_cases hp : p' = p
    · subst hp
      cases hr : c.calls.find? (p', callId) with
      | some r =>
        rw [hrec.calls_stored callId r hr] at hfind
        obtain rfl := Option.some.inj hfind
        rw [hcredited]
        exact List.mem_cons_of_mem _ (h.calls r (Table.mem_of_find? hr))
      | none =>
        obtain ⟨target, htarget, hcreated, -, ⟨key, -, rfl⟩, -⟩ := hrec.calls_new callId r' hr hfind
        rw [hcredited]
        exact timedTargets_keptTargets h target htarget hcreated
    · rw [hrec.calls_other _ hp] at hfind
      exact List.mem_cons_of_mem _ (h.calls r' (Table.mem_of_find? hfind))
  traces r' hr' := by
    have hfind := Table.find?_of_mem hr'
    rw [hrec.callTraces] at hfind
    have hkept : ∀ t r, (keptRow S c p prepared now t r).firstSpanReceivedUnixNano =
        r.firstSpanReceivedUnixNano := by
      intro t r
      rw [keptRow]
      split <;> rfl
    split at hfind
    · have heq := congrArg CallTrace.firstSpanReceivedUnixNano (Option.some.inj hfind)
      rw [hkept] at heq
      rw [← heq]
      cases hr : c.callTraces.find? r'.key with
      | none => exact List.mem_cons_self
      | some r => exact List.mem_cons_of_mem _ (h.traces r (Table.mem_of_find? hr))
    · split at hfind
      · cases hfind
      · exact List.mem_cons_of_mem _ (h.traces r' (Table.mem_of_find? hfind))

theorem Timed.createRecording {manifest : RecordingManifest} {result : CreateResult}
    (h : c.Timed times) (hrun : c.createRecording S p manifest now = some (c', result)) :
    c'.Timed (now :: times) := by
  have hmono : c.Timed (now :: times) := h.mono fun _ ht => List.mem_cons_of_mem _ ht
  rcases createRecording_cases hrun with rfl | rfl | ⟨-, -, c₁, h₁, rfl⟩
  · exact hmono
  · refine ⟨fun r hr => ?_, fun r hr => ?_⟩
    · rw [calls_bumpCounter] at hr
      exact hmono.calls r hr
    · rw [(onlyCalls_bumpCounter (c := c) p .purgedCallEvidenceDropped 1).callTraces] at hr
      exact hmono.traces r hr
  · refine ⟨fun r' hr' => ?_, fun r hr => ?_⟩
    · have hfind : c₁.calls.find? r'.key = some r' := Table.find?_of_mem hr'
      cases hr : c.calls.find? r'.key with
      | some r =>
        rw [find?_insertCalls_of_some h₁ hr] at hfind
        rw [← Option.some.inj hfind]
        exact hmono.calls r (Table.mem_of_find? hr)
      | none =>
        obtain ⟨target, htarget, -, key, -, rfl, -⟩ := find?_insertCalls_of_none h₁ hr hfind
        rw [List.mem_singleton.mp htarget]
        exact List.mem_cons_self
    · change r ∈ c₁.callTraces at hr
      rw [(onlyCalls_insertCalls h₁).callTraces] at hr
      exact hmono.traces r hr

theorem Timed.collectParkedTrace {row : CallTrace} {created : UnixNano} (h : c.Timed times)
    (hrow : row ∈ c.callTraces) (hrun : c.collectParkedTrace S row now created = some c') :
    c'.Timed times := by
  refine ⟨fun r hr => ?_, fun r hr => ?_⟩
  · rcases row_of_collectParkedTrace hrun (Table.find?_of_mem hr) with hold | ⟨-, rfl, -⟩
    · exact h.calls r (Table.mem_of_find? hold)
    · exact h.traces row hrow
  · have hfind := Table.find?_of_mem hr
    by_cases hk : r.key = row.key
    · rcases collectParkedTrace_cases hrun with ⟨name, n, -, rfl⟩ | ⟨-, -, c₁, h₁, rfl⟩
      · rw [(onlyCalls_bumpCounter _ _ _).callTraces, find?_callTraces_deleteTrace, hk] at hfind
        have hkey : row.key = (row.projectId, row.traceId) := rfl
        rw [← hkey, if_pos rfl] at hfind
        cases hfind
      · rw [find?_bindTrace, (onlyCalls_insertCall h₁).callTraces, Option.map_eq_some_iff] at hfind
        obtain ⟨r₀, hr₀, heq⟩ := hfind
        rw [if_pos hk] at heq
        rw [← heq]
        exact h.traces r₀ (Table.mem_of_find? hr₀)
    · rw [find?_collectParkedTrace_of_ne hrun hk] at hfind
      exact h.traces r (Table.mem_of_find? hfind)

end Catalog

/-- **Every operation's times are readings**, its own or older ones. -/
theorem Catalog.Timed.step {op : Op} {times : List UnixNano} (hl : c.Linked) (h : c.Timed times)
    (hstep : CatalogStep S c op c') : c'.Timed (op.readings ++ times) := by
  have hall := hstep
  have hmono : c.Timed (op.readings ++ times) := h.mono (List.subset_append_right _ _)
  have hmoved : op.creates = false → (∀ r ∈ c'.callTraces, r ∈ c.callTraces) →
      c'.Timed (op.readings ++ times) := by
    refine fun hno htraces => hmono.of_moved (S := S) htraces fun k r' hr' => ?_
    rcases row_of_catalogStep hl hall hr' with hmoved | ⟨-, hcreated⟩
    · exact hmoved
    · rw [hcreated.creates] at hno
      cases hno
  cases hstep with
  | provisionProject | setCapturePreset | beginProjectDeletion | releaseLeases
  | failStaleUploads | collectExpiredTombstones => exact hmoved rfl fun r hr => hr
  | recordSpans hrec =>
    obtain ⟨_, d, hd, honly, hcalls⟩ := recorded_of_catalogStep hall
    have hrecorded := h.recorded hd
    exact ⟨fun r hr => hrecorded.calls r (hcalls ▸ hr),
      fun r hr => hrecorded.traces r (honly.callTraces ▸ hr)⟩
  | createRecording hrun => exact h.createRecording hrun
  | collectParkedTraces hrun =>
    exact Catalog.collectParkedTraces_induction (P := fun d => d.Timed _)
      (fun d d' row hd hrow _ hone => hd.collectParkedTrace hrow hone) hrun hmono
  | finishUpload hrun =>
    obtain ⟨row, -, -, rfl⟩ := Catalog.finishUpload_eq_some hrun
    refine hmoved rfl fun r hr => ?_
    rw [Catalog.onlyCalls_addCallEvidence.callTraces] at hr
    exact hr
  | claim hrun =>
    obtain ⟨d, ha, hcases⟩ := Catalog.claim_cases hrun
    refine hmoved rfl fun r hr => ?_
    rw [← ha.onlyCalls.callTraces]
    rcases hcases with ⟨-, rfl⟩ | ⟨r', preset, -, -, -, -, -, -, rfl⟩
    · exact hr
    · exact hr
  | finish hrun =>
    rename_i claim now
    obtain ⟨r', -, -, -, ⟨-, rfl⟩ | ⟨-, -, rfl⟩⟩ := Catalog.finish_cases hrun
    · exact hmoved rfl fun r hr => hr
    · refine hmoved rfl fun r hr => ?_
      rw [(@Catalog.onlyCalls_finished c now claim).callTraces] at hr
      exact hr
  | fail hrun =>
    obtain ⟨r', -, -, -, attempts, due, rfl⟩ := Catalog.fail_eq_some hrun
    exact hmoved rfl fun r hr => hr
  | purgeCall hrun =>
    obtain ⟨r', -, -, hkeys⟩ := Catalog.purgeCall_eq_some hrun
    refine hmoved rfl fun r hr => ?_
    rw [hkeys.callTraces] at hr
    exact (Table.mem_delete.mp hr).1

/-- **A call's first evidence is a reading of the clock.** -/
theorem timed_worldAfter (S : CallStore) (ops : List Op) :
    (worldAfter S ops).catalog.Timed (worldAfter S ops).readings := by
  have hrun := Transition.run_invariant
    (P := fun w : World => w.catalog.Linked ∧ w.catalog.Timed w.readings)
    (fun w op w' hw (h : step S w op = some w') => ⟨linked_step hw.1 (catalogStep_of_step h), by
      rw [readings_of_step h]
      exact hw.2.step hw.1 (catalogStep_of_step h)⟩) ops .init
    ⟨Catalog.linked_empty, ⟨fun r hr => absurd hr Table.not_mem_empty,
      fun r hr => absurd hr Table.not_mem_empty⟩⟩
  exact hrun.2

end Earshot
