import Earshot.Effects.Names
import Earshot.History.Resend
import Earshot.History.Cap
/-!
# A purged call is never rebuilt

A call carries the generation its fingerprint had when it was created. A
purge moves the generation past it and leaves a tombstone, so while the
call lives its generation is the current one, and once it is purged no call
is created under its generation again (`identified_worldAfter`). All of it
rests on the hash being injective.
-/

namespace Earshot

open Relational

/-- `revision_bundle_id` of a call that is gone. -/
def Call.bundleId (r : Call) (revision : ℕ) : String := r.callId ++ ".r" ++ toString revision

/-- **What the identities of calls are, in one state.** -/
structure World.Identified (S : CallStore) (w : World) : Prop where
  /-- A call is of its fingerprint's current generation. -/
  current : ∀ r ∈ w.catalog.calls,
    r.generation = w.catalog.generation r.projectId r.keyFingerprint
  /-- A fingerprint has at most one call. -/
  unique : ∀ r ∈ w.catalog.calls, ∀ r' ∈ w.catalog.calls, r.projectId = r'.projectId →
    r.keyFingerprint = r'.keyFingerprint → r = r'
  /-- A purged call's ID is no call's. -/
  callId_fresh : ∀ d ∈ w.purged, ∀ r ∈ w.catalog.calls, r.callId ≠ d.callId
  /-- A purged call's bundle IDs are no revision's. -/
  bundleId_fresh : ∀ d ∈ w.purged, ∀ v ∈ w.catalog.callRevisions, ∀ n, v.bundleId ≠ d.bundleId n
  /-- A key under an unexpired tombstone has no call. -/
  covered : ∀ p key now, (∀ t ∈ w.readings, t ≤ now) →
    w.catalog.tombstoned p (S.keyFingerprint p key) now = true →
    ∀ r ∈ w.catalog.calls, r.projectId = p → r.keyFingerprint ≠ S.keyFingerprint p key

/-- The purged calls' generations are past, and the calls' are current. -/
structure World.Generations (S : CallStore) (w : World) : Prop where
  linked : w.catalog.Linked
  named : ∀ r ∈ w.catalog.calls, r.identity.Named S
  current : ∀ r ∈ w.catalog.calls,
    r.generation = w.catalog.generation r.projectId r.keyFingerprint
  retired : ∀ d ∈ w.purged, d.identity.Named S ∧
    d.generation < w.catalog.generation d.projectId d.keyFingerprint
  bundles : ∀ v ∈ w.catalog.callRevisions, v.bundleId = v.callId ++ ".r" ++ toString v.revision
  covered : ∀ T ∈ w.catalog.callTombstones, (∀ t ∈ w.readings, t < T.expiresAtUnixNano) →
    ∀ key, T.keyFingerprint = S.keyFingerprint T.projectId key →
    ∀ r ∈ w.catalog.calls, r.projectId = T.projectId → r.keyFingerprint ≠ T.keyFingerprint

variable {S : CallStore} {w w' : World} {op : Op}

/-! ## What it gives -/

namespace World.Generations

theorem unique (h : w.Generations S) (hS : S.Injective) {r r' : Call} (hr : r ∈ w.catalog.calls)
    (hr' : r' ∈ w.catalog.calls) (hp : r.projectId = r'.projectId)
    (hk : r.keyFingerprint = r'.keyFingerprint) : r = r' := by
  have hg : r.generation = r'.generation := by rw [h.current r hr, h.current r' hr', hp, hk]
  have hid := (h.named r hr).eq_of_fingerprint hS (h.named r' hr') hk hg
  exact Table.eq_of_key_eq hr hr' (Prod.ext hp (congrArg CallIdentity.callId hid))

theorem callId_fresh (h : w.Generations S) (hS : S.Injective) {d r : Call} (hd : d ∈ w.purged)
    (hr : r ∈ w.catalog.calls) : r.callId ≠ d.callId := by
  intro hid
  obtain ⟨hnamed, hlt⟩ := h.retired d hd
  obtain ⟨hp, -, hk, hg⟩ := CallIdentity.mk.inj ((h.named r hr).eq_of_callId hS hnamed hid)
  have hcurrent := h.current r hr
  rw [hp, hk, hg] at hcurrent
  omega

theorem identified (h : w.Generations S) (hS : S.Injective) : w.Identified S where
  current := h.current
  unique _ hr _ hr' := h.unique hS hr hr'
  callId_fresh _ hd _ hr := h.callId_fresh hS hd hr
  bundleId_fresh d hd v hv n heq := by
    rw [h.bundles v hv, Call.bundleId] at heq
    -- the last dot starts the revision
    have hdot : ∀ m : ℕ, '.' ∉ ("r" ++ toString m : String).toList := by
      intro m hmem
      rw [String.toList_append, List.mem_append] at hmem
      rcases hmem with hmem | hmem
      · exact absurd hmem (by decide)
      · exact Encoding.notMem_toString (by decide) m hmem
    have hsplit : ∀ (x : String) (m : ℕ), x ++ ".r" ++ toString m =
        x ++ "." ++ ("r" ++ toString m) := by
      intro x m
      rw [← String.append_assoc, @String.append_assoc x "." "r"]
      rfl
    rw [hsplit, hsplit] at heq
    have hid := (Encoding.join_inj_of_right (by decide) (hdot _) (hdot _) heq).1
    obtain ⟨r, hr⟩ := Option.isSome_iff_exists.mp (h.linked.revision_call v hv)
    refine h.callId_fresh hS hd (Table.mem_of_find? hr) ?_
    rw [← hid]
    exact congrArg Prod.snd (Table.key_of_find? hr)
  covered p key now hnow hlive r hr hp := by
    obtain ⟨T, hT, rfl, hfingerprint, hexpires⟩ := Catalog.tombstoned_iff.mp hlive
    have hcovered := h.covered T hT (fun t ht => lt_of_le_of_lt (hnow t ht) hexpires) key
      hfingerprint r hr hp
    rwa [hfingerprint] at hcovered

end World.Generations

/-! ## Steps -/

theorem readings_of_step (h : Earshot.step S w op = some w') :
    w'.readings = op.readings ++ w.readings := by
  cases op with
  | provisionProject | failStaleUploads | releaseLeases | collectExpiredTombstones =>
      obtain rfl := Option.some.inj h
      rfl
  | setCapturePreset | beginProjectDeletion | recordSpans | createRecording | finishUpload
  | collectParkedTraces | purgeCall | claim =>
      obtain ⟨out, -, rfl⟩ := Option.map_eq_some_iff.mp h
      rfl
  | finish | fail =>
      rw [step] at h
      split at h
      · obtain ⟨out, -, rfl⟩ := Option.map_eq_some_iff.mp h
        rfl
      · cases h

/-- A revision's bundle ID is its call's ID and its number. -/
theorem bundles_of_catalogStep {c c' : Catalog} (h : CatalogStep S c op c')
    (hc : ∀ v ∈ c.callRevisions, v.bundleId = v.callId ++ ".r" ++ toString v.revision) :
    ∀ v ∈ c'.callRevisions, v.bundleId = v.callId ++ ".r" ++ toString v.revision := by
  cases h with
  | provisionProject | setCapturePreset | beginProjectDeletion | failStaleUploads
  | collectExpiredTombstones | releaseLeases => exact hc
  | recordSpans hrec =>
      simp only [(Catalog.onlyCalls_bumpCounter _ _ _).callRevisions,
        (recorded_of_record hrec).callRevisions]
      exact hc
  | createRecording hrun =>
      rcases Catalog.createRecording_cases hrun with rfl | rfl | ⟨-, -, c₁, h₁, rfl⟩
      · exact hc
      · rwa [(Catalog.onlyCalls_bumpCounter _ _ _).callRevisions]
      · exact (Catalog.onlyCalls_insertCalls h₁).callRevisions ▸ hc
  | finishUpload hrun =>
      obtain ⟨row, -, -, rfl⟩ := Catalog.finishUpload_eq_some hrun
      rwa [Catalog.onlyCalls_addCallEvidence.callRevisions]
  | collectParkedTraces hrun =>
      have hrevisions := Catalog.collectParkedTraces_induction
        (P := fun d => d.callRevisions = c.callRevisions)
        (fun d d' row hd _ _ hone => (Catalog.callRevisions_collectParkedTrace hone).trans hd)
        hrun rfl
      rwa [hrevisions]
  | claim hrun =>
      obtain ⟨d, ha, ⟨-, rfl⟩ | ⟨r, preset, -, -, -, -, -, -, rfl⟩⟩ := Catalog.claim_cases hrun
      · rwa [ha.onlyCalls.callRevisions]
      · exact ha.onlyCalls.callRevisions ▸ hc
  | finish hrun =>
      obtain ⟨r, -, -, -, ⟨-, rfl⟩ | ⟨-, -, rfl⟩⟩ := Catalog.finish_cases hrun
      · exact hc
      · intro v hv
        rw [Catalog.callRevisions_finished] at hv
        rcases Table.mem_insert.mp hv with hv | ⟨rfl, -⟩
        · exact hc v hv
        · rfl
  | fail hrun =>
      obtain ⟨r, -, -, -, attempts, due, rfl⟩ := Catalog.fail_eq_some hrun
      exact hc
  | purgeCall hrun =>
      obtain ⟨r, -, -, hkeys⟩ := Catalog.purgeCall_eq_some hrun
      intro v hv
      rw [hkeys.callRevisions] at hv
      exact hc v (Catalog.mem_callRevisions_deleteCall.mp hv).1

theorem World.Generations.of_identifies (hw : w.Generations S) (h : Earshot.step S w op = some w')
    (hop : op.isPurge = false) : w'.Generations S := by
  have hstep := catalogStep_of_step h
  obtain ⟨hgens, htombs, hcalls⟩ := identifies_of_catalogStep hw.linked hstep hop
  have hpurged : w'.purged = w.purged := by
    rw [(logs_of_step h).1]
    cases op with
    | purgeCall => cases hop
    | _ => rfl
  have hgeneration := Catalog.generation_congr hgens
  refine ⟨linked_step hw.linked hstep, fun r' hr' => ?_, fun r' hr' => ?_, fun d hd => ?_,
    bundles_of_catalogStep hstep hw.bundles, fun T hT hexpires key hkey r' hr' hp heq => ?_⟩
  · rcases hcalls r' hr' with ⟨r, hr, hid⟩ | ⟨now, -, hnew⟩
    · exact hid ▸ hw.named r hr
    · exact hnew.named
  · rw [hgeneration]
    rcases hcalls r' hr' with ⟨r, hr, hid⟩ | ⟨now, -, hnew⟩
    · obtain ⟨hp, -, hk, hg⟩ := CallIdentity.mk.inj hid
      rw [← hp, ← hk, ← hg]
      exact hw.current r hr
    · exact hnew.current
  · rw [hgeneration]
    exact hw.retired d (hpurged ▸ hd)
  · rw [readings_of_step h] at hexpires
    rcases hcalls r' hr' with ⟨r, hr, hid⟩ | ⟨now, hnow, hnew⟩
    · obtain ⟨hp', -, hk, -⟩ := CallIdentity.mk.inj hid
      exact hw.covered T (htombs T hT) (fun t ht => hexpires t (List.mem_append_right _ ht)) key
        hkey r hr (hp'.trans hp) (hk.trans heq)
    · -- the tombstone was live when the call was created
      have hlive : w.catalog.tombstoned r'.projectId r'.keyFingerprint now = true :=
        Catalog.tombstoned_iff.mpr ⟨T, htombs T hT, hp.symm, heq.symm,
          hexpires now (List.mem_append_left _ hnow)⟩
      have huncovered := hnew.uncovered
      change w.catalog.tombstoned r'.projectId r'.keyFingerprint now = false at huncovered
      rw [hlive] at huncovered
      cases huncovered

/-- **A purge** retires its call's generation. -/
theorem World.Generations.of_purge (hw : w.Generations S) (hS : S.Injective) {k : CallKey}
    {now : UnixNano} (h : Earshot.step S w (.purgeCall k now) = some w') : w'.Generations S := by
  have hstep := catalogStep_of_step h
  have hpurged := (logs_of_step h).1
  have hreadings := readings_of_step h
  have hlinked := linked_step hw.linked hstep
  have hbundles := bundles_of_catalogStep hstep hw.bundles
  generalize hc' : w'.catalog = c' at hstep hlinked hbundles
  cases hstep with
  | purgeCall hrun =>
      obtain ⟨d, hd, heq, hkeys⟩ := Catalog.purgeCall_eq_some hrun
      have hdmem := Table.mem_of_find? hd
      have hcurrent := hw.current d hdmem
      have hdeleted : d.generation =
          (w.catalog.deleteCall k).generation d.projectId d.keyFingerprint := hcurrent
      have hgeneration : ∀ p fingerprint, c'.generation p fingerprint =
          if (p, fingerprint) = (d.projectId, d.keyFingerprint) then d.generation + 1
          else w.catalog.generation p fingerprint := by
        intro p fingerprint
        rw [heq, Catalog.generation_congr (Catalog.callKeyGenerations_foldl_putTombstone _),
          Catalog.generation_bumpGeneration (Or.inr hdeleted)]
        rfl
      have hcalls : ∀ r ∈ c'.calls, r ∈ w.catalog.calls ∧ r ≠ d := by
        intro r hr
        rw [hkeys.calls] at hr
        have hfind := Table.find?_of_mem hr
        rw [Catalog.find?_calls_deleteCall] at hfind
        split at hfind
        · cases hfind
        · rename_i hne
          exact ⟨Table.mem_of_find? hfind, fun heq => hne (heq ▸ Table.key_of_find? hd)⟩
      -- the purged call was its fingerprint's only one
      have hother : ∀ r ∈ c'.calls,
          (r.projectId, r.keyFingerprint) ≠ (d.projectId, d.keyFingerprint) := by
        intro r hr hsame
        obtain ⟨hp, hk⟩ := Prod.mk.inj hsame
        exact (hcalls r hr).2 (hw.unique hS (hcalls r hr).1 hdmem hp hk)
      rw [Op.purgedCalls, hd, Option.toList_some, List.singleton_append] at hpurged
      refine ⟨hc' ▸ hlinked, fun r hr => ?_, fun r hr => ?_, fun x hx => ?_, hc' ▸ hbundles,
        fun T hT hexpires key hkey r hr hp hk => ?_⟩
      · rw [hc'] at hr
        exact hw.named r (hcalls r hr).1
      · rw [hc'] at hr ⊢
        rw [hgeneration, if_neg (hother r hr)]
        exact hw.current r (hcalls r hr).1
      · rw [hc', hgeneration]
        rw [hpurged] at hx
        rcases List.mem_cons.mp hx with rfl | hx
        · rw [if_pos rfl]
          exact ⟨hw.named _ hdmem, Nat.lt_succ_self _⟩
        · obtain ⟨hnamed, hlt⟩ := hw.retired x hx
          refine ⟨hnamed, ?_⟩
          split
          · rename_i hsame
            obtain ⟨hp, hk⟩ := Prod.mk.inj hsame
            rw [hp, hk, ← hcurrent] at hlt
            omega
          · exact hlt
      · rw [hc'] at hT hr
        rw [hreadings] at hexpires
        rw [heq] at hT
        rcases Catalog.mem_foldl_putTombstone hT with hold | ⟨row, hrow, hrowkey⟩
        · exact hw.covered T hold (fun t ht => hexpires t (List.mem_append_right _ ht)) key hkey r
            (hcalls r hr).1 hp hk
        · obtain ⟨hrowp, hrowk, -⟩ : row.projectId = T.projectId ∧
              row.keyFingerprint = T.keyFingerprint ∧ row.generation = T.generation := by
            simpa [CallTombstone.key] using hrowkey
          rcases List.mem_cons.mp hrow with rfl | htrace
          · exact hother r hr (Prod.ext (hp.trans hrowp.symm) (hk.trans hrowk.symm))
          · -- a trace's tombstone covers no session key
            obtain ⟨t, -, rfl⟩ := List.mem_map.mp htrace
            have hnames : S.nameFingerprint d.projectId (.trace t) =
                S.nameFingerprint T.projectId (.session key) := hrowk.trans hkey
            have hname := (CallStore.nameFingerprint_inj hS hnames).2
            cases hname

/-! ## Every run -/

/-- **A purged call is never rebuilt.** Under an injective hash, in every
state every run reaches: a call is of its fingerprint's current generation
and the only one of it, no call and no revision has an ID of a purged call,
and a key under an unexpired tombstone has no call. -/
theorem identified_worldAfter {S : CallStore} (hS : S.Injective) (ops : List Op) :
    (worldAfter S ops).Identified S := by
  have hrun : (worldAfter S ops).Generations S := by
    refine Transition.run_invariant (P := fun w : World => w.Generations S)
      (fun w op w' hw h => ?_) ops _ ?_
    · cases hop : op.isPurge with
      | false => exact hw.of_identifies h hop
      | true =>
          cases op with
          | purgeCall k now => exact hw.of_purge hS h
          | _ => cases hop
    · exact ⟨Catalog.linked_empty, fun _ h => absurd h List.not_mem_nil,
        fun _ h => absurd h List.not_mem_nil, fun _ h => absurd h List.not_mem_nil,
        fun _ h => absurd h List.not_mem_nil, fun _ h => absurd h List.not_mem_nil⟩
  exact hrun.identified hS

/-- A fingerprint of the plain store is its namespace's prefix and what it
hashes. -/
theorem fingerprint_plainStore (ns : Namespace) (v : String) :
    plainStore.fingerprint ns v = plainStore.fingerprint ns "" ++ v := by
  cases ns <;> simp [plainStore]

/-- The plain store's hash is injective: the four prefixes differ in their
first fourteen characters. -/
theorem injective_plainStore : plainStore.Injective := by
  have hhead : ∀ ns v, (plainStore.fingerprint ns v).toList.take 14 =
      (plainStore.fingerprint ns "").toList.take 14 := by
    intro ns v
    rw [fingerprint_plainStore, String.toList_append,
      List.take_append_of_le_length (by cases ns <;> decide)]
  have hprefix : ∀ ns ns', (plainStore.fingerprint ns "").toList.take 14 =
      (plainStore.fingerprint ns' "").toList.take 14 → ns = ns' := by
    intro ns ns' h
    cases ns <;> cases ns' <;> first | rfl | exact absurd h (by decide)
  refine ⟨fun {ns ns' v v'} h => ?_, fun h => h⟩
  have hns : ns = ns' := hprefix ns ns' (by rw [← hhead ns v, h, hhead])
  subst hns
  rw [fingerprint_plainStore ns v, fingerprint_plainStore ns v'] at h
  exact ⟨rfl, Encoding.append_left_inj_string h⟩

/-- A call recorded and purged, and its key's evidence sent again after the
tombstone expired. -/
theorem identified_worldAfter_returned :
    (worldAfter plainStore (purgedRun ++ [.recordSpans demoProject
      [demoSpan 2 1 "app" "b" (some "k")] 0 1000000000000000])).Identified plainStore :=
  identified_worldAfter injective_plainStore _

end Earshot
