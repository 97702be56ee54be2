import Earshot.Common.Encoding
import Earshot.Effects.Rows
/-!
# The names of calls

A call is named by a session key or by a trace. Its fingerprint hashes the
project and the name, its ID the project, the name and a generation; no
field contains the separator the parts are joined by but a session key,
which stands between the first separator and the last. So under an
injective hash a fingerprint is one name's and an ID is one call's
(`nameFingerprint_inj`, `nameId_inj`). A purge moves one name's generation
on, and nothing else moves any; a call is created under the current
generation of a name no live tombstone covers (`identifies_of_catalogStep`).
-/

namespace Earshot

open Relational

/-! ## Names -/

/-- What a call is keyed by. -/
inductive CallName where
  | session (key : String)
  | trace (traceId : TraceId)
  deriving DecidableEq

namespace CallStore

variable {S : CallStore} {p p' : ProjectId} {n n' : CallName} {g g' : ℕ}

def nameFingerprint (S : CallStore) (p : ProjectId) : CallName → String
  | .session key => S.keyFingerprint p key
  | .trace t => S.traceKeyFingerprint p t

def nameId (S : CallStore) (p : ProjectId) : CallName → ℕ → String
  | .session key => S.callId p key
  | .trace t => S.traceCallId p t

/-- **The keyed hash is injective**, and so is what call IDs keep of it. -/
structure Injective (S : CallStore) : Prop where
  fingerprint : ∀ {ns ns' v v'}, S.fingerprint ns v = S.fingerprint ns' v' → ns = ns' ∧ v = v'
  short : ∀ {ns ns' v v'}, S.short (S.fingerprint ns v) = S.short (S.fingerprint ns' v') →
    S.fingerprint ns v = S.fingerprint ns' v'

/-! ### What is hashed -/

theorem nul_notMem_project (p : ProjectId) : '\x00' ∉ p.value.toList := by
  have hp := p.portable
  unfold isPortable at hp
  split at hp
  · cases hp
  · rename_i first rest heq
    rw [heq]
    simp only [Bool.and_eq_true, Bool.or_eq_true, List.all_eq_true, beq_iff_eq] at hp
    intro hmem
    rcases List.mem_cons.mp hmem with hfirst | hrest
    · rw [← hfirst] at hp
      rcases hp.1.1 with h | h
      · exact absurd h (by decide)
      · exact absurd h (by decide)
    · rcases hp.2 _ hrest with ((h | h) | h) | h
      · exact absurd h (by decide)
      · exact absurd h (by decide)
      · exact absurd h (by decide)
      · exact absurd h (by decide)

theorem hexDigit_inj : ∀ x y : BitVec 4, hexDigit x = hexDigit y → x = y := by decide

/-- Hex digits determine the bytes. -/
theorem hex_inj {t t' : TraceId} (h : TraceId.hex t = TraceId.hex t') : t = t' := by
  have hlist := String.ofList_injective h
  rw [List.map_inj_left] at hlist
  refine BitVec.eq_of_getLsbD_eq fun i hi => ?_
  have hdigit := hexDigit_inj _ _ (hlist (31 - i / 4) (List.mem_range.mpr (by omega)))
  have hbit := congrArg (fun x : BitVec 4 => x.getLsbD (i % 4)) hdigit
  have hlt : i % 4 < 4 := Nat.mod_lt _ (by omega)
  have hindex : 4 * (31 - (31 - i / 4)) + i % 4 = i := by omega
  simpa [BitVec.getLsbD_extractLsb', hlt, hindex] using hbit

theorem fields_inj {x x' : String} (h : p.value ++ "\x00" ++ x = p'.value ++ "\x00" ++ x') :
    p = p' ∧ x = x' := by
  obtain ⟨hp, hx⟩ := Encoding.join_inj_of_left (by decide) (nul_notMem_project p)
    (nul_notMem_project p') h
  exact ⟨by cases p; cases p'; simpa using hp, hx⟩

theorem fieldsGeneration_inj {x x' : String}
    (h : p.value ++ "\x00" ++ x ++ "\x00" ++ toString g =
      p'.value ++ "\x00" ++ x' ++ "\x00" ++ toString g') : p = p' ∧ x = x' ∧ g = g' := by
  obtain ⟨hfields, hgeneration⟩ := Encoding.join_inj_of_right (c := '\x00') (by decide)
    (Encoding.notMem_toString (by decide) g) (Encoding.notMem_toString (by decide) g') h
  obtain ⟨hp, hx⟩ := fields_inj hfields
  exact ⟨hp, hx, Encoding.toString_inj hgeneration⟩

/-! ### Under an injective hash -/

/-- **A fingerprint is one name's.** -/
theorem nameFingerprint_inj (hS : S.Injective)
    (h : S.nameFingerprint p n = S.nameFingerprint p' n') : p = p' ∧ n = n' := by
  cases n with
  | session key =>
      cases n' with
      | session key' =>
          obtain ⟨hp, rfl⟩ := fields_inj (hS.fingerprint h).2
          exact ⟨hp, rfl⟩
      | trace t' => exact absurd (hS.fingerprint h).1 (by decide)
  | trace t =>
      cases n' with
      | session key' => exact absurd (hS.fingerprint h).1 (by decide)
      | trace t' =>
          obtain ⟨hp, hhex⟩ := fields_inj (hS.fingerprint h).2
          exact ⟨hp, congrArg CallName.trace (hex_inj hhex)⟩

/-- **A call ID is one name's, of one generation.** -/
theorem nameId_inj (hS : S.Injective) (h : S.nameId p n g = S.nameId p' n' g') :
    p = p' ∧ n = n' ∧ g = g' := by
  cases n with
  | session key =>
      cases n' with
      | session key' =>
          have hhash := hS.fingerprint (hS.short (Encoding.append_left_inj_string h))
          obtain ⟨hp, rfl, hg⟩ := fieldsGeneration_inj hhash.2
          exact ⟨hp, rfl, hg⟩
      | trace t' =>
          have hhash := hS.fingerprint (hS.short (Encoding.append_left_inj_string h))
          exact absurd hhash.1 (by decide)
  | trace t =>
      cases n' with
      | session key' =>
          have hhash := hS.fingerprint (hS.short (Encoding.append_left_inj_string h))
          exact absurd hhash.1 (by decide)
      | trace t' =>
          have hhash := hS.fingerprint (hS.short (Encoding.append_left_inj_string h))
          obtain ⟨hp, hhex, hg⟩ := fieldsGeneration_inj hhash.2
          exact ⟨hp, congrArg CallName.trace (hex_inj hhex), hg⟩

end CallStore

/-! ## Identities -/

/-- What a call is, whatever happens to it. -/
structure CallIdentity where
  projectId : ProjectId
  callId : String
  keyFingerprint : String
  generation : ℕ
  deriving DecidableEq

def Call.identity (r : Call) : CallIdentity :=
  ⟨r.projectId, r.callId, r.keyFingerprint, r.generation⟩

/-- The identity is that of a name and a generation. -/
def CallIdentity.Named (S : CallStore) (i : CallIdentity) : Prop :=
  ∃ n, i.keyFingerprint = S.nameFingerprint i.projectId n ∧
    i.callId = S.nameId i.projectId n i.generation

namespace CallIdentity

variable {S : CallStore} {i i' : CallIdentity}

/-- Names of one fingerprint differ at most in their generation. -/
theorem Named.eq_of_fingerprint (hS : S.Injective) (h : i.Named S) (h' : i'.Named S)
    (hk : i.keyFingerprint = i'.keyFingerprint) (hg : i.generation = i'.generation) : i = i' := by
  obtain ⟨n, hn, hid⟩ := h
  obtain ⟨n', hn', hid'⟩ := h'
  rw [hn, hn'] at hk
  obtain ⟨hp, rfl⟩ := CallStore.nameFingerprint_inj hS hk
  cases i
  cases i'
  simp only at hp hg hn hn' hid hid' ⊢
  subst hp hg
  simp only [mk.injEq, true_and, and_true]
  exact ⟨hid.trans hid'.symm, hn.trans hn'.symm⟩

theorem Named.eq_of_callId (hS : S.Injective) (h : i.Named S) (h' : i'.Named S)
    (hid : i.callId = i'.callId) : i = i' := by
  obtain ⟨n, hn, hi⟩ := h
  obtain ⟨n', hn', hi'⟩ := h'
  rw [hi, hi'] at hid
  obtain ⟨hp, rfl, hg⟩ := CallStore.nameId_inj hS hid
  cases i
  cases i'
  simp only at hp hg hn hn' hi hi' ⊢
  subst hp hg
  simp only [mk.injEq, true_and, and_true]
  exact ⟨hi.trans hi'.symm, hn.trans hn'.symm⟩

end CallIdentity

namespace Call

variable {S : CallStore} {item : Evidence} {now : UnixNano} {final : Bool} {r : Call}

theorem identity_noted : (r.noted final).identity = r.identity := by
  unfold noted
  split <;> rfl

theorem identity_addEvidence : (r.addEvidence S item now).identity = r.identity := by
  unfold addEvidence
  split <;> rfl

theorem identity_credited : (r.credited S item now final).identity = r.identity := by
  unfold credited
  split
  · rw [identity_noted, identity_addEvidence]
  · exact identity_addEvidence

end Call

theorem RowStep.identity {S : CallStore} {x y : Bool × Call} (h : RowStep S x y) :
    y.2.identity = x.2.identity := by
  cases h with
  | setAside | release | lease | discard | fail => rfl
  | credit => exact Call.identity_credited
  | finish final final' r revision =>
      have hnoted : ((r.close (some revision)).noted final').identity =
          (r.close (some revision)).identity := Call.identity_noted
      exact hnoted

/-! ## What an operation does to them -/

/-- A call under the current generation of a name no live tombstone covers. -/
structure NewlyNamed (S : CallStore) (c : Catalog) (now : UnixNano) (i : CallIdentity) : Prop where
  named : i.Named S
  current : i.generation = c.generation i.projectId i.keyFingerprint
  uncovered : c.tombstoned i.projectId i.keyFingerprint now = false

/-- **The calls are those there were, and newly named ones**, named at one of
the readings; no generation moves and no tombstone comes. -/
structure Identifies (S : CallStore) (c : Catalog) (readings : List UnixNano) (c' : Catalog) :
    Prop where
  generations : c'.callKeyGenerations = c.callKeyGenerations
  tombstones : ∀ T ∈ c'.callTombstones, T ∈ c.callTombstones
  calls : ∀ r' ∈ c'.calls, (∃ r ∈ c.calls, r.identity = r'.identity) ∨
    ∃ now ∈ readings, NewlyNamed S c now r'.identity

namespace Catalog

variable {S : CallStore} {c c' d : Catalog} {p : ProjectId} {prepared : List Prepared}
variable {preset : CapturePreset} {now : UnixNano}

theorem generation_congr (h : c'.callKeyGenerations = c.callKeyGenerations) (p : ProjectId)
    (fingerprint : String) : c'.generation p fingerprint = c.generation p fingerprint := by
  rw [generation, generation, h]

theorem tombstoned_congr (h : c'.callTombstones = c.callTombstones) (p : ProjectId)
    (fingerprint : String) (now : UnixNano) :
    c'.tombstoned p fingerprint now = c.tombstoned p fingerprint now := by
  rw [tombstoned, tombstoned, h]

/-- The target of a name: its call is named by it. -/
theorem newlyNamed_namedTarget {key : SessionKey} {first : UnixNano}
    {due : Option UnixNano}
    (huncovered : c.tombstoned p (S.keyFingerprint p key.value) now = false) :
    NewlyNamed S c now (newCall p { namedTarget S c p now key with firstEvidence := first } key
      preset due).identity where
  named := ⟨.session key.value, rfl, rfl⟩
  current := rfl
  uncovered := huncovered

/-- A batch creates calls its unbound traces' first keys name. -/
theorem exists_namedTarget_of_created {u : CallTarget} (hu : u ∈ keptTargets S c p prepared now)
    (hcreated : u.created = true) : ∃ key first,
      u = { namedTarget S c p now key with firstEvidence := first } ∧
      c.tombstoned p (S.keyFingerprint p key.value) now = false := by
  obtain ⟨t, ht, target, htarget, first, rfl⟩ := mem_keptTargets hu
  rcases resolveTarget_cases S c p prepared now t with
    ⟨callId, -, -, heq⟩ | ⟨-, -, heq⟩ | ⟨-, -, -, -, heq⟩ | ⟨hb, hpurged, key, hkey, -, heq⟩
  · rw [heq] at htarget
    obtain rfl := Option.some.inj htarget
    cases hcreated
  · rw [heq] at htarget
    cases htarget
  · rw [heq] at htarget
    cases htarget
  · rw [heq] at htarget
    obtain rfl := Option.some.inj htarget
    refine ⟨key, first, rfl, ?_⟩
    rw [← Bool.not_eq_true]
    exact fun hlive => hpurged ⟨hb, Or.inr ⟨key, hkey, hlive⟩⟩

theorem identifies_recorded (h : Recorded S c p prepared preset now c') :
    Identifies S c [now] c' where
  generations := h.callKeyGenerations
  tombstones T hT := h.callTombstones ▸ hT
  calls r' hr' := by
    obtain ⟨⟨p', callId⟩, hk⟩ : ∃ k, r'.key = k := ⟨_, rfl⟩
    have hfind : c'.calls.find? (p', callId) = some r' := hk ▸ Table.find?_of_mem hr'
    by_cases hp : p' = p
    · subst hp
      have hcredited : ∀ r, (creditedRow S c p' prepared now r).identity = r.identity := by
        intro r
        rw [creditedRow]
        split
        · rfl
        · exact Call.identity_credited
      cases hr : c.calls.find? (p', callId) with
      | some r =>
          rw [h.calls_stored callId r hr] at hfind
          obtain rfl := Option.some.inj hfind
          exact Or.inl ⟨r, Table.mem_of_find? hr, (hcredited r).symm⟩
      | none =>
          obtain ⟨target, htarget, hcreated, -, ⟨key, hkey, rfl⟩, -⟩ :=
            h.calls_new callId r' hr hfind
          obtain ⟨key', first, rfl, huncovered⟩ := exists_namedTarget_of_created htarget hcreated
          obtain rfl : key' = key := Option.some.inj hkey
          rw [hcredited]
          exact Or.inr ⟨now, List.mem_singleton_self now, newlyNamed_namedTarget huncovered⟩
    · rw [h.calls_other _ hp] at hfind
      exact Or.inl ⟨r', Table.mem_of_find? hfind, rfl⟩

theorem identifies_createRecording {manifest : RecordingManifest} {result : CreateResult}
    (h : c.createRecording S p manifest now = some (c', result)) : Identifies S c [now] c' := by
  rcases createRecording_cases h with rfl | rfl | ⟨huncovered, -, c₁, h₁, rfl⟩
  · exact ⟨rfl, fun T hT => hT, fun r hr => Or.inl ⟨r, hr, rfl⟩⟩
  · have honly := onlyCalls_bumpCounter (c := c) p .purgedCallEvidenceDropped 1
    refine ⟨honly.callKeyGenerations, fun T hT => honly.callTombstones ▸ hT, fun r hr => ?_⟩
    rw [calls_bumpCounter] at hr
    exact Or.inl ⟨r, hr, rfl⟩
  · have honly := onlyCalls_insertCalls h₁
    refine ⟨honly.callKeyGenerations, fun T hT => honly.callTombstones ▸ hT, fun r' hr' => ?_⟩
    have hfind : c₁.calls.find? r'.key = some r' := Table.find?_of_mem hr'
    cases hr : c.calls.find? r'.key with
    | some r =>
        rw [find?_insertCalls_of_some h₁ hr] at hfind
        exact Or.inl ⟨r, Table.mem_of_find? hr, by rw [Option.some.inj hfind]⟩
    | none =>
        obtain ⟨target, htarget, -, key, hkey, heq, -⟩ := find?_insertCalls_of_none h₁ hr hfind
        obtain rfl := List.mem_singleton.mp htarget
        obtain rfl : ⟨manifest.sessionKey, .recording⟩ = key := Option.some.inj hkey
        rw [heq]
        exact Or.inr ⟨now, List.mem_singleton_self now, newlyNamed_namedTarget huncovered⟩

theorem identifies_collectParkedTraces {limit : ℕ} {clock : ProjectId × TraceId → UnixNano}
    (h : c.collectParkedTraces S now limit clock = some c') : Identifies S c [now] c' := by
  have hall := collectParkedTraces_induction
    (P := fun d => d.callTombstones = c.callTombstones ∧ Identifies S c [now] d)
    (fun d d' row hd _ _ hone => ?_) h
    ⟨rfl, rfl, fun T hT => hT, fun r hr => Or.inl ⟨r, hr, rfl⟩⟩
  · exact hall.2
  · obtain ⟨htombs, hgens, -, hcalls⟩ := hd
    rcases collectParkedTrace_cases hone with ⟨name, n, -, rfl⟩ | ⟨-, huncovered, c₁, h₁, rfl⟩
    · have honly := onlyCalls_bumpCounter (c := d.deleteTrace row.projectId row.traceId)
        row.projectId name n
      have htombs' := honly.callTombstones.trans htombs
      refine ⟨htombs', honly.callKeyGenerations.trans hgens, fun T hT => htombs' ▸ hT,
        fun r hr => ?_⟩
      rw [calls_bumpCounter] at hr
      exact hcalls r hr
    · have honly := onlyCalls_insertCall h₁
      have htombs' := honly.callTombstones.trans htombs
      refine ⟨htombs', honly.callKeyGenerations.trans hgens, fun T hT => htombs' ▸ hT,
        fun r' hr' => ?_⟩
      change r' ∈ c₁.calls at hr'
      rw [(insertCall_eq_some h₁).2] at hr'
      rcases Table.mem_insert.mp hr' with hr' | ⟨rfl, -⟩
      · exact hcalls r' hr'
      · refine Or.inr ⟨now, List.mem_singleton_self now,
          ⟨.trace row.traceId, rfl, rfl⟩, generation_congr hgens _ _, ?_⟩
        rw [← tombstoned_congr htombs]
        exact huncovered

theorem identifies_of_moved {readings : List UnixNano}
    (hgens : c'.callKeyGenerations = c.callKeyGenerations)
    (htombs : ∀ T ∈ c'.callTombstones, T ∈ c.callTombstones)
    (hmoved : ∀ k r', c'.calls.find? k = some r' → Moved S c c' k r') :
    Identifies S c readings c' where
  generations := hgens
  tombstones := htombs
  calls r' hr' := by
    obtain ⟨r, hr, hsteps⟩ := hmoved _ r' (Table.find?_of_mem hr')
    refine Or.inl ⟨r, Table.mem_of_find? hr, ?_⟩
    generalize hx : (c.hasFinal r'.key, r) = x at hsteps
    generalize hy : (c'.hasFinal r'.key, r') = y at hsteps
    obtain rfl : r = x.2 := congrArg Prod.snd hx
    obtain rfl : r' = y.2 := congrArg Prod.snd hy
    cases hsteps with
    | refl => rfl
    | single hone => exact hone.identity.symm

end Catalog

/-- The clock readings an operation takes. -/
def Op.readings : Op → List UnixNano
  | .provisionProject _ _ | .setCapturePreset _ _ | .beginProjectDeletion _ | .releaseLeases => []
  | .recordSpans _ _ _ now | .createRecording _ _ now | .finishUpload _ _ _ now
  | .failStaleUploads _ _ now | .collectParkedTraces _ _ now | .claim _ now | .finish _ now
  | .fail _ _ now | .purgeCall _ now | .collectExpiredTombstones _ now => [now]

/-- Whether the operation may create a call. -/
def Op.creates : Op → Bool
  | .recordSpans _ _ _ _ | .createRecording _ _ _ | .collectParkedTraces _ _ _ => true
  | _ => false

theorem Created.creates {S : CallStore} {c : Catalog} {op : Op} {k : CallKey} {r : Call}
    (h : Created S c op k r) : op.creates = true := by
  cases h with
  | spans | recording | promoted => rfl

/-- Whether the operation is a purge. -/
def Op.isPurge : Op → Bool
  | .purgeCall _ _ => true
  | _ => false

/-- **Every operation but a purge identifies**, at the readings it takes. -/
theorem identifies_of_catalogStep {S : CallStore} {c c' : Catalog} {op : Op} (hl : c.Linked)
    (h : CatalogStep S c op c') (hop : op.isPurge = false) :
    Identifies S c op.readings c' := by
  have hstep := h
  have hother : op.creates = false →
      ∀ k r', c'.calls.find? k = some r' → Catalog.Moved S c c' k r' := by
    intro hno k r' hr'
    rcases row_of_catalogStep hl hstep hr' with hmoved | ⟨-, hcreated⟩
    · exact hmoved
    · rw [hcreated.creates] at hno
      cases hno
  cases h with
  | provisionProject | setCapturePreset | beginProjectDeletion | releaseLeases
  | failStaleUploads =>
      exact Catalog.identifies_of_moved rfl (fun T hT => hT) (hother rfl)
  | collectExpiredTombstones =>
      exact Catalog.identifies_of_moved rfl (fun T hT => (Table.mem_delete.mp hT).1) (hother rfl)
  | recordSpans =>
      obtain ⟨_, d, hd, honly, hcalls⟩ := recorded_of_catalogStep hstep
      obtain ⟨hgens, htombs, hall⟩ := Catalog.identifies_recorded hd
      exact ⟨honly.callKeyGenerations.trans hgens,
        fun T hT => htombs T (honly.callTombstones ▸ hT), fun r hr => hall r (hcalls ▸ hr)⟩
  | createRecording hrun => exact Catalog.identifies_createRecording hrun
  | collectParkedTraces hrun => exact Catalog.identifies_collectParkedTraces hrun
  | finishUpload hrun =>
      obtain ⟨row, -, -, heq⟩ := Catalog.finishUpload_eq_some hrun
      refine Catalog.identifies_of_moved ?_ (fun T hT => ?_) (hother rfl)
      · rw [heq]
        exact Catalog.onlyCalls_addCallEvidence.callKeyGenerations
      · rw [heq, Catalog.onlyCalls_addCallEvidence.callTombstones] at hT
        exact hT
  | claim hrun =>
      obtain ⟨d, ha, hcases⟩ := Catalog.claim_cases hrun
      refine Catalog.identifies_of_moved ?_ (fun T hT => ?_) (hother rfl)
      · rcases hcases with ⟨-, rfl⟩ | ⟨r, preset, -, -, -, -, -, -, rfl⟩
        · exact ha.onlyCalls.callKeyGenerations
        · exact ha.onlyCalls.callKeyGenerations
      · rw [← ha.onlyCalls.callTombstones]
        rcases hcases with ⟨-, rfl⟩ | ⟨r, preset, -, -, -, -, -, -, rfl⟩
        · exact hT
        · exact hT
  | finish hrun =>
      rename_i claim now
      obtain ⟨r, -, -, -, ⟨-, rfl⟩ | ⟨-, -, rfl⟩⟩ := Catalog.finish_cases hrun
      · exact Catalog.identifies_of_moved rfl (fun T hT => hT) (hother rfl)
      · have honly := @Catalog.onlyCalls_finished c now claim
        exact Catalog.identifies_of_moved honly.callKeyGenerations
          (fun T hT => honly.callTombstones ▸ hT) (hother rfl)
  | fail hrun =>
      obtain ⟨r, -, -, -, attempts, due, rfl⟩ := Catalog.fail_eq_some hrun
      exact Catalog.identifies_of_moved rfl (fun T hT => hT) (hother rfl)
  | purgeCall => cases hop

/-! ## Purges -/

namespace Catalog

variable {S : CallStore} {c c' : Catalog} {p : ProjectId} {now : UnixNano} {k : CallKey}

theorem generation_bumpGeneration {p' : ProjectId} {fingerprint fingerprint' : String} {g : ℕ}
    (hg : c.callKeyGenerations.find? (p, fingerprint) = none ∨ g = c.generation p fingerprint) :
    (c.bumpGeneration p fingerprint g).generation p' fingerprint' =
      if (p', fingerprint') = (p, fingerprint) then g + 1 else c.generation p' fingerprint' := by
  rw [generation, bumpGeneration]
  dsimp only
  split
  · rename_i hsome
    obtain ⟨row, hrow⟩ := Option.isSome_iff_exists.mp hsome
    have hcurrent : g = row.generation := by
      rcases hg with hnone | hg
      · rw [hrow] at hnone
        cases hnone
      · rw [hg, generation, hrow]
        rfl
    rw [Table.find?_patch]
    by_cases hk : (p', fingerprint') = (p, fingerprint)
    · rw [if_pos hk, hk, hrow, Option.map_some, if_pos (Table.key_of_find? hrow), hcurrent]
      rfl
    · rw [if_neg hk, generation]
      cases hr : c.callKeyGenerations.find? (p', fingerprint') with
      | none => rfl
      | some r =>
          rw [Option.map_some, if_neg fun heq => hk ((Table.key_of_find? hr).symm.trans heq)]
  · rename_i hnone
    rw [Option.not_isSome_iff_eq_none] at hnone
    rw [Table.find?_insert]
    by_cases hk : (p', fingerprint') = (p, fingerprint)
    · rw [if_pos hk, hk, hnone, Option.none_or]
      change ((if (p, fingerprint) = (p, fingerprint) then _ else none).map _).getD 0 = _
      rw [if_pos rfl]
      rfl
    · rw [if_neg hk, generation]
      have hne : ¬ (⟨p, fingerprint, g + 1⟩ : CallKeyGeneration).key = (p', fingerprint') :=
        fun heq => hk heq.symm
      rw [if_neg hne, Option.or_none]

theorem callKeyGenerations_foldl_putTombstone (rows : List CallTombstone) :
    (rows.foldl putTombstone c).callKeyGenerations = c.callKeyGenerations := by
  induction rows generalizing c with
  | nil => rfl
  | cons row rows ih => exact ih

/-- A tombstone after some were put was there, or is one of them. -/
theorem mem_foldl_putTombstone {rows : List CallTombstone} {T : CallTombstone}
    (h : T ∈ (rows.foldl putTombstone c).callTombstones) :
    T ∈ c.callTombstones ∨ ∃ row ∈ rows, row.key = T.key := by
  induction rows generalizing c with
  | nil => exact Or.inl h
  | cons row rows ih =>
      rcases ih h with hT | ⟨row', hrow', hkey⟩
      · rw [putTombstone] at hT
        dsimp only at hT
        split at hT
        · obtain ⟨T₀, hT₀, hpatch⟩ := Table.mem_patch.mp hT
          split at hpatch
          · rename_i hkey
            refine Or.inr ⟨row, List.mem_cons_self, ?_⟩
            rw [← hpatch]
            exact hkey.symm
          · exact Or.inl (hpatch ▸ hT₀)
        · rcases Table.mem_insert.mp hT with hT | ⟨rfl, -⟩
          · exact Or.inl hT
          · exact Or.inr ⟨T, List.mem_cons_self, rfl⟩
      · exact Or.inr ⟨row', List.mem_cons_of_mem _ hrow', hkey⟩

end Catalog

end Earshot
