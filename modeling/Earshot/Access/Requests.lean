import Earshot.Access.Keys
/-!
# What an operation can do

Said once for every operation: to the catalog (`Tended`), and to the requests and
what the processes remember (`Acted`, `Began`, `Idle`), with the guards it ran
under.
-/

open Relational

namespace Earshot.Access

namespace KeyStore

variable {δ : Type} [DecidableEq δ] {s s' : KeyStore δ} {sha256 : List Char → δ}
  {scrypt : List Char → Bytes → Bytes}

/-! ## The catalog -/

omit [DecidableEq δ] in
/-- A live key is not revoked, and its project is active. -/
theorem live_eq_some {keyId : List Char} {k : ApiKey} :
    s.live keyId = some k ↔
      k ∈ s.keys ∧ k.keyId = keyId ∧ k.revoked = false ∧ s.isActive k.projectId = true := by
  rw [live, Option.filter_eq_some_iff, Table.find?_eq_some]
  simp [and_assoc]

omit [DecidableEq δ] in
/-- A key is not live if each under its ID is revoked or its project is not active. -/
theorem live_eq_none {keyId : List Char} :
    s.live keyId = none ↔
      ∀ k ∈ s.keys, k.keyId = keyId → k.revoked = false → s.isActive k.projectId = false := by
  rw [Option.eq_none_iff_forall_ne_some]
  simp only [ne_eq, live_eq_some, not_and, Bool.not_eq_true]

/-- What an operation may do to the catalog: a project stays and is not brought
back, an issued key stays issued, and a row is what it was but for a revocation
or its use, unless its key is new. -/
structure Tended (s s' : KeyStore δ) : Prop where
  projects : ∀ p, (s.projects.find? p).isSome = true →
    (s'.projects.find? p).isSome = true ∧ (s'.isActive p = true → s.isActive p = true)
  issued : ∀ k ∈ s.issued, k ∈ s'.issued
  housed : ∀ k ∈ s'.issued, k ∈ s.issued ∨ (s.projects.find? k.projectId).isSome = true
  keys : ∀ k ∈ s'.keys,
    (∃ k₀ ∈ s.keys, k₀.toIssuedKey = k.toIssuedKey ∧ (k₀.revoked = true → k.revoked = true)) ∨
    (k.toIssuedKey ∈ s'.issued ∧ s.issued.find? k.keyId = none)

omit [DecidableEq δ] in
theorem Tended.of_eq (hprojects : s'.projects = s.projects) (hissued : s'.issued = s.issued)
    (hkeys : s'.keys = s.keys) : Tended s s' where
  projects := fun p h => by
    rw [isActive, isActive, hprojects]
    exact ⟨h, id⟩
  issued := fun k h => hissued ▸ h
  housed := fun k h => .inl (hissued ▸ h)
  keys := fun k h => .inl ⟨k, hkeys ▸ h, rfl, id⟩

omit [DecidableEq δ] in
theorem unclaim_eq (r : Request) (now : ℤ) (previous : Option ℤ) :
    ∃ keyUse, s.unclaim r now previous = { s with keyUse := keyUse } := by
  simp only [unclaim, withUses]
  split
  · exact ⟨_, rfl⟩
  · exact ⟨s.keyUse, rfl⟩

omit [DecidableEq δ] in
theorem tended_used (keyId : List Char) (unixNano : ℤ) : Tended s (s.used keyId unixNano) where
  projects := fun p h => ⟨h, id⟩
  issued := fun k h => h
  housed := fun k h => .inl h
  keys := by
    intro k hk
    obtain ⟨k₀, hk₀, rfl⟩ := List.mem_map.mp hk
    refine .inl ⟨k₀, hk₀, ?_⟩
    split
    · exact ⟨rfl, id⟩
    · exact ⟨rfl, id⟩

theorem tended_verdict (r : Request) (now : ℤ) : Tended s (s.verdict sha256 r now) := by
  simp only [verdict]
  split
  · exact .of_eq rfl rfl rfl
  · split
    · exact .of_eq rfl rfl rfl
    · exact .of_eq rfl rfl rfl

/-- Verifying a secret leaves the keys. -/
theorem tended_verify (r : Request) (now : ℤ) : Tended s (s.verify sha256 scrypt r now) := by
  simp only [verify]
  split
  · exact .of_eq rfl rfl rfl
  · exact .of_eq rfl rfl rfl

omit [DecidableEq δ] in
theorem tended_claimUse (r : Request) (provedAt now : ℤ) :
    Tended s (s.claimUse r provedAt now) := by
  simp only [claimUse]
  split
  · exact .of_eq rfl rfl rfl
  · exact .of_eq rfl rfl rfl

/-- Recording a use leaves all of the keys but when they were used. -/
theorem tended_recordUse (r : Request) (provedAt now : ℤ) (previous : Option ℤ)
    (recording : Recording) : Tended s (s.recordUse sha256 r provedAt now previous recording) := by
  obtain ⟨keyUse, hunclaim⟩ := unclaim_eq (s := s) r now previous
  cases recording with
  | written unixNano =>
    simp only [recordUse]
    split
    · have h := tended_used (s := s) r.key.keyId unixNano
      exact ⟨h.projects, h.issued, h.housed, h.keys⟩
    · exact .of_eq rfl rfl rfl
  | busy =>
    rw [recordUse, hunclaim]
    exact .of_eq rfl rfl rfl
  | raised =>
    rw [recordUse, hunclaim]
    exact .of_eq rfl rfl rfl

/-- **Every operation tends the catalog.** -/
theorem tended_of_step {op : Op} (h : step sha256 scrypt s op = some s') : Tended s s' := by
  cases op with
  | provision p =>
    cases h
    refine ⟨fun q hq => ?_, fun k hk => hk, fun k hk => .inl hk, fun k hk => .inl ⟨k, hk, rfl, id⟩⟩
    obtain ⟨r, hr⟩ := Option.isSome_iff_exists.mp hq
    have hfind : (s.projects.insert ⟨p, true⟩).find? q = some r := by
      rw [Table.find?_insert, hr]
      rfl
    rw [isActive, isActive, hfind, hr]
    exact ⟨rfl, id⟩
  | beginDeletion p =>
    cases h
    refine ⟨fun q hq => ?_, fun k hk => hk, fun k hk => .inl hk, fun k hk => .inl ⟨k, hk, rfl, id⟩⟩
    obtain ⟨r, hr⟩ := Option.isSome_iff_exists.mp hq
    simp only [isActive, Table.find?_patch, hr, Option.map_some, Option.any_some,
      Option.isSome_some, true_and]
    split
    · intro hfalse
      cases hfalse
    · exact id
  | deleteKeys p batch =>
    simp only [step] at h
    split at h
    · cases h
      exact ⟨fun q hq => ⟨hq, id⟩, fun k hk => hk, fun k hk => .inl hk,
        fun k hk => .inl ⟨k, (Table.mem_delete.mp hk).1, rfl, id⟩⟩
    · cases h
  | issue p keyId salt secret =>
    simp only [step] at h
    split at h
    · next hguard =>
      cases h
      refine ⟨fun q hq => ⟨hq, id⟩, fun k hk => Table.mem_insert.mpr (.inl hk), fun k hk => ?_,
        fun k hk => ?_⟩
      · rcases Table.mem_insert.mp hk with hk | ⟨rfl, -⟩
        · exact .inl hk
        · refine .inr ?_
          have hactive := hguard.1
          rw [isActive] at hactive
          cases hfind : s.projects.find? p with
          | none =>
            rw [hfind] at hactive
            cases hactive
          | some r => rfl
      · rcases Table.mem_insert.mp hk with hk | ⟨rfl, -⟩
        · exact .inl ⟨k, hk, rfl, id⟩
        · exact .inr ⟨Table.mem_insert.mpr (.inr ⟨rfl, hguard.2⟩), hguard.2⟩
    · cases h
  | revoke p keyId =>
    simp only [step] at h
    split at h
    · cases h
      refine ⟨fun q hq => ⟨hq, id⟩, fun k hk => hk, fun k hk => .inl hk, fun k hk => ?_⟩
      obtain ⟨k₀, hk₀, rfl⟩ := List.mem_map.mp hk
      refine .inl ⟨k₀, hk₀, ?_⟩
      split
      · exact ⟨rfl, fun _ => rfl⟩
      · exact ⟨rfl, id⟩
    · cases h
  | authenticate id process credential =>
    simp only [step] at h
    split at h
    · obtain ⟨k, -, rfl⟩ := Option.map_eq_some_iff.mp h
      exact .of_eq rfl rfl rfl
    · cases h
  | verdict id now =>
    simp only [step] at h
    split at h
    · split at h
      · cases h
        exact tended_verdict _ _
      · cases h
    · cases h
  | verify id now =>
    simp only [step] at h
    split at h
    · split at h
      · cases h
        exact tended_verify _ _
      · cases h
    · cases h
  | claimUse id now =>
    simp only [step] at h
    split at h
    · split at h
      · cases h
        exact tended_claimUse _ _ _
      · cases h
    · cases h
  | recordUse id recording =>
    simp only [step] at h
    split at h
    · split at h
      · cases h
        exact tended_recordUse _ _ _ _ _
      · cases h
    · cases h
  | restart process =>
    cases h
    exact .of_eq rfl rfl rfl
  | fork parent child =>
    cases h
    exact .of_eq rfl rfl rfl

/-! ## The requests -/

/-- The reading of the clock at which a request's secret was right. -/
def provedAt : Place → Option ℤ
  | .checking | .hashing => none
  | .proved t | .recording t _ _ => some t

/-- The verdict of a secret found right. -/
def verdictOf (sha256 : List Char → δ) (f : Proof) : Verdict δ :=
  ⟨sha256 f.credential, f.key.keyId, f.provedAt + CREDENTIAL_VERDICT_TTL_NANO⟩

/-- What took a request to a reading at which its secret was right: it was there
before, its secret was hashed, or a verdict was still good. -/
inductive Proves (sha256 : List Char → δ) (s s' : KeyStore δ) (r : Request) (t : ℤ) : Prop where
  | before (h : provedAt r.place = some t)
  | hashed (f : Proof) (h : f ∈ s'.proofs) (hticket : f.toTicket = r.toTicket)
      (ht : f.provedAt = t)
  | remembered (v : Verdict δ) (h : v ∈ s.verdicts r.process)
      (hdigest : v.digest = sha256 r.credential) (hkey : v.keyId = r.key.keyId)
      (hgood : t < v.expiresAt)

/-- What the operation `op` of the request `r` may do. -/
structure Acted (sha256 : List Char → δ) (scrypt : List Char → Bytes → Bytes) (op : Op)
    (s s' : KeyStore δ) (r : Request) : Prop where
  requests : ∀ x ∈ s'.requests, x ∈ s.requests ∨
    x.toTicket = r.toTicket ∧ ∀ t, provedAt x.place = some t → Proves sha256 s s' r t
  proofs : ∀ f ∈ s.proofs, f ∈ s'.proofs
  proved : ∀ f ∈ s'.proofs, f ∈ s.proofs ∨
    f.toTicket = r.toTicket ∧ scrypt r.secret r.key.salt = r.key.hash ∧
      op = .verify r.id f.provedAt
  verdicts : ∀ p, ∀ v ∈ s'.verdicts p, v ∈ s.verdicts p ∨
    p = r.process ∧ ∃ f ∈ s'.proofs, f.toTicket = r.toTicket ∧ v = verdictOf sha256 f
  granted : ∀ g ∈ s'.granted, g ∈ s.granted ∨
    g.toTicket = r.toTicket ∧ provedAt r.place = some g.provedAt
  refused : ∀ t ∈ s'.refused, t ∈ s.refused ∨ t = r.toTicket ∧
    (scrypt r.secret r.key.salt ≠ r.key.hash ∨ s.live r.key.keyId = none)

/-- What the start of a request may do: its key's row is read. -/
structure Began (s s' : KeyStore δ) (t : Ticket) : Prop where
  requests : ∀ x ∈ s'.requests, x ∈ s.requests ∨ x = ⟨t, .checking⟩
  proofs : s'.proofs = s.proofs
  verdicts : s'.verdicts = s.verdicts
  granted : s'.granted = s.granted
  refused : s'.refused = s.refused
  parsed : parseCredential t.credential = some (t.key.keyId, t.secret)
  live : ∃ k, s.live t.key.keyId = some k ∧ k.toIssuedKey = t.key

/-- What every other operation may do: nothing to a request but end it. -/
structure Idle (s s' : KeyStore δ) : Prop where
  requests : ∀ x ∈ s'.requests, x ∈ s.requests
  proofs : s'.proofs = s.proofs
  verdicts : ∀ p, ∀ v ∈ s'.verdicts p, v ∈ s.verdicts p
  granted : s'.granted = s.granted
  refused : s'.refused = s.refused

omit [DecidableEq δ] in
theorem Idle.of_eq (hrequests : s'.requests = s.requests) (hproofs : s'.proofs = s.proofs)
    (hverdicts : s'.verdicts = s.verdicts) (hgranted : s'.granted = s.granted)
    (hrefused : s'.refused = s.refused) : Idle s s' :=
  ⟨fun _ h => hrequests ▸ h, hproofs, fun _ _ h => hverdicts ▸ h, hgranted, hrefused⟩

omit [DecidableEq δ] in
/-- A request that is moved is the only one that changes. -/
theorem mem_move {r x : Request} {place : Place} (h : x ∈ (s.move r place).requests) :
    x ∈ s.requests ∨ x = { r with place := place } := by
  rcases Table.mem_insert.mp h with h | ⟨rfl, -⟩
  · exact .inl (Table.mem_delete.mp h).1
  · exact .inr rfl

omit [DecidableEq δ] in
theorem mem_leave {r x : Request} (h : x ∈ (s.leave r).requests) : x ∈ s.requests :=
  (Table.mem_delete.mp h).1

omit [DecidableEq δ] in
theorem mem_update {cache : ℕ → Lru (Verdict.digest (δ := δ)) CREDENTIAL_VERDICT_CAPACITY}
    {process p : ℕ} {c : Lru (Verdict.digest (δ := δ)) CREDENTIAL_VERDICT_CAPACITY}
    {v : Verdict δ} (h : v ∈ Function.update cache process c p) :
    v ∈ cache p ∨ p = process ∧ v ∈ c := by
  by_cases hp : p = process
  · subst hp
    rw [Function.update_self] at h
    exact .inr ⟨rfl, h⟩
  · rw [Function.update_of_ne hp] at h
    exact .inl h

omit [DecidableEq δ] in
/-- A request moved, where nothing else but verdicts went. -/
theorem acted_move {op : Op} {r : Request} {place : Place} {verdicts}
    (hplace : ∀ t, provedAt place = some t → Proves sha256 s
      ({ s with verdicts := verdicts }.move r place) r t)
    (hverdicts : ∀ p, ∀ v ∈ verdicts p, v ∈ s.verdicts p) :
    Acted sha256 scrypt op s ({ s with verdicts := verdicts }.move r place) r where
  requests := fun x hx => by
    rcases mem_move hx with hx | rfl
    · exact .inl hx
    · exact .inr ⟨rfl, hplace⟩
  proofs := fun f hf => hf
  proved := fun f hf => .inl hf
  verdicts := fun p v hv => .inl (hverdicts p v hv)
  granted := fun g hg => .inl hg
  refused := fun t ht => .inl ht

omit [DecidableEq δ] in
/-- A grant is of a request that was proved. -/
theorem acted_grant {op : Op} {r : Request} {t : ℤ} {keys keyUse}
    (hproved : provedAt r.place = some t) :
    Acted sha256 scrypt op s ({ s with keys := keys, keyUse := keyUse }.grant r t) r where
  requests := fun x hx => .inl (mem_leave hx)
  proofs := fun f hf => hf
  proved := fun f hf => .inl hf
  verdicts := fun p v hv => .inl hv
  granted := fun g hg => by
    rcases List.mem_append.mp hg with hg | hg
    · exact .inl hg
    · rw [List.mem_singleton.mp hg]
      exact .inr ⟨rfl, hproved⟩
  refused := fun t ht => .inl ht

omit [DecidableEq δ] in
/-- A refusal has a wrong secret or a key that is not live. -/
theorem acted_refuse {op : Op} {r : Request} {verdicts}
    (hverdicts : ∀ p, ∀ v ∈ verdicts p, v ∈ s.verdicts p)
    (hreason : scrypt r.secret r.key.salt ≠ r.key.hash ∨ s.live r.key.keyId = none) :
    Acted sha256 scrypt op s ({ s with verdicts := verdicts }.refuse r) r where
  requests := fun x hx => .inl (mem_leave hx)
  proofs := fun f hf => hf
  proved := fun f hf => .inl hf
  verdicts := fun p v hv => .inl (hverdicts p v hv)
  granted := fun g hg => .inl hg
  refused := fun t ht => by
    rcases List.mem_append.mp ht with ht | ht
    · exact .inl ht
    · rw [List.mem_singleton.mp ht]
      exact .inr ⟨rfl, hreason⟩

theorem acted_verdict {op : Op} (r : Request) (now : ℤ) :
    Acted sha256 scrypt op s (s.verdict sha256 r now) r := by
  simp only [verdict]
  split
  · exact acted_move (fun t ht => by cases ht) fun p v hv => hv
  · next v hfind =>
    obtain ⟨hv, hdigest⟩ := Lru.mem_of_find? hfind
    split
    · refine acted_move (fun t ht => by cases ht) fun p w hw => ?_
      rcases mem_update hw with hw | ⟨rfl, hmem⟩
      · exact hw
      · exact Lru.mem_of_mem_erase hmem
    · next hgood =>
      refine acted_move (fun t ht => ?_) fun p w hw => ?_
      · split at ht
        · next hkey =>
          cases ht
          exact .remembered v hv hdigest hkey (by omega)
        · cases ht
      · rcases mem_update hw with hw | ⟨rfl, hmem⟩
        · exact hw
        · rcases Lru.mem_of_mem_put hmem with rfl | hmem
          · exact hv
          · exact hmem

/-- Verifying keeps a proof exactly of a secret that is right. -/
theorem acted_verify (r : Request) (now : ℤ) :
    Acted sha256 scrypt (.verify r.id now) s (s.verify sha256 scrypt r now) r := by
  simp only [verify]
  split
  · next hright =>
    have hnew : (⟨r.toTicket, now⟩ : Proof) ∈ s.proofs ++ [⟨r.toTicket, now⟩] :=
      List.mem_append_right _ List.mem_cons_self
    refine ⟨fun x hx => ?_, fun f hf => List.mem_append_left _ hf, fun f hf => ?_,
      fun p v hv => ?_, fun g hg => .inl hg, fun t ht => .inl ht⟩
    · rcases mem_move (s := s) hx with hx | rfl
      · exact .inl hx
      · refine .inr ⟨rfl, fun t ht => ?_⟩
        cases ht
        exact .hashed ⟨r.toTicket, now⟩ hnew rfl rfl
    · rcases List.mem_append.mp hf with hf | hf
      · exact .inl hf
      · rw [List.mem_singleton.mp hf]
        exact .inr ⟨rfl, hright, rfl⟩
    · rcases mem_update hv with hv | ⟨rfl, hmem⟩
      · exact .inl hv
      · rcases Lru.mem_of_mem_put hmem with rfl | hmem
        · exact .inr ⟨rfl, _, hnew, rfl, rfl⟩
        · exact .inl hmem
  · next hwrong => exact acted_refuse (fun p v hv => hv) (.inl hwrong)

omit [DecidableEq δ] in
theorem acted_claimUse {op : Op} {r : Request} {t : ℤ} (now : ℤ)
    (hproved : provedAt r.place = some t) :
    Acted sha256 scrypt op s (s.claimUse r t now) r := by
  simp only [claimUse]
  split
  · exact acted_grant hproved
  · refine ⟨fun x hx => ?_, fun f hf => hf, fun f hf => .inl hf, fun p v hv => .inl hv,
      fun g hg => .inl hg, fun t ht => .inl ht⟩
    rcases mem_move (s := s) hx with hx | rfl
    · exact .inl hx
    · exact .inr ⟨rfl, fun u hu => .before (hproved.trans hu)⟩

theorem acted_recordUse {op : Op} {r : Request} {t : ℤ} (now : ℤ) (previous : Option ℤ)
    (recording : Recording) (hproved : provedAt r.place = some t) :
    Acted sha256 scrypt op s (s.recordUse sha256 r t now previous recording) r := by
  obtain ⟨keyUse, hunclaim⟩ := unclaim_eq (s := s) r now previous
  cases recording with
  | written unixNano =>
    simp only [recordUse]
    split
    · exact acted_grant hproved
    · next hnone =>
      refine acted_refuse (fun p v hv => ?_) (.inr hnone)
      rcases mem_update hv with hv | ⟨rfl, hmem⟩
      · exact hv
      · exact Lru.mem_of_mem_erase hmem
  | busy =>
    rw [recordUse, hunclaim]
    exact acted_grant hproved
  | raised =>
    rw [recordUse, hunclaim]
    exact ⟨fun x hx => .inl (mem_leave hx), fun f hf => hf, fun f hf => .inl hf,
      fun p v hv => .inl hv, fun g hg => .inl hg, fun t ht => .inl ht⟩

omit [DecidableEq δ] in
/-- A process that starts acts on no request. -/
theorem idle_started (process : ℕ) (keyUse : Table KeyUse.keyId) :
    Idle s (s.started process keyUse) where
  requests := fun x hx => (Table.mem_delete.mp hx).1
  proofs := rfl
  verdicts := fun p v hv => by
    rcases mem_update hv with hv | ⟨-, hv⟩
    · exact hv
    · exact absurd hv Lru.not_mem_empty
  granted := rfl
  refused := rfl

/-- **What an operation can do to the requests.** -/
theorem step_cases {op : Op} (h : step sha256 scrypt s op = some s') :
    (∃ r ∈ s.requests, Acted sha256 scrypt op s s' r) ∨
    (∃ t : Ticket, op = .authenticate t.id t.process t.credential ∧ Began s s' t) ∨
    Idle s s' := by
  cases op with
  | provision p =>
    cases h
    exact .inr (.inr (.of_eq rfl rfl rfl rfl rfl))
  | beginDeletion p =>
    cases h
    exact .inr (.inr (.of_eq rfl rfl rfl rfl rfl))
  | deleteKeys p batch =>
    simp only [step] at h
    split at h
    · cases h
      exact .inr (.inr (.of_eq rfl rfl rfl rfl rfl))
    · cases h
  | issue p keyId salt secret =>
    simp only [step] at h
    split at h
    · cases h
      exact .inr (.inr (.of_eq rfl rfl rfl rfl rfl))
    · cases h
  | revoke p keyId =>
    simp only [step] at h
    split at h
    · cases h
      exact .inr (.inr (.of_eq rfl rfl rfl rfl rfl))
    · cases h
  | authenticate id process credential =>
    simp only [step] at h
    split at h
    · next keyId secret _ hparse =>
      obtain ⟨k, hlive, rfl⟩ := Option.map_eq_some_iff.mp h
      have hkey : k.keyId = keyId := (live_eq_some.mp hlive).2.1
      refine .inr (.inl ⟨⟨id, process, credential, secret, k.toIssuedKey⟩, rfl, fun x hx => ?_,
        rfl, rfl, rfl, rfl, ?_, k, ?_, rfl⟩)
      · rcases Table.mem_insert.mp hx with hx | ⟨rfl, -⟩
        · exact .inl (Table.mem_delete.mp hx).1
        · exact .inr rfl
      · rw [hparse, hkey]
      · rw [hkey, hlive]
    · cases h
  | verdict id now =>
    simp only [step] at h
    split at h
    · next r hfind =>
      split at h
      · cases h
        exact .inl ⟨r, Table.mem_of_find? hfind, acted_verdict r now⟩
      · cases h
    · cases h
  | verify id now =>
    simp only [step] at h
    split at h
    · next r hfind =>
      split at h
      · cases h
        refine .inl ⟨r, Table.mem_of_find? hfind, ?_⟩
        rw [← Table.key_of_find? hfind]
        exact acted_verify r now
      · cases h
    · cases h
  | claimUse id now =>
    simp only [step] at h
    split at h
    · next r hfind =>
      split at h
      · next t hplace =>
        cases h
        exact .inl ⟨r, Table.mem_of_find? hfind, acted_claimUse now (by rw [hplace]; rfl)⟩
      · cases h
    · cases h
  | recordUse id recording =>
    simp only [step] at h
    split at h
    · next r hfind =>
      split at h
      · next t now previous hplace =>
        cases h
        exact .inl ⟨r, Table.mem_of_find? hfind,
          acted_recordUse now previous recording (by rw [hplace]; rfl)⟩
      · cases h
    · cases h
  | restart process =>
    cases h
    exact .inr (.inr (idle_started process _))
  | fork parent child =>
    cases h
    exact .inr (.inr (idle_started child _))

end KeyStore

end Earshot.Access
