import Earshot.Access.Requests
import Mathlib.Data.List.Induction
/-!
# Requests that are granted, and refused

Over any run, whichever threads and processes come between: a granted request read
a live key whose secret it gave (`granted_live`), the secret was hashed in the same
process within the lifetime of a verdict (`granted_proved`), no request that begins
after a key was revoked or its project's deletion began is granted
(`ended_never_granted`), and a refusal has a reason (`refused_reason`). A request
that is left alone with a live key is granted (`live_granted`).
-/

open Relational

namespace Earshot.Access

namespace KeyStore

variable {δ : Type} [DecidableEq δ] {s s' : KeyStore δ} {sha256 : List Char → δ}
  {scrypt : List Char → Bytes → Bytes}

/-! ## Invariants -/

/-- Every row was issued, and every issued key's project was provisioned. -/
structure Kept (s : KeyStore δ) : Prop where
  rows : ∀ k ∈ s.keys, k.toIssuedKey ∈ s.issued
  housed : ∀ k ∈ s.issued, (s.projects.find? k.projectId).isSome = true

omit [DecidableEq δ] in
theorem Kept.tended (h : Kept s) (hs : Tended s s') : Kept s' where
  rows := fun k hk => by
    rcases hs.keys k hk with ⟨k₀, hk₀, heq, -⟩ | ⟨hissued, -⟩
    · rw [← heq]
      exact hs.issued _ (h.rows k₀ hk₀)
    · exact hissued
  housed := fun k hk => by
    rcases hs.housed k hk with hk | hk
    · exact (hs.projects _ (h.housed k hk)).1
    · exact (hs.projects _ hk).1

omit [DecidableEq δ] in
theorem kept_empty : Kept (empty : KeyStore δ) :=
  ⟨fun _ hk => absurd hk Table.not_mem_empty, fun _ hk => absurd hk Table.not_mem_empty⟩

theorem kept_run (ops : List Op) : Kept (run sha256 scrypt (empty : KeyStore δ) ops) :=
  Transition.run_invariant (fun _ _ _ h hs => h.tended (tended_of_step hs)) ops _ kept_empty

/-- A ticket's key was issued, and its credential names the key and gives the
secret. -/
structure Read (s : KeyStore δ) (t : Ticket) : Prop where
  issued : t.key ∈ s.issued
  parsed : parseCredential t.credential = some (t.key.keyId, t.secret)

/-- A ticket's secret was found right in its process, less than a verdict's lifetime
before the reading. -/
def Backed (s : KeyStore δ) (t : Ticket) (reading : ℤ) : Prop :=
  ∃ f ∈ s.proofs, f.process = t.process ∧ f.credential = t.credential ∧ f.key = t.key ∧
    reading < f.provedAt + CREDENTIAL_VERDICT_TTL_NANO

structure Inv (sha256 : List Char → δ) (scrypt : List Char → Bytes → Bytes)
    (s : KeyStore δ) : Prop where
  requests : ∀ r ∈ s.requests, Read s r.toTicket ∧
    ∀ t, provedAt r.place = some t → Backed s r.toTicket t
  proofs : ∀ f ∈ s.proofs, Read s f.toTicket ∧ scrypt f.secret f.key.salt = f.key.hash
  verdicts : ∀ p, ∀ v ∈ s.verdicts p, ∃ f ∈ s.proofs, f.process = p ∧ v = verdictOf sha256 f
  granted : ∀ g ∈ s.granted, Read s g.toTicket ∧ Backed s g.toTicket g.provedAt

omit [DecidableEq δ] in
theorem Read.mono {t : Ticket} (h : Read s t) (hissued : ∀ k ∈ s.issued, k ∈ s'.issued) :
    Read s' t :=
  ⟨hissued _ h.issued, h.parsed⟩

omit [DecidableEq δ] in
/-- One credential gives one secret. -/
theorem Read.secret_eq {t t' : Ticket} (h : Read s t) (h' : Read s t')
    (hcredential : t.credential = t'.credential) : t.secret = t'.secret := by
  have hparsed := h.parsed
  rw [hcredential, h'.parsed] at hparsed
  exact (Prod.mk.inj (Option.some.inj hparsed)).2.symm

omit [DecidableEq δ] in
theorem Backed.mono {t : Ticket} {reading : ℤ} (h : Backed s t reading)
    (hproofs : ∀ f ∈ s.proofs, f ∈ s'.proofs) : Backed s' t reading := by
  obtain ⟨f, hf, hrest⟩ := h
  exact ⟨f, hproofs f hf, hrest⟩

omit [DecidableEq δ] in
/-- What the invariant needs of the store that an operation leaves, where only
requests begin or end. -/
theorem Inv.rest (h : Inv sha256 scrypt s) (hissued : ∀ k ∈ s.issued, k ∈ s'.issued)
    (hrequests : ∀ r ∈ s'.requests, r ∈ s.requests ∨
      Read s r.toTicket ∧ provedAt r.place = none)
    (hproofs : s'.proofs = s.proofs) (hverdicts : ∀ p, ∀ v ∈ s'.verdicts p, v ∈ s.verdicts p)
    (hgranted : s'.granted = s.granted) : Inv sha256 scrypt s' where
  requests := fun r hr => by
    have hkeep : ∀ f ∈ s.proofs, f ∈ s'.proofs := fun f hf => hproofs ▸ hf
    rcases hrequests r hr with hr | ⟨hread, hplace⟩
    · exact ⟨(h.requests r hr).1.mono hissued, fun t ht => ((h.requests r hr).2 t ht).mono hkeep⟩
    · exact ⟨hread.mono hissued, fun t ht => by
        rw [hplace] at ht
        cases ht⟩
  proofs := fun f hf => by
    rw [hproofs] at hf
    exact ⟨(h.proofs f hf).1.mono hissued, (h.proofs f hf).2⟩
  verdicts := fun p v hv => by
    rw [hproofs]
    exact h.verdicts p v (hverdicts p v hv)
  granted := fun g hg => by
    rw [hgranted] at hg
    exact ⟨(h.granted g hg).1.mono hissued,
      (h.granted g hg).2.mono fun f hf => hproofs ▸ hf⟩

omit [DecidableEq δ] in
/-- **A verdict is of the credential it was asked for**, where no two credentials
have one digest. -/
theorem Inv.backed {op : Op} {r : Request} {reading : ℤ}
    (hsha256 : Function.Injective sha256) (h : Inv sha256 scrypt s)
    (hs : Acted sha256 scrypt op s s' r) (hr : r ∈ s.requests)
    (hproves : Proves sha256 s s' r reading) : Backed s' r.toTicket reading := by
  cases hproves with
  | before hplace => exact ((h.requests r hr).2 reading hplace).mono hs.proofs
  | hashed f hf hticket ht =>
    refine ⟨f, hf, by rw [hticket], by rw [hticket], by rw [hticket], ?_⟩
    rw [ht, CREDENTIAL_VERDICT_TTL_NANO]
    omega
  | remembered v hv hdigest hkey hgood =>
    obtain ⟨f, hf, hprocess, rfl⟩ := h.verdicts _ v hv
    have hcredential : f.credential = r.credential := hsha256 hdigest
    have hsame : f.key = r.key :=
      Table.eq_of_key_eq (h.proofs f hf).1.issued (h.requests r hr).1.issued hkey
    exact ⟨f, hs.proofs f hf, hprocess, hcredential, hsame, hgood⟩

/-- **Every operation keeps the invariant.** -/
theorem Inv.step {op : Op} (hsha256 : Function.Injective sha256) (hkept : Kept s)
    (h : Inv sha256 scrypt s) (hstep : step sha256 scrypt s op = some s') :
    Inv sha256 scrypt s' := by
  have hissued := (tended_of_step hstep).issued
  rcases step_cases hstep with ⟨r, hr, hs⟩ | ⟨t, -, hs⟩ | hs
  · have hread : Read s' r.toTicket := (h.requests r hr).1.mono hissued
    refine ⟨fun x hx => ?_, fun f hf => ?_, fun p v hv => ?_, fun g hg => ?_⟩
    · rcases hs.requests x hx with hx | ⟨hticket, hproves⟩
      · exact ⟨(h.requests x hx).1.mono hissued,
          fun t ht => ((h.requests x hx).2 t ht).mono hs.proofs⟩
      · rw [hticket]
        exact ⟨hread, fun t ht => h.backed hsha256 hs hr (hproves t ht)⟩
    · rcases hs.proved f hf with hf | ⟨hticket, hright, -⟩
      · exact ⟨(h.proofs f hf).1.mono hissued, (h.proofs f hf).2⟩
      · rw [hticket]
        exact ⟨hread, hright⟩
    · rcases hs.verdicts p v hv with hv | ⟨rfl, f, hf, hticket, rfl⟩
      · obtain ⟨f, hf, hrest⟩ := h.verdicts p v hv
        exact ⟨f, hs.proofs f hf, hrest⟩
      · exact ⟨f, hf, by rw [hticket], rfl⟩
    · rcases hs.granted g hg with hg | ⟨hticket, hplace⟩
      · exact ⟨(h.granted g hg).1.mono hissued, (h.granted g hg).2.mono hs.proofs⟩
      · rw [hticket]
        exact ⟨hread, ((h.requests r hr).2 _ hplace).mono hs.proofs⟩
  · obtain ⟨k, hlive, hkey⟩ := hs.live
    refine h.rest hissued (fun x hx => ?_) hs.proofs (fun p v hv => hs.verdicts ▸ hv) hs.granted
    rcases hs.requests x hx with hx | rfl
    · exact .inl hx
    · refine .inr ⟨⟨?_, hs.parsed⟩, rfl⟩
      rw [← hkey]
      exact hkept.rows k (live_eq_some.mp hlive).1
  · exact h.rest hissued (fun x hx => .inl (hs.requests x hx)) hs.proofs hs.verdicts hs.granted

theorem inv_run (hsha256 : Function.Injective sha256) (ops : List Op) :
    Inv sha256 scrypt (run sha256 scrypt (empty : KeyStore δ) ops) := by
  have h : Kept (run sha256 scrypt (empty : KeyStore δ) ops) ∧
      Inv sha256 scrypt (run sha256 scrypt (empty : KeyStore δ) ops) := by
    refine Transition.run_invariant (P := fun s => Kept s ∧ Inv sha256 scrypt s)
      (fun s op s' h hs => ⟨h.1.tended (tended_of_step hs), h.2.step hsha256 h.1 hs⟩) ops _
      ⟨kept_empty, fun r hr => absurd hr Table.not_mem_empty, fun f hf => ?_,
        fun p v hv => absurd hv Lru.not_mem_empty, fun g hg => ?_⟩
    · exact absurd hf List.not_mem_nil
    · exact absurd hg List.not_mem_nil
  exact h.2

/-! ## Where a request began -/

/-- The request was begun by an operation of the run, at which its key was live. -/
def Begun (sha256 : List Char → δ) (scrypt : List Char → Bytes → Bytes) (ops : List Op)
    (t : Ticket) : Prop :=
  ∃ before after k, ops = before ++ .authenticate t.id t.process t.credential :: after ∧
    (run sha256 scrypt (empty : KeyStore δ) before).live t.key.keyId = some k ∧
    k.toIssuedKey = t.key

/-- A secret found right was hashed by an operation of a request under way. -/
def Hashed (sha256 : List Char → δ) (scrypt : List Char → Bytes → Bytes) (ops : List Op)
    (f : Proof) : Prop :=
  ∃ before after r, ops = before ++ .verify f.id f.provedAt :: after ∧
    r ∈ (run sha256 scrypt (empty : KeyStore δ) before).requests ∧ r.toTicket = f.toTicket

/-- The secret of a refused request is wrong, or its key was not live at a moment
when the request was under way. -/
def Reason (sha256 : List Char → δ) (scrypt : List Char → Bytes → Bytes) (ops : List Op)
    (t : Ticket) : Prop :=
  scrypt t.secret t.key.salt ≠ t.key.hash ∨
  ∃ before after r, ops = before ++ after ∧
    r ∈ (run sha256 scrypt (empty : KeyStore δ) before).requests ∧ r.toTicket = t ∧
    (run sha256 scrypt (empty : KeyStore δ) before).live t.key.keyId = none

theorem Begun.concat {ops : List Op} {t : Ticket} (h : Begun sha256 scrypt ops t) (op : Op) :
    Begun sha256 scrypt (ops ++ [op]) t := by
  obtain ⟨before, after, k, rfl, hrest⟩ := h
  exact ⟨before, after ++ [op], k, by simp, hrest⟩

theorem Hashed.concat {ops : List Op} {f : Proof} (h : Hashed sha256 scrypt ops f) (op : Op) :
    Hashed sha256 scrypt (ops ++ [op]) f := by
  obtain ⟨before, after, r, rfl, hrest⟩ := h
  exact ⟨before, after ++ [op], r, by simp, hrest⟩

theorem Reason.concat {ops : List Op} {t : Ticket} (h : Reason sha256 scrypt ops t) (op : Op) :
    Reason sha256 scrypt (ops ++ [op]) t := by
  rcases h with h | ⟨before, after, r, rfl, hrest⟩
  · exact .inl h
  · exact .inr ⟨before, after ++ [op], r, by simp, hrest⟩

/-- Every ticket was begun, every proof hashed, and every refusal has its reason. -/
structure Traced (sha256 : List Char → δ) (scrypt : List Char → Bytes → Bytes)
    (ops : List Op) (s : KeyStore δ) : Prop where
  requests : ∀ r ∈ s.requests, Begun sha256 scrypt ops r.toTicket
  granted : ∀ g ∈ s.granted, Begun sha256 scrypt ops g.toTicket
  refused : ∀ t ∈ s.refused, Begun sha256 scrypt ops t ∧ Reason sha256 scrypt ops t
  proofs : ∀ f ∈ s.proofs, Hashed sha256 scrypt ops f

theorem Traced.concat {ops : List Op} (h : Traced sha256 scrypt ops s) (op : Op) :
    Traced sha256 scrypt (ops ++ [op]) s where
  requests := fun r hr => (h.requests r hr).concat op
  granted := fun g hg => (h.granted g hg).concat op
  refused := fun t ht => ⟨(h.refused t ht).1.concat op, (h.refused t ht).2.concat op⟩
  proofs := fun f hf => (h.proofs f hf).concat op

theorem Traced.step {ops : List Op} {op : Op}
    (h : Traced sha256 scrypt ops (run sha256 scrypt empty ops))
    (hstep : step sha256 scrypt (run sha256 scrypt (empty : KeyStore δ) ops) op = some s') :
    Traced sha256 scrypt (ops ++ [op]) s' := by
  have hnow := h.concat op
  rcases step_cases hstep with ⟨r, hr, hs⟩ | ⟨t, rfl, hs⟩ | hs
  · refine ⟨fun x hx => ?_, fun g hg => ?_, fun t ht => ?_, fun f hf => ?_⟩
    · rcases hs.requests x hx with hx | ⟨hticket, -⟩
      · exact hnow.requests x hx
      · rw [hticket]
        exact hnow.requests r hr
    · rcases hs.granted g hg with hg | ⟨hticket, -⟩
      · exact hnow.granted g hg
      · rw [hticket]
        exact hnow.requests r hr
    · rcases hs.refused t ht with ht | ⟨rfl, hreason⟩
      · exact hnow.refused t ht
      · exact ⟨hnow.requests r hr, hreason.imp id fun hlive => ⟨ops, [op], r, rfl, hr, rfl, hlive⟩⟩
    · rcases hs.proved f hf with hf | ⟨hticket, -, rfl⟩
      · exact hnow.proofs f hf
      · exact ⟨ops, [], r, by rw [hticket], hr, hticket.symm⟩
  · refine ⟨fun x hx => ?_, fun g hg => hnow.granted g (hs.granted ▸ hg),
      fun t ht => hnow.refused t (hs.refused ▸ ht), fun f hf => hnow.proofs f (hs.proofs ▸ hf)⟩
    rcases hs.requests x hx with hx | rfl
    · exact hnow.requests x hx
    · obtain ⟨k, hlive, hkey⟩ := hs.live
      exact ⟨ops, [], k, rfl, hlive, hkey⟩
  · exact ⟨fun x hx => hnow.requests x (hs.requests x hx),
      fun g hg => hnow.granted g (hs.granted ▸ hg), fun t ht => hnow.refused t (hs.refused ▸ ht),
      fun f hf => hnow.proofs f (hs.proofs ▸ hf)⟩

theorem traced_run (ops : List Op) :
    Traced sha256 scrypt ops (run sha256 scrypt (empty : KeyStore δ) ops) := by
  induction ops using List.reverseRecOn with
  | nil =>
    exact ⟨fun r hr => absurd hr Table.not_mem_empty, fun g hg => absurd hg List.not_mem_nil,
      fun t ht => absurd ht List.not_mem_nil, fun f hf => absurd hf List.not_mem_nil⟩
  | append_singleton ops op ih =>
    rw [run, Transition.run_append, Transition.run_cons, Transition.run_nil]
    cases hstep : step sha256 scrypt (run sha256 scrypt (empty : KeyStore δ) ops) op with
    | none =>
      rw [Transition.next_of_none hstep]
      exact ih.concat op
    | some s' =>
      rw [Transition.next_of_some hstep]
      exact ih.step hstep

/-! ## Results -/

/-- Hashes to try the results with: a digest that keeps its text, and a secret hash
that keeps the secret's letters before the salt. -/
def plainSha256 (text : List Char) : List Char := text

def plainScrypt (secret : List Char) (salt : Bytes) : Bytes :=
  secret.map (fun c => UInt8.ofNat c.toNat) ++ salt

def someKeyId : List Char :=
  ['0', '1', '2', '3', '4', '5', '6', '7', '8', '9', 'a', 'b', 'c', 'd', 'e', 'f']

def someSecret : List Char := ['s', '3']

def someKey : IssuedKey := ⟨someKeyId, "p", [7], [115, 51, 7]⟩

/-- A key is issued. -/
def issuing : List Op := [.provision "p", .issue "p" someKeyId [7] someSecret]

def ticket (id : ℕ) : Ticket := ⟨id, 1, credentialOf someKeyId someSecret, someSecret, someKey⟩

/-- The operations of one request, with the readings of the clock they take. -/
def alone (id process : ℕ) (credential : List Char) (now₁ now₂ now₃ unixNano : ℤ) : List Op :=
  [.authenticate id process credential, .verdict id now₁, .verify id now₂, .claimUse id now₃,
    .recordUse id (.written unixNano)]

/-- Two requests with its credential; the second finds the verdict of the first. -/
def twice : List Op :=
  issuing ++ [.authenticate 0 1 (credentialOf someKeyId someSecret), .verdict 0 10, .verify 0 20,
    .claimUse 0 30, .recordUse 0 (.written 5),
    .authenticate 1 1 (credentialOf someKeyId someSecret), .verdict 1 40, .claimUse 1 50]

/-- The key is revoked while a request is under way. -/
def overtaken : List Op :=
  issuing ++ [.authenticate 0 1 (credentialOf someKeyId someSecret), .verdict 0 10, .verify 0 20,
    .revoke "p" someKeyId, .claimUse 0 30, .recordUse 0 (.written 5)]

/-- **A granted request read a live key whose secret it gave**, at an operation of
the run: its principal is the project and the ID of that key. -/
theorem granted_live (hsha256 : Function.Injective sha256) (ops : List Op) {g : Proof}
    (hg : g ∈ (run sha256 scrypt (empty : KeyStore δ) ops).granted) :
    ∃ before after k, ops = before ++ .authenticate g.id g.process g.credential :: after ∧
      (run sha256 scrypt (empty : KeyStore δ) before).live g.key.keyId = some k ∧
      g.principal = ⟨k.projectId, k.keyId⟩ ∧
      parseCredential g.credential = some (k.keyId, g.secret) ∧
      scrypt g.secret k.salt = k.hash := by
  obtain ⟨before, after, k, hops, hlive, hkey⟩ := (traced_run ops).granted g hg
  obtain ⟨hread, f, hf, -, hcredential, hsame, -⟩ := (inv_run hsha256 ops).granted g hg
  obtain ⟨hproof, hright⟩ := (inv_run hsha256 ops).proofs f hf
  have hsecret : f.secret = g.secret := hproof.secret_eq hread hcredential
  refine ⟨before, after, k, hops, hlive, ?_, ?_, ?_⟩
  · rw [Ticket.principal, ← hkey]
  · rw [hread.parsed, ← hkey]
  · rw [hkey, ← hsecret, ← hsame]
    exact hright

theorem granted_live_twice :
    ∃ before after k, twice = before ++ .authenticate 1 1 (ticket 1).credential :: after ∧
      (run plainSha256 plainScrypt (empty : KeyStore (List Char)) before).live someKeyId = some k ∧
      (ticket 1).principal = ⟨k.projectId, k.keyId⟩ ∧
      parseCredential (ticket 1).credential = some (k.keyId, someSecret) ∧
      plainScrypt someSecret k.salt = k.hash :=
  granted_live (fun _ _ h => h) twice (g := ⟨ticket 1, 40⟩) (by decide +kernel)

/-- **The secret of a granted request was hashed in its own process and found right**,
by a request with the same credential, less than a verdict's lifetime before. -/
theorem granted_proved (hsha256 : Function.Injective sha256) (ops : List Op) {g : Proof}
    (hg : g ∈ (run sha256 scrypt (empty : KeyStore δ) ops).granted) :
    ∃ before after r now, ops = before ++ .verify r.id now :: after ∧
      r ∈ (run sha256 scrypt (empty : KeyStore δ) before).requests ∧ r.process = g.process ∧
      r.credential = g.credential ∧ r.key = g.key ∧ r.secret = g.secret ∧
      scrypt r.secret r.key.salt = r.key.hash ∧
      g.provedAt < now + CREDENTIAL_VERDICT_TTL_NANO := by
  obtain ⟨hread, f, hf, hprocess, hcredential, hkey, hlifetime⟩ :=
    (inv_run hsha256 ops).granted g hg
  obtain ⟨hproof, hright⟩ := (inv_run hsha256 ops).proofs f hf
  obtain ⟨before, after, r, hops, hr, hticket⟩ := (traced_run ops).proofs f hf
  refine ⟨before, after, r, f.provedAt, ?_, hr, ?_, ?_, ?_, ?_, ?_, hlifetime⟩
  · rw [hticket]
    exact hops
  · rw [hticket, hprocess]
  · rw [hticket, hcredential]
  · rw [hticket, hkey]
  · rw [hticket]
    exact hproof.secret_eq hread hcredential
  · rw [hticket]
    exact hright

theorem granted_proved_twice :
    ∃ before after r now, twice = before ++ .verify r.id now :: after ∧
      r ∈ (run plainSha256 plainScrypt (empty : KeyStore (List Char)) before).requests ∧
      r.process = 1 ∧ r.credential = (ticket 1).credential ∧ r.key = someKey ∧
      r.secret = someSecret ∧ plainScrypt r.secret r.key.salt = r.key.hash ∧
      40 < now + CREDENTIAL_VERDICT_TTL_NANO :=
  granted_proved (fun _ _ h => h) twice (g := ⟨ticket 1, 40⟩) (by decide +kernel)

/-- **A request is refused only with a reason**: its secret is wrong, or its key was
not live at a moment when the request was under way. -/
theorem refused_reason (ops : List Op) {t : Ticket}
    (ht : t ∈ (run sha256 scrypt (empty : KeyStore δ) ops).refused) :
    scrypt t.secret t.key.salt ≠ t.key.hash ∨
    ∃ before after r, ops = before ++ after ∧
      r ∈ (run sha256 scrypt (empty : KeyStore δ) before).requests ∧ r.toTicket = t ∧
      (run sha256 scrypt (empty : KeyStore δ) before).live t.key.keyId = none :=
  ((traced_run ops).refused t ht).2

theorem refused_reason_overtaken :
    plainScrypt someSecret someKey.salt ≠ someKey.hash ∨
    ∃ before after r, overtaken = before ++ after ∧
      r ∈ (run plainSha256 plainScrypt (empty : KeyStore (List Char)) before).requests ∧
      r.toTicket = ticket 0 ∧
      (run plainSha256 plainScrypt (empty : KeyStore (List Char)) before).live someKeyId = none :=
  refused_reason overtaken (t := ticket 0) (by decide +kernel)

/-- The key was issued, and is live no more. -/
def Ended (s : KeyStore δ) (keyId : List Char) : Prop :=
  (s.issued.find? keyId).isSome = true ∧ s.live keyId = none

omit [DecidableEq δ] in
/-- **A key that ended stays so**, whatever is done to the catalog. -/
theorem Ended.tended {keyId : List Char} (h : Ended s keyId) (hkept : Kept s)
    (hs : Tended s s') : Ended s' keyId := by
  obtain ⟨i, hi⟩ := Option.isSome_iff_exists.mp h.1
  have hissued : s'.issued.find? keyId = some i :=
    Table.find?_eq_some.mpr ⟨hs.issued i (Table.mem_of_find? hi), Table.key_of_find? hi⟩
  refine ⟨by rw [hissued]; rfl, live_eq_none.mpr fun k hk hkey hunrevoked => ?_⟩
  rcases hs.keys k hk with ⟨k₀, hk₀, heq, hrevoked⟩ | ⟨-, hnew⟩
  · have hproject : k₀.projectId = k.projectId := congrArg IssuedKey.projectId heq
    have hkeyId : k₀.keyId = keyId := (congrArg IssuedKey.keyId heq).trans hkey
    have hunrevoked₀ : k₀.revoked = false := by
      cases hrev : k₀.revoked with
      | false => rfl
      | true => rw [hrevoked hrev] at hunrevoked; cases hunrevoked
    have hinactive := live_eq_none.mp h.2 k₀ hk₀ hkeyId hunrevoked₀
    have hhoused := hkept.housed _ (hkept.rows k₀ hk₀)
    rw [hproject] at hinactive hhoused
    cases hactive : s'.isActive k.projectId with
    | false => rfl
    | true => rw [(hs.projects _ hhoused).2 hactive] at hinactive; cases hinactive
  · rw [hkey, hi] at hnew
    cases hnew

/-- **No request that begins after its key ended is granted**, in any process and
whatever it remembers: a grant of the key was given before, or is of a request that
was under way. -/
theorem ended_never_granted (before after : List Op) {keyId : List Char}
    (hended : Ended (run sha256 scrypt (empty : KeyStore δ) before) keyId) {g : Proof}
    (hg : g ∈ (run sha256 scrypt (empty : KeyStore δ) (before ++ after)).granted)
    (hkey : g.key.keyId = keyId) :
    g ∈ (run sha256 scrypt (empty : KeyStore δ) before).granted ∨
    ∃ r ∈ (run sha256 scrypt (empty : KeyStore δ) before).requests, r.toTicket = g.toTicket := by
  rw [run, Transition.run_append] at hg
  change g ∈ (run sha256 scrypt (run sha256 scrypt empty before) after).granted at hg
  generalize hs₀ : run sha256 scrypt (empty : KeyStore δ) before = s₀ at hended hg ⊢
  have hkept₀ : Kept s₀ := hs₀ ▸ kept_run before
  -- a request or a grant of the key comes from what was there when it ended
  have hinv := @Transition.run_invariant _ _ (step sha256 scrypt)
    (fun s => (Kept s ∧ Ended s keyId) ∧
      (∀ r ∈ s.requests, r.key.keyId = keyId → ∃ r₀ ∈ s₀.requests, r₀.toTicket = r.toTicket) ∧
      ∀ g ∈ s.granted, g.key.keyId = keyId →
        g ∈ s₀.granted ∨ ∃ r₀ ∈ s₀.requests, r₀.toTicket = g.toTicket)
    (fun s op s' h hstep => by
      obtain ⟨⟨hkept, hdead⟩, hrequests, hgranted⟩ := h
      have htended := tended_of_step hstep
      refine ⟨⟨hkept.tended htended, hdead.tended hkept htended⟩, ?_⟩
      rcases step_cases hstep with ⟨r, hr, hs⟩ | ⟨t, -, hs⟩ | hs
      · refine ⟨fun x hx hxkey => ?_, fun g hg hgkey => ?_⟩
        · rcases hs.requests x hx with hx | ⟨hticket, -⟩
          · exact hrequests x hx hxkey
          · rw [hticket]
            exact hrequests r hr (by rw [← hticket]; exact hxkey)
        · rcases hs.granted g hg with hg | ⟨hticket, -⟩
          · exact hgranted g hg hgkey
          · rw [hticket]
            exact .inr (hrequests r hr (by rw [← hticket]; exact hgkey))
      · refine ⟨fun x hx hxkey => ?_, fun g hg => hgranted g (hs.granted ▸ hg)⟩
        rcases hs.requests x hx with hx | rfl
        · exact hrequests x hx hxkey
        · obtain ⟨k, hlive, -⟩ := hs.live
          rw [show t.key.keyId = keyId from hxkey, hdead.2] at hlive
          cases hlive
      · exact ⟨fun x hx => hrequests x (hs.requests x hx),
          fun g hg => hgranted g (hs.granted ▸ hg)⟩)
    after s₀ ⟨⟨hkept₀, hended⟩, fun r hr _ => ⟨r, hr, rfl⟩, fun g hg _ => .inl hg⟩
  exact hinv.2.2 g hg hkey

/-- The key is revoked after both requests, and a third comes. -/
def revoking : List Op := twice ++ [.revoke "p" someKeyId]

def granted₁ : Proof := ⟨ticket 1, 40⟩

theorem ended_never_granted_revoking :
    granted₁ ∈ (run plainSha256 plainScrypt (empty : KeyStore (List Char)) revoking).granted ∨
    ∃ r ∈ (run plainSha256 plainScrypt (empty : KeyStore (List Char)) revoking).requests,
      r.toTicket = granted₁.toTicket :=
  ended_never_granted revoking
    (alone 2 1 (credentialOf someKeyId someSecret) 60 70 80 90)
    ⟨by decide +kernel, by decide +kernel⟩ (by decide +kernel)
    (show granted₁.key.keyId = someKeyId from rfl)

/-! ## A request on its own -/

/-- The request of a ticket stands at a place, and its key is live. -/
structure At (s : KeyStore δ) (t : Ticket) (place : Place) : Prop where
  request : s.requests.find? t.id = some ⟨t, place⟩
  live : (s.live t.key.keyId).isSome = true

omit [DecidableEq δ] in
theorem At.move {t : Ticket} {place place' : Place} (h : At s t place) :
    At (s.move ⟨t, place⟩ place') t place' where
  request := by
    rw [KeyStore.move, Table.find?_put, if_pos rfl]
  live := h.live

theorem At.verdict {t : Ticket} (h : At s t .checking) (now : ℤ) :
    At (next sha256 scrypt s (.verdict t.id now)) t .hashing ∨
    ∃ reading, At (next sha256 scrypt s (.verdict t.id now)) t (.proved reading) := by
  have hstep : step sha256 scrypt s (.verdict t.id now) =
      some (s.verdict sha256 ⟨t, .checking⟩ now) := by
    simp only [step, h.request, if_pos]
  rw [next, Transition.next_of_some hstep]
  simp only [KeyStore.verdict]
  split
  · exact .inl h.move
  · next v hfind =>
    have hcache : ∀ c, At (s.remembering t.process c) t .checking := fun c => ⟨h.request, h.live⟩
    split
    · exact .inl (hcache _).move
    · split
      · exact .inr ⟨now, (hcache _).move⟩
      · exact .inl (hcache _).move

theorem At.verify {t : Ticket} (h : At s t .hashing) (now : ℤ)
    (hright : scrypt t.secret t.key.salt = t.key.hash) :
    At (next sha256 scrypt s (.verify t.id now)) t (.proved now) := by
  have hstep : step sha256 scrypt s (.verify t.id now) =
      some (s.verify sha256 scrypt ⟨t, .hashing⟩ now) := by
    simp only [step, h.request, if_pos]
  rw [next, Transition.next_of_some hstep, KeyStore.verify, if_pos hright]
  exact ⟨by rw [← h.move.request]; rfl, h.live⟩

theorem At.verify_of_proved {t : Ticket} {reading : ℤ} (h : At s t (.proved reading)) (now : ℤ) :
    At (next sha256 scrypt s (.verify t.id now)) t (.proved reading) := by
  have hstep : step sha256 scrypt s (.verify t.id now) = none := by
    simp [step, h.request]
  rwa [next, Transition.next_of_none hstep]

omit [DecidableEq δ] in
theorem mem_grant {r : Request} {reading : ℤ} :
    (⟨r.toTicket, reading⟩ : Proof) ∈ (s.grant r reading).granted :=
  List.mem_append_right _ List.mem_cons_self

omit [DecidableEq δ] in
theorem find?_grant {r : Request} {reading : ℤ} :
    (s.grant r reading).requests.find? r.id = none := by
  rw [Table.find?_eq_none]
  intro x hx hid
  have hne := (Table.mem_delete.mp hx).2
  rw [decide_eq_false_iff_not] at hne
  exact hne hid

theorem At.recordUse {t : Ticket} {reading now : ℤ} {previous : Option ℤ}
    (h : At s t (.recording reading now previous)) (unixNano : ℤ) :
    (⟨t, reading⟩ : Proof) ∈
      (next sha256 scrypt s (.recordUse t.id (.written unixNano))).granted := by
  have hstep : step sha256 scrypt s (.recordUse t.id (.written unixNano)) =
      some (s.recordUse sha256 ⟨t, .recording reading now previous⟩ reading now previous
        (.written unixNano)) := by
    simp only [step, h.request]
  obtain ⟨k, hk⟩ := Option.isSome_iff_exists.mp h.live
  rw [next, Transition.next_of_some hstep]
  simp only [KeyStore.recordUse, hk]
  exact mem_grant (r := ⟨t, .recording reading now previous⟩)

theorem At.claimUse {t : Ticket} {reading : ℤ} (h : At s t (.proved reading)) (now unixNano : ℤ) :
    (⟨t, reading⟩ : Proof) ∈ (run sha256 scrypt s
      [.claimUse t.id now, .recordUse t.id (.written unixNano)]).granted := by
  have hstep : step sha256 scrypt s (.claimUse t.id now) =
      some (s.claimUse ⟨t, .proved reading⟩ reading now) := by
    simp only [step, h.request]
  rw [run, Transition.run_cons, Transition.next_of_some hstep, Transition.run_cons,
    Transition.run_nil]
  simp only [KeyStore.claimUse]
  split
  · have hgone : step sha256 scrypt (s.grant ⟨t, .proved reading⟩ reading)
        (.recordUse t.id (.written unixNano)) = none := by
      simp only [step, find?_grant (r := ⟨t, .proved reading⟩)]
    rw [Transition.next_of_none hgone]
    exact mem_grant (r := ⟨t, .proved reading⟩)
  · have huses : ∀ uses, At (s.withUses t.process uses) t (.proved reading) :=
      fun uses => ⟨h.request, h.live⟩
    exact (huses _).move.recordUse unixNano

theorem granted_of_live {id process : ℕ} {secret : List Char} {k : ApiKey}
    (hlive : s.live k.keyId = some k) (hlength : k.keyId.length = KEY_ID_LENGTH)
    (hdot : '.' ∉ k.keyId) (hsecret : secret ≠ []) (hmax : secret.length ≤ SECRET_MAX_LENGTH)
    (hright : scrypt secret k.salt = k.hash) (hid : s.requests.find? id = none)
    (now₁ now₂ now₃ unixNano : ℤ) :
    ∃ g ∈ (run sha256 scrypt s
      (alone id process (credentialOf k.keyId secret) now₁ now₂ now₃ unixNano)).granted,
      g.id = id ∧ g.principal = ⟨k.projectId, k.keyId⟩ := by
  let t : Ticket := ⟨id, process, credentialOf k.keyId secret, secret, k.toIssuedKey⟩
  have hbegun : step sha256 scrypt s (.authenticate id process (credentialOf k.keyId secret)) =
      some { s with requests := s.requests.put ⟨t, .checking⟩ } := by
    simp only [step, hid, parse_credentialOf hlength hdot hsecret hmax, hlive, Option.map_some]
    rfl
  have hchecking : At { s with requests := s.requests.put ⟨t, .checking⟩ } t .checking :=
    ⟨by rw [Table.find?_put, if_pos rfl], Option.isSome_iff_exists.mpr ⟨k, hlive⟩⟩
  rw [run, alone, Transition.run_cons, Transition.next_of_some hbegun, Transition.run_cons,
    Transition.run_cons]
  rcases @At.verdict δ _ _ sha256 scrypt t hchecking now₁ with h | ⟨reading, h⟩
  · exact ⟨_, (h.verify now₂ hright).claimUse now₃ unixNano, rfl, rfl⟩
  · exact ⟨_, (h.verify_of_proved now₂).claimUse now₃ unixNano, rfl, rfl⟩

/-- **The credential of a live key is granted**, from every state that can be reached
and whatever its process remembers. -/
theorem live_granted (ops : List Op) {id process : ℕ} {secret : List Char} {k : ApiKey}
    (hlive : (run sha256 scrypt (empty : KeyStore δ) ops).live k.keyId = some k)
    (hlength : k.keyId.length = KEY_ID_LENGTH) (hdot : '.' ∉ k.keyId) (hsecret : secret ≠ [])
    (hmax : secret.length ≤ SECRET_MAX_LENGTH) (hright : scrypt secret k.salt = k.hash)
    (hid : (run sha256 scrypt (empty : KeyStore δ) ops).requests.find? id = none)
    (now₁ now₂ now₃ unixNano : ℤ) :
    ∃ g ∈ (run sha256 scrypt (empty : KeyStore δ)
      (ops ++ alone id process (credentialOf k.keyId secret) now₁ now₂ now₃ unixNano)).granted,
      g.id = id ∧ g.principal = ⟨k.projectId, k.keyId⟩ := by
  rw [run, Transition.run_append]
  exact granted_of_live hlive hlength hdot hsecret hmax hright hid now₁ now₂ now₃ unixNano

def someRow : ApiKey := ⟨someKey, false, some 5⟩

theorem live_granted_twice :
    ∃ g ∈ (run plainSha256 plainScrypt (empty : KeyStore (List Char))
      (twice ++ alone 2 3 (credentialOf someRow.keyId someSecret) 60 70 80 90)).granted,
      g.id = 2 ∧ g.principal = ⟨someRow.projectId, someRow.keyId⟩ :=
  live_granted twice (by decide +kernel) (by decide) (by decide) (by decide) (by decide)
    (by decide) (by decide +kernel) 60 70 80 90

end KeyStore

end Earshot.Access
