import Earshot.Checkpoint.Framing
import Earshot.Common.Lru
import Earshot.Common.Run
import Mathlib.Data.Int.Notation
import Mathlib.Logic.Function.Basic
/-!
# API keys

A credential names a key and proves it by a secret. The key's row is read on
every request; only that the secret was right is remembered, by each process on
its own and for a minute. Requests are taken apart where another thread or
process can come between: the row is read, the verdict looked up, the secret
hashed and its verdict remembered, the key's use claimed, and written. Key IDs,
salts and secrets are random, and two issued keys have two IDs; the hash and
`scrypt` are parameters, and every reading of the clock is the operation's own.
-/

open Relational

namespace Earshot.Access

/-! ## Credentials -/

def API_KEY_PREFIX : List Char := ['e', 'a', 'r', 's', 'h', 'o', 't', '_', 's', 'k', '_']

def KEY_ID_LENGTH : ℕ := 16

def SECRET_MAX_LENGTH : ℕ := 128

/-- The credential that `issue_api_key` returns. -/
def credentialOf (keyId secret : List Char) : List Char :=
  API_KEY_PREFIX ++ keyId ++ '.' :: secret

/-- What `authenticate_api_key` takes a credential apart into: its key ID and its
secret. `partition` cuts at the first dot. -/
def parseCredential (credential : List Char) : Option (List Char × List Char) :=
  if API_KEY_PREFIX.isPrefixOf credential then
    let encoded := credential.drop API_KEY_PREFIX.length
    let keyId := encoded.takeWhile (· ≠ '.')
    match encoded.dropWhile (· ≠ '.') with
    | [] => none
    | _ :: secret =>
      if keyId.length = KEY_ID_LENGTH ∧ secret ≠ [] ∧ secret.length ≤ SECRET_MAX_LENGTH then
        some (keyId, secret)
      else none
  else none

/-- **A credential is taken apart into what it was made of.** -/
theorem parse_credentialOf {keyId secret : List Char} (hlength : keyId.length = KEY_ID_LENGTH)
    (hdot : '.' ∉ keyId) (hsecret : secret ≠ []) (hmax : secret.length ≤ SECRET_MAX_LENGTH) :
    parseCredential (credentialOf keyId secret) = some (keyId, secret) := by
  have hprefix : API_KEY_PREFIX.isPrefixOf (credentialOf keyId secret) = true := by
    rw [List.isPrefixOf_iff_prefix, credentialOf, List.append_assoc]
    exact List.prefix_append _ _
  have hdrop : (credentialOf keyId secret).drop API_KEY_PREFIX.length =
      keyId ++ '.' :: secret := by
    rw [credentialOf, List.append_assoc, List.drop_left]
  have hkeyId : ∀ c ∈ keyId, decide (c ≠ '.') = true := by
    intro c hc
    simpa using ne_of_mem_of_not_mem hc hdot
  have htake : (keyId ++ '.' :: secret).takeWhile (· ≠ '.') = keyId := by
    rw [List.takeWhile_append_of_pos hkeyId]
    simp
  have hrest : (keyId ++ '.' :: secret).dropWhile (· ≠ '.') = '.' :: secret := by
    rw [List.dropWhile_append_of_pos hkeyId]
    simp
  simp only [parseCredential, hprefix, if_true, hdrop, htake, hrest]
  rw [if_pos ⟨hlength, hsecret, hmax⟩]

/-! ## Rows -/

/-- What a row of `api_keys` keeps as `issue_api_key` wrote it. -/
structure IssuedKey where
  keyId : List Char
  projectId : String
  salt : Bytes
  hash : Bytes
  deriving DecidableEq

/-- A row of `api_keys`. -/
structure ApiKey extends IssuedKey where
  revoked : Bool
  lastUsedAtUnixNano : Option ℤ
  deriving DecidableEq

/-- A row of `projects`. -/
structure Project where
  projectId : String
  active : Bool

/-! ## A process -/

/-- `CREDENTIAL_VERDICT_TTL_SECONDS` -/
def CREDENTIAL_VERDICT_TTL_NANO : ℤ := 60 * 1000000000

def CREDENTIAL_VERDICT_CAPACITY : ℕ := 1024

def KEY_USE_RECORD_INTERVAL_NANO : ℤ := 60 * 1000000000

/-- An entry of `CredentialVerdictCache`. -/
structure Verdict (δ : Type) where
  digest : δ
  keyId : List Char
  expiresAt : ℤ

/-- An entry of `_key_use_recorded`. -/
structure KeyUse where
  keyId : List Char
  recordedAt : ℤ

/-- What an operation tells of itself: the request, and the row it read. -/
structure Ticket where
  id : ℕ
  process : ℕ
  credential : List Char
  secret : List Char
  key : IssuedKey
  deriving DecidableEq

structure ApiPrincipal where
  projectId : String
  keyId : List Char
  deriving DecidableEq

/-- The principal of a granted request. -/
def Ticket.principal (t : Ticket) : ApiPrincipal := ⟨t.key.projectId, t.key.keyId⟩

/-- Where a request stands in `authenticate_api_key`. -/
inductive Place where
  /-- its key's row is read -/
  | checking
  /-- no verdict is remembered -/
  | hashing
  /-- the secret was right at this reading of the clock -/
  | proved (provedAt : ℤ)
  /-- this minute's write is claimed -/
  | recording (provedAt now : ℤ) (previous : Option ℤ)
  deriving DecidableEq

structure Request extends Ticket where
  place : Place

/-- A secret that `scrypt` found right, and when it was remembered. -/
structure Proof extends Ticket where
  provedAt : ℤ
  deriving DecidableEq

/-- The catalog every process shares, what each process remembers, and the
requests under way. `issued`, `proofs`, `granted` and `refused` tell what came to
pass: the keys issued, the secrets found right, the requests answered with a
principal, and those answered with none after their key's row was read. -/
structure KeyStore (δ : Type) where
  projects : Table Project.projectId
  keys : Table fun k : ApiKey => k.keyId
  verdicts : ℕ → Lru (Verdict.digest (δ := δ)) CREDENTIAL_VERDICT_CAPACITY
  keyUse : ℕ → Table KeyUse.keyId
  requests : Table fun r : Request => r.id
  issued : Table IssuedKey.keyId
  proofs : List Proof
  granted : List Proof
  refused : List Ticket

/-- What became of the write of a key's use. -/
inductive Recording where
  | written (unixNano : ℤ)
  /-- `StorageBusyError` -/
  | busy
  /-- another error of the database -/
  | raised

inductive Op where
  | provision (p : String)
  | beginDeletion (p : String)
  /-- a batch of a deleted project's rows -/
  | deleteKeys (p : String) (batch : List (List Char))
  | issue (p : String) (keyId : List Char) (salt : Bytes) (secret : List Char)
  | revoke (p : String) (keyId : List Char)
  /-- `authenticate_api_key`, to the read of the key's row -/
  | authenticate (id process : ℕ) (credential : List Char)
  | verdict (id : ℕ) (now : ℤ)
  | verify (id : ℕ) (now : ℤ)
  | claimUse (id : ℕ) (now : ℤ)
  | recordUse (id : ℕ) (recording : Recording)
  /-- a process ends, and another starts in its place -/
  | restart (process : ℕ)
  /-- `_reset_after_fork`, in the child -/
  | fork (parent child : ℕ)

namespace KeyStore

variable {δ : Type} [DecidableEq δ]

def empty : KeyStore δ :=
  ⟨.empty, .empty, fun _ => .empty, fun _ => .empty, .empty, .empty, [], [], []⟩

/-- The project takes requests. -/
def isActive (s : KeyStore δ) (p : String) : Bool := (s.projects.find? p).any (·.active)

/-- The row of a key that is not revoked, in a project that takes requests. -/
def live (s : KeyStore δ) (keyId : List Char) : Option ApiKey :=
  (s.keys.find? keyId).filter fun k => !k.revoked && s.isActive k.projectId

/-- The request at its next place. -/
def move (s : KeyStore δ) (r : Request) (place : Place) : KeyStore δ :=
  { s with requests := s.requests.put { r with place := place } }

/-- The request answered. -/
def leave (s : KeyStore δ) (r : Request) : KeyStore δ :=
  { s with requests := s.requests.delete fun x => decide (x.id = r.id) }

def grant (s : KeyStore δ) (r : Request) (provedAt : ℤ) : KeyStore δ :=
  { s.leave r with granted := s.granted ++ [⟨r.toTicket, provedAt⟩] }

def refuse (s : KeyStore δ) (r : Request) : KeyStore δ :=
  { s.leave r with refused := s.refused ++ [r.toTicket] }

/-- What a process remembers, changed. -/
def remembering (s : KeyStore δ) (process : ℕ)
    (verdicts : Lru (Verdict.digest (δ := δ)) CREDENTIAL_VERDICT_CAPACITY) : KeyStore δ :=
  { s with verdicts := Function.update s.verdicts process verdicts }

def withUses (s : KeyStore δ) (process : ℕ) (keyUse : Table KeyUse.keyId) : KeyStore δ :=
  { s with keyUse := Function.update s.keyUse process keyUse }

variable (sha256 : List Char → δ) (scrypt : List Char → Bytes → Bytes)

/-- `CredentialVerdictCache.verdict`, and the request's comparison. -/
def verdict (s : KeyStore δ) (r : Request) (now : ℤ) : KeyStore δ :=
  let cache := s.verdicts r.process
  match cache.find? (sha256 r.credential) with
  | none => s.move r .hashing
  | some v =>
    if v.expiresAt ≤ now then
      (s.remembering r.process (cache.erase v.digest)).move r .hashing
    else
      (s.remembering r.process (cache.put v)).move r
        (if v.keyId = r.key.keyId then .proved now else .hashing)

/-- The secret hashed, and its verdict remembered where it is right. -/
def verify (s : KeyStore δ) (r : Request) (now : ℤ) : KeyStore δ :=
  if scrypt r.secret r.key.salt = r.key.hash then
    let v : Verdict δ :=
      ⟨sha256 r.credential, r.key.keyId, now + CREDENTIAL_VERDICT_TTL_NANO⟩
    { (s.remembering r.process ((s.verdicts r.process).put v)).move r (.proved now) with
      proofs := s.proofs ++ [⟨r.toTicket, now⟩] }
  else s.refuse r

/-- `_record_key_use`, to the claim of this minute's write. -/
def claimUse (s : KeyStore δ) (r : Request) (provedAt now : ℤ) : KeyStore δ :=
  let previous := ((s.keyUse r.process).find? r.key.keyId).map (·.recordedAt)
  if previous.any fun recordedAt => now - recordedAt < KEY_USE_RECORD_INTERVAL_NANO then
    s.grant r provedAt
  else
    (s.withUses r.process ((s.keyUse r.process).put ⟨r.key.keyId, now⟩)).move r
      (.recording provedAt now previous)

/-- The claim of a write that failed is taken back, unless it was claimed anew. -/
def unclaim (s : KeyStore δ) (r : Request) (now : ℤ) (previous : Option ℤ) : KeyStore δ :=
  let uses := s.keyUse r.process
  if ((uses.find? r.key.keyId).any (·.recordedAt = now)) then
    s.withUses r.process <|
      match previous with
      | none => uses.delete fun u => decide (u.keyId = r.key.keyId)
      | some recordedAt => uses.put ⟨r.key.keyId, recordedAt⟩
  else s

/-- `last_used_at_unix_nano` written. -/
def used (s : KeyStore δ) (keyId : List Char) (unixNano : ℤ) : KeyStore δ :=
  { s with
    keys := s.keys.patch
      (fun k => if k.keyId = keyId then { k with lastUsedAtUnixNano := some unixNano } else k)
      fun k => by split <;> rfl }

/-- `_record_key_use`, the write; a key that is no longer live is refused, and its
verdict forgotten. -/
def recordUse (s : KeyStore δ) (r : Request) (provedAt now : ℤ) (previous : Option ℤ) :
    Recording → KeyStore δ
  | .written unixNano =>
    match s.live r.key.keyId with
    | some _ => (s.used r.key.keyId unixNano).grant r provedAt
    | none =>
      (s.remembering r.process
        ((s.verdicts r.process).erase (sha256 r.credential))).refuse r
  | .busy => (s.unclaim r now previous).grant r provedAt
  | .raised => (s.unclaim r now previous).leave r

/-- A process with these uses and no verdict, and no request of its own. -/
def started (s : KeyStore δ) (process : ℕ) (keyUse : Table KeyUse.keyId) : KeyStore δ :=
  { (s.remembering process .empty).withUses process keyUse with
    requests := s.requests.delete fun r => decide (r.process = process) }

/-- One operation. -/
def step (s : KeyStore δ) : Op → Option (KeyStore δ)
  | .provision p => some { s with projects := s.projects.insert ⟨p, true⟩ }
  | .beginDeletion p =>
    some { s with
      projects := s.projects.patch
        (fun r => if r.projectId = p then { r with active := false } else r)
        fun r => by split <;> rfl }
  | .deleteKeys p batch =>
    if (s.projects.find? p).any (!·.active) then
      some { s with keys := s.keys.delete fun k => k.projectId = p ∧ k.keyId ∈ batch }
    else none
  | .issue p keyId salt secret =>
    if s.isActive p ∧ s.issued.find? keyId = none then
      let key : IssuedKey := ⟨keyId, p, salt, scrypt secret salt⟩
      some { s with keys := s.keys.insert ⟨key, false, none⟩, issued := s.issued.insert key }
    else none
  | .revoke p keyId =>
    if (s.keys.find? keyId).any fun k => k.projectId = p ∧ !k.revoked then
      some { s with
        keys := s.keys.patch
          (fun k => if k.keyId = keyId then { k with revoked := true } else k)
          fun k => by split <;> rfl }
    else none
  | .authenticate id process credential =>
    match s.requests.find? id, parseCredential credential with
    | none, some (keyId, secret) =>
      (s.live keyId).map fun k =>
        { s with
          requests := s.requests.put
            ⟨⟨id, process, credential, secret, k.toIssuedKey⟩, .checking⟩ }
    | _, _ => none
  | .verdict id now =>
    match s.requests.find? id with
    | some r => if r.place = .checking then some (s.verdict sha256 r now) else none
    | none => none
  | .verify id now =>
    match s.requests.find? id with
    | some r => if r.place = .hashing then some (s.verify sha256 scrypt r now) else none
    | none => none
  | .claimUse id now =>
    match s.requests.find? id with
    | some r =>
      match r.place with
      | .proved provedAt => some (s.claimUse r provedAt now)
      | _ => none
    | none => none
  | .recordUse id recording =>
    match s.requests.find? id with
    | some r =>
      match r.place with
      | .recording provedAt now previous =>
        some (s.recordUse sha256 r provedAt now previous recording)
      | _ => none
    | none => none
  | .restart process => some (s.started process .empty)
  | .fork parent child => some (s.started child (s.keyUse parent))

abbrev next : KeyStore δ → Op → KeyStore δ := Transition.next (step sha256 scrypt)

abbrev run : KeyStore δ → List Op → KeyStore δ := Transition.run (step sha256 scrypt)

end KeyStore

end Earshot.Access
