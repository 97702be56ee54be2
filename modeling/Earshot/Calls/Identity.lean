import Earshot.Calls.Schema
/-!
# Identity

A call is named by its session key, or by its trace when no span named a
key, and by a generation that a purge moves on. Both the name a
tombstone is stored under and the call's ID are keyed hashes. The hash is
a parameter of the store, as are the digits of it a call ID keeps.
-/

namespace Earshot

/-- The call lifecycle's durations. -/
structure CallTimings where
  endGraceNano : ℕ
  longQuietNano : ℕ
  lateDebounceNano : ℕ
  uploadHoldNano : ℕ
  deriving DecidableEq, Repr

/-- What a fingerprint stands for. -/
inductive Namespace where
  /-- `call-session-v1` -/
  | sessionCall
  /-- `call-session-key-v1` -/
  | sessionKey
  /-- `call-trace-v1` -/
  | traceCall
  /-- `call-trace-key-v1` -/
  | traceKey
  deriving DecidableEq, Repr

/-- The store's configuration: its timings, its keyed hash, and what a
call ID keeps of a hash (`[:32]`). -/
structure CallStore where
  timings : CallTimings
  fingerprint : Namespace → String → String
  short : String → String

/-- Four bits as a hex digit. -/
def hexDigit (n : BitVec 4) : Char := (Nat.digitChar n.toNat)

/-- `trace_id.hex()`. -/
def TraceId.hex (t : TraceId) : String :=
  String.ofList ((List.range 32).map fun i => hexDigit (t.extractLsb' (4 * (31 - i)) 4))

namespace CallStore

variable (S : CallStore)

/-- The name of a session key in `call_key_generations` and
`call_tombstones`. -/
def keyFingerprint (p : ProjectId) (sessionKey : String) : String :=
  S.fingerprint .sessionKey (p.value ++ "\x00" ++ sessionKey)

def callId (p : ProjectId) (sessionKey : String) (generation : ℕ) : String :=
  "call_" ++ S.short (S.fingerprint .sessionCall
    (p.value ++ "\x00" ++ sessionKey ++ "\x00" ++ toString generation))

def traceKeyFingerprint (p : ProjectId) (t : TraceId) : String :=
  S.fingerprint .traceKey (p.value ++ "\x00" ++ TraceId.hex t)

def traceCallId (p : ProjectId) (t : TraceId) (generation : ℕ) : String :=
  "call_" ++ S.short (S.fingerprint .traceCall
    (p.value ++ "\x00" ++ TraceId.hex t ++ "\x00" ++ toString generation))

end CallStore

namespace Catalog

/-- The current generation of a key fingerprint. -/
def generation (c : Catalog) (p : ProjectId) (fingerprint : String) : ℕ :=
  ((c.callKeyGenerations.find? (p, fingerprint)).map (·.generation)).getD 0

/-- A tombstone of the fingerprint is unexpired at `now`. -/
def tombstoned (c : Catalog) (p : ProjectId) (fingerprint : String) (now : UnixNano) : Bool :=
  c.callTombstones.rows.any fun r =>
    r.projectId == p && r.keyFingerprint == fingerprint && now < r.expiresAtUnixNano

theorem tombstoned_iff {c : Catalog} {p : ProjectId} {fingerprint : String} {now : UnixNano} :
    c.tombstoned p fingerprint now = true ↔ ∃ r ∈ c.callTombstones,
      r.projectId = p ∧ r.keyFingerprint = fingerprint ∧ now < r.expiresAtUnixNano := by
  simp [tombstoned, Relational.Table.mem_def, and_assoc]

end Catalog

end Earshot
