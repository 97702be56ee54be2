import Earshot.Calls.Capture
import Earshot.Common.Table
import Mathlib.Data.List.Sort
/-!
# Leased jobs

`LeasedJobs`: a table of jobs, each waiting, leased to a holder, or over. A
claim takes the first due job under a new random token; every write of a
holder is conditional on its claim's token, so a holder whose lease was
taken over writes nothing. A retry counts a failed attempt and puts the job
off, or ends it past the last delay; a release returns every leased job at
a server's start.

The table's name and key columns are the key type here; the columns only
an owner reads are one value of its own type. A job that is over is
`failed`, which a retry may write, or in a state its owner names.
-/

namespace Earshot

open Relational

/-- A terminal state. -/
inductive JobEnd (τ : Type) where
  | failed
  | named (state : τ)
  deriving DecidableEq

inductive JobState (τ : Type) where
  | pending
  | running
  | finished (how : JobEnd τ)
  deriving DecidableEq

/-- A row of a job table. -/
structure Job (κ τ γ : Type) where
  key : κ
  state : JobState τ
  /-- Failed attempts so far. -/
  attempts : ℕ
  leaseUntilUnixNano : Option UnixNano
  leaseToken : ℕ
  nextAttemptUnixNano : Option UnixNano
  errorCode : Option String
  updatedUnixNano : UnixNano
  /-- The columns only the table's owner reads. -/
  columns : γ

/-- A claimed job: its key, the claim's token, its lease, and its failures
before. -/
structure JobLease (κ : Type) where
  key : κ
  token : ℕ
  leaseUntilUnixNano : UnixNano
  attempts : ℕ
  /-- The job was running under a lease that expired. -/
  takenOver : Bool
  deriving DecidableEq

structure LeasedJobs where
  retryDelaysSeconds : List ℕ

abbrev JobTable (κ τ γ : Type) := Table (Job.key : Job κ τ γ → κ)

namespace Job

variable {κ τ γ : Type}

/-- A running job whose lease expired. -/
def leaseExpired [DecidableEq τ] (now : UnixNano) (j : Job κ τ γ) : Bool :=
  j.state = .running && j.leaseUntilUnixNano.any (· < now)

/-- A pending job never put off. -/
def neverPutOff [DecidableEq τ] (j : Job κ τ γ) : Bool :=
  j.state = .pending && j.nextAttemptUnixNano.isNone

/-- A pending job whose backoff has passed. -/
def backoffPassed [DecidableEq τ] (now : UnixNano) (j : Job κ τ γ) : Bool :=
  j.state = .pending && j.nextAttemptUnixNano.any (· ≤ now)

/-- The condition of the claim's update. -/
def due [DecidableEq τ] (now : UnixNano) (j : Job κ τ γ) : Bool :=
  j.leaseExpired now ||
    (j.state = .pending && (j.nextAttemptUnixNano.isNone || j.nextAttemptUnixNano.any (· ≤ now)))

/-- The row a claim leaves. -/
def lease (token : ℕ) (leaseUntil now : UnixNano) (j : Job κ τ γ) : Job κ τ γ :=
  { j with
    state := .running
    leaseToken := token
    leaseUntilUnixNano := some leaseUntil
    updatedUnixNano := now }

/-- The row a completion leaves; `columns` are the owner's assignments. -/
def complete (how : JobEnd τ) (errorCode : Option String) (columns : γ → γ) (now : UnixNano)
    (j : Job κ τ γ) : Job κ τ γ :=
  { j with
    state := .finished how
    errorCode := errorCode
    leaseUntilUnixNano := none
    nextAttemptUnixNano := none
    updatedUnixNano := now
    columns := columns j.columns }

/-- The row a failed attempt leaves. -/
def retry [DecidableEq τ] (state : JobState τ) (attempts : ℕ) (errorCode : String)
    (nextAttempt : Option UnixNano) (columns : γ → γ) (now : UnixNano) (j : Job κ τ γ) :
    Job κ τ γ :=
  { j with
    state := state
    attempts := attempts
    errorCode := some errorCode
    leaseUntilUnixNano := none
    nextAttemptUnixNano := nextAttempt
    updatedUnixNano := now
    columns := if state = .finished .failed then columns j.columns else j.columns }

/-- The row a release leaves of a running job. -/
def release [DecidableEq τ] (now : UnixNano) (j : Job κ τ γ) : Job κ τ γ :=
  if j.state = .running then
    { j with
      state := .pending
      leaseUntilUnixNano := none
      nextAttemptUnixNano := none
      updatedUnixNano := now }
  else j

@[simp] theorem lease_key (token : ℕ) (leaseUntil now : UnixNano) (j : Job κ τ γ) :
    (j.lease token leaseUntil now).key = j.key := rfl

@[simp] theorem complete_key (how : JobEnd τ) (errorCode : Option String) (columns : γ → γ)
    (now : UnixNano) (j : Job κ τ γ) : (j.complete how errorCode columns now).key = j.key := rfl

@[simp] theorem retry_key [DecidableEq τ] (state : JobState τ) (attempts : ℕ) (errorCode : String)
    (nextAttempt : Option UnixNano) (columns : γ → γ) (now : UnixNano) (j : Job κ τ γ) :
    (j.retry state attempts errorCode nextAttempt columns now).key = j.key := rfl

@[simp] theorem release_key [DecidableEq τ] (now : UnixNano) (j : Job κ τ γ) :
    (j.release now).key = j.key := by
  unfold release
  split <;> rfl

end Job

namespace JobTable

variable {κ τ γ : Type} [DecidableEq κ]

/-- An update of the row with the key. -/
def write (jobs : JobTable κ τ γ) (k : κ) (f : Job κ τ γ → Job κ τ γ)
    (hf : ∀ j, (f j).key = j.key) : JobTable κ τ γ :=
  jobs.patch (fun j => if j.key = k then f j else j) fun j => by
    split
    · exact hf j
    · rfl

/-- The row an owner inserts. -/
def newJob (k : κ) (columns : γ) (now : UnixNano) : Job κ τ γ where
  key := k
  state := .pending
  attempts := 0
  leaseUntilUnixNano := none
  leaseToken := 0
  nextAttemptUnixNano := none
  errorCode := none
  updatedUnixNano := now
  columns := columns

/-- `INSERT … ON CONFLICT DO NOTHING` -/
def add (jobs : JobTable κ τ γ) (k : κ) (columns : γ) (now : UnixNano) : JobTable κ τ γ :=
  jobs.insert (newJob k columns now)

/-- The row goes, with what it belongs to. -/
def remove (jobs : JobTable κ τ γ) (k : κ) : JobTable κ τ γ := jobs.delete fun j => j.key = k

/-- The state and the next attempt after `attempts` failures: past the last
delay the job is failed. -/
def afterFailure (J : LeasedJobs) (attempts : ℕ) (now : UnixNano) :
    JobState τ × Option UnixNano :=
  match J.retryDelaysSeconds[attempts - 1]? with
  | none => (.finished .failed, none)
  | some delay => (.pending, some (now + delay * 1000000000))

section Lookups

variable {jobs : JobTable κ τ γ} {k k' : κ} {now : UnixNano}

theorem find?_write {f : Job κ τ γ → Job κ τ γ} {hf : ∀ j, (f j).key = j.key} :
    (jobs.write k f hf).find? k' =
      if k' = k then (jobs.find? k).map f else jobs.find? k' := by
  rw [write, Table.find?_patch]
  by_cases hk : k' = k
  · subst hk
    rw [if_pos rfl]
    cases h : jobs.find? k' with
    | none => rfl
    | some j => rw [Option.map_some, Option.map_some, if_pos (Table.key_of_find? h)]
  · rw [if_neg hk]
    cases h : jobs.find? k' with
    | none => rfl
    | some j =>
        have hne : j.key ≠ k := fun hjk => hk ((Table.key_of_find? h).symm.trans hjk)
        rw [Option.map_some, if_neg hne]

theorem find?_add {columns : γ} : (jobs.add k columns now).find? k' =
    if k' = k then (jobs.find? k).or (some (newJob k columns now)) else jobs.find? k' := by
  rw [add, Table.find?_insert, newJob]
  by_cases hk : k' = k
  · rw [if_pos hk.symm, if_pos hk, hk]
  · rw [if_neg (Ne.symm hk), if_neg hk, Option.or_none]

theorem find?_remove : (jobs.remove k).find? k' = if k' = k then none else jobs.find? k' := by
  rw [remove, Table.find?_delete]
  cases h : jobs.find? k' with
  | none => simp
  | some j =>
      have hj := Table.key_of_find? h
      by_cases hk : k' = k
      · simp [hj, hk]
      · simp [hj, hk]

/-- **A failure is terminal past the last delay**, and puts the job off
before. -/
theorem afterFailure_cases (J : LeasedJobs) (attempts : ℕ) (now : UnixNano) :
    (J.retryDelaysSeconds.length < attempts + 1 ∧
      afterFailure (τ := τ) J (attempts + 1) now = (.finished .failed, none)) ∨
    (attempts + 1 ≤ J.retryDelaysSeconds.length ∧
      ∃ next, afterFailure (τ := τ) J (attempts + 1) now = (.pending, some next)) := by
  unfold afterFailure
  rw [Nat.add_sub_cancel]
  rcases Nat.lt_or_ge attempts J.retryDelaysSeconds.length with h | h
  · rw [List.getElem?_eq_getElem h]
    exact Or.inr ⟨h, _, rfl⟩
  · rw [List.getElem?_eq_none h]
    exact Or.inl ⟨by omega, rfl⟩

theorem afterFailure_ne_running (J : LeasedJobs) (attempts : ℕ) (now : UnixNano) :
    (afterFailure J attempts now : JobState τ × Option UnixNano).1 ≠ .running := by
  unfold afterFailure
  split <;> simp

end Lookups

variable [DecidableEq τ]

/-- `due`: keys of up to `limit` due jobs, expired leases first, then
pending jobs never put off, then those whose backoff has passed, earliest
first. The second read has no order of its own: it is the table's. -/
def due (jobs : JobTable κ τ γ) (now : UnixNano) (limit : ℕ) : List κ :=
  let expired := (jobs.rows.filter (·.leaseExpired now)).insertionSort fun a b =>
    a.leaseUntilUnixNano.getD 0 ≤ b.leaseUntilUnixNano.getD 0
  let fresh := jobs.rows.filter (·.neverPutOff)
  let putOff := (jobs.rows.filter (·.backoffPassed now)).insertionSort fun a b =>
    a.nextAttemptUnixNano.getD 0 ≤ b.nextAttemptUnixNano.getD 0
  ((expired ++ fresh ++ putOff).map (·.key)).take limit

/-- `claim`: lease the first due job for `leaseNano key` nanoseconds under
`token`. -/
def claim (jobs : JobTable κ τ γ) (now : UnixNano) (leaseNano : κ → ℤ) (token : ℕ) :
    Option (JobTable κ τ γ × JobLease κ) :=
  match (jobs.due now 1).head?.bind jobs.find? with
  | none => none
  | some before =>
      if before.due now then
        let leaseUntil := now + leaseNano before.key
        some (jobs.write before.key (Job.lease token leaseUntil now) (Job.lease_key _ _ _),
          { key := before.key
            token := token
            leaseUntilUnixNano := leaseUntil
            attempts := before.attempts
            takenOver := before.state = .running })
      else none

/-- `holds`: the lease still holds its job, running under the claim's token. -/
def holds (jobs : JobTable κ τ γ) (lease : JobLease κ) : Bool :=
  (jobs.find? lease.key).any fun j => j.state = .running && j.leaseToken = lease.token

/-- `complete`: end the leased job; `none` if the lease was lost. -/
def complete (jobs : JobTable κ τ γ) (lease : JobLease κ) (now : UnixNano) (how : JobEnd τ)
    (errorCode : Option String) (columns : γ → γ) : Option (JobTable κ τ γ) :=
  if jobs.holds lease then
    some (jobs.write lease.key (Job.complete how errorCode columns now)
      (Job.complete_key _ _ _ _))
  else none

/-- `retry`: count a failed attempt; the job's new state, `none` if the
lease was lost. -/
def retry (J : LeasedJobs) (jobs : JobTable κ τ γ) (lease : JobLease κ) (now : UnixNano)
    (errorCode : String) (columns : γ → γ) : Option (JobTable κ τ γ × JobState τ) :=
  let attempts := lease.attempts + 1
  let after : JobState τ × Option UnixNano := afterFailure J attempts now
  if jobs.holds lease then
    some (jobs.write lease.key (Job.retry after.1 attempts errorCode after.2 columns now)
      (Job.retry_key _ _ _ _ _ _), after.1)
  else none

/-- `release`: every running job is pending again, due now. -/
def release (jobs : JobTable κ τ γ) (now : UnixNano) : JobTable κ τ γ :=
  jobs.patch (Job.release now) (Job.release_key now)

/-! ## What the writes are -/

variable {jobs jobs' : JobTable κ τ γ} {k k' : κ} {now : UnixNano}

theorem find?_release : (jobs.release now).find? k = (jobs.find? k).map (Job.release now) := by
  rw [release, Table.find?_patch]

/-- **A claim takes one due job.** -/
theorem claim_eq_some {leaseNano : κ → ℤ} {token : ℕ} {lease : JobLease κ}
    (h : jobs.claim now leaseNano token = some (jobs', lease)) :
    ∃ j, jobs.find? lease.key = some j ∧ j.due now = true ∧
      lease = ⟨j.key, token, now + leaseNano j.key, j.attempts, j.state = .running⟩ ∧
      jobs' = jobs.write lease.key (Job.lease token (now + leaseNano j.key) now)
        (Job.lease_key _ _ _) := by
  unfold claim at h
  cases hfind : (jobs.due now 1).head?.bind jobs.find? with
  | none =>
      rw [hfind] at h
      cases h
  | some j =>
      rw [hfind] at h
      dsimp only at h
      split at h
      · rename_i hdue
        obtain ⟨rfl, rfl⟩ := Prod.mk.inj (Option.some.inj h)
        obtain ⟨k, -, hk⟩ := Option.bind_eq_some_iff.mp hfind
        exact ⟨j, Table.find?_of_mem (Table.mem_of_find? hk), hdue, rfl, rfl⟩
      · cases h

theorem holds_iff {lease : JobLease κ} : jobs.holds lease = true ↔
    ∃ j, jobs.find? lease.key = some j ∧ j.state = .running ∧ j.leaseToken = lease.token := by
  unfold holds
  cases jobs.find? lease.key <;> simp

theorem complete_eq_some {lease : JobLease κ} {how : JobEnd τ} {errorCode : Option String}
    {columns : γ → γ} (h : jobs.complete lease now how errorCode columns = some jobs') :
    jobs.holds lease = true ∧ jobs' = jobs.write lease.key
      (Job.complete how errorCode columns now) (Job.complete_key _ _ _ _) := by
  rw [complete, Option.ite_none_right_eq_some] at h
  exact ⟨h.1, (Option.some.inj h.2).symm⟩

theorem retry_eq_some {J : LeasedJobs} {lease : JobLease κ} {errorCode : String}
    {columns : γ → γ} {state : JobState τ}
    (h : retry J jobs lease now errorCode columns = some (jobs', state)) :
    jobs.holds lease = true ∧ state = (afterFailure J (lease.attempts + 1) now).1 ∧
      jobs' = jobs.write lease.key (Job.retry state (lease.attempts + 1) errorCode
        (afterFailure (τ := τ) J (lease.attempts + 1) now).2 columns now)
          (Job.retry_key _ _ _ _ _ _) := by
  rw [retry, Option.ite_none_right_eq_some] at h
  obtain ⟨hholds, heq⟩ := h
  obtain ⟨rfl, rfl⟩ := Prod.mk.inj (Option.some.inj heq)
  exact ⟨hholds, rfl, rfl⟩

end JobTable

end Earshot
