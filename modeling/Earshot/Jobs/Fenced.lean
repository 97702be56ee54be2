import Earshot.Common.Run
import Earshot.Jobs.Leased
/-!
# Leased jobs are fenced and bounded

Any number of holders claim, complete and retry the jobs of one table, in
any order and at any times; leases expire, a start releases them all, and
rows go and come back under the same key. What happened is kept in a log
beside the table. A job runs under the lease of its last claim and no other
(`live`), so each write of a holder follows its own claim directly; a claim
takes a running job over only past its lease; and a job's claims since it
was last released are no more than its failed attempts and one.

Tokens are random in the source; here a token drawn before is refused.
-/

namespace Earshot

open Relational

/-! ## The table and its history -/

/-- What happened to a job. -/
inductive JobEvent (κ τ : Type) where
  | added (k : κ)
  | removed (k : κ)
  | requeued (k : κ)
  | claimed (lease : JobLease κ) (now : UnixNano)
  | settled (lease : JobLease κ) (state : JobState τ)
  | released

/-- A job table, and its history, newest first. -/
structure JobWorld (κ τ γ : Type) where
  jobs : JobTable κ τ γ
  log : List (JobEvent κ τ)

inductive JobOp (κ τ γ : Type) where
  | add (k : κ) (columns : γ) (now : UnixNano)
  | remove (k : κ)
  /-- The owner puts a job that is over back. -/
  | requeue (k : κ) (now : UnixNano)
  | claim (now : UnixNano) (leaseNano : κ → ℤ) (token : ℕ)
  | complete (lease : JobLease κ) (now : UnixNano) (how : JobEnd τ) (errorCode : Option String)
      (columns : γ → γ)
  | retry (lease : JobLease κ) (now : UnixNano) (errorCode : String) (columns : γ → γ)
  | release (now : UnixNano)

section Log

variable {κ τ : Type}

/-- The leases claims were given, newest first. -/
def leases (log : List (JobEvent κ τ)) : List (JobLease κ) :=
  log.filterMap fun
    | .claimed lease _ => some lease
    | _ => none

variable [DecidableEq κ]

/-- The lease the job runs under: that of its last claim, unless something
happened to the job since. -/
def live (k : κ) : List (JobEvent κ τ) → Option (JobLease κ)
  | [] => none
  | .claimed lease _ :: past => if lease.key = k then some lease else live k past
  | .settled lease _ :: past => if lease.key = k then none else live k past
  | .added k' :: past => if k' = k then none else live k past
  | .removed k' :: past => if k' = k then none else live k past
  | .requeued k' :: past => if k' = k then none else live k past
  | .released :: _ => none

/-- The claims of the job that took no lease over, since it was last
released, requeued, or inserted. -/
def executions (k : κ) : List (JobEvent κ τ) → ℕ
  | [] => 0
  | .claimed lease _ :: past =>
      (if lease.key = k ∧ lease.takenOver = false then 1 else 0) + executions k past
  | .settled _ _ :: past => executions k past
  | .added k' :: past => if k' = k then 0 else executions k past
  | .removed k' :: past => if k' = k then 0 else executions k past
  | .requeued k' :: past => if k' = k then 0 else executions k past
  | .released :: _ => 0

end Log

namespace JobTable

variable {κ τ γ : Type} [DecidableEq κ]

/-- `requeue`, for one job: pending, with no failed attempt. -/
def requeue (jobs : JobTable κ τ γ) (k : κ) (now : UnixNano) : JobTable κ τ γ :=
  jobs.write k ({ · with
    state := .pending, attempts := 0, errorCode := none, leaseUntilUnixNano := none
    nextAttemptUnixNano := none, updatedUnixNano := now }) fun _ => rfl

end JobTable

namespace JobWorld

variable {κ τ γ : Type} [DecidableEq κ] [DecidableEq τ]

/-- A claim, under a token no claim drew before. -/
def claim (w : JobWorld κ τ γ) (now : UnixNano) (leaseNano : κ → ℤ) (token : ℕ) :
    Option (JobWorld κ τ γ × JobLease κ) :=
  if token ∈ (leases w.log).map (·.token) then none
  else (w.jobs.claim now leaseNano token).map fun out =>
    (⟨out.1, .claimed out.2 now :: w.log⟩, out.2)

/-- One operation: the world after its commit, `none` when it commits
nothing. A holder writes with a lease it was given. -/
def step (J : LeasedJobs) (w : JobWorld κ τ γ) : JobOp κ τ γ → Option (JobWorld κ τ γ)
  | .add k columns now =>
      if (w.jobs.find? k).isNone then some ⟨w.jobs.add k columns now, .added k :: w.log⟩ else none
  | .remove k =>
      if (w.jobs.find? k).isSome then some ⟨w.jobs.remove k, .removed k :: w.log⟩ else none
  | .requeue k now =>
      if (w.jobs.find? k).any (fun j => j.state ≠ .pending ∧ j.state ≠ .running) then
        some ⟨w.jobs.requeue k now, .requeued k :: w.log⟩
      else none
  | .claim now leaseNano token => (w.claim now leaseNano token).map (·.1)
  | .complete lease now how errorCode columns =>
      if lease ∈ leases w.log then
        (w.jobs.complete lease now how errorCode columns).map fun jobs =>
          ⟨jobs, .settled lease (.finished how) :: w.log⟩
      else none
  | .retry lease now errorCode columns =>
      if lease ∈ leases w.log then
        (JobTable.retry J w.jobs lease now errorCode columns).map fun out =>
          ⟨out.1, .settled lease out.2 :: w.log⟩
      else none
  | .release now => some ⟨w.jobs.release now, .released :: w.log⟩

/-- The table after a run of operations, from an empty one. -/
def after (J : LeasedJobs) (ops : List (JobOp κ τ γ)) : JobWorld κ τ γ :=
  Transition.run (step J) ⟨.empty, []⟩ ops

end JobWorld

/-! ## Sound histories -/

section Sound

variable {κ τ : Type} [DecidableEq κ]

/-- What must have happened before an event: a holder writes with the lease
the job runs under; a claim has a new token, and takes a running job over
only past its lease. -/
def Justified (past : List (JobEvent κ τ)) : JobEvent κ τ → Prop
  | .claimed lease now =>
      lease.token ∉ (leases past).map (·.token) ∧
        (lease.takenOver = true ↔ (live lease.key past).isSome = true) ∧
        ∀ lease', live lease.key past = some lease' → lease'.leaseUntilUnixNano < now
  | .settled lease _ => live lease.key past = some lease
  | .added k | .requeued k => live k past = none
  | .removed _ | .released => True

def Sound : List (JobEvent κ τ) → Prop
  | [] => True
  | e :: past => Justified past e ∧ Sound past

variable {log : List (JobEvent κ τ)} {lease lease' : JobLease κ} {k : κ}

/-- The lease a job runs under is of a claim of it. -/
theorem mem_leases_of_live (h : live k log = some lease) : lease ∈ leases log ∧ lease.key = k := by
  induction log with
  | nil => cases h
  | cons e past ih =>
      have htail : live k past = some lease → lease ∈ leases (e :: past) ∧ lease.key = k := by
        intro hpast
        obtain ⟨hmem, hkey⟩ := ih hpast
        refine ⟨?_, hkey⟩
        unfold leases at hmem ⊢
        rw [List.filterMap_cons]
        split
        · exact hmem
        · exact List.mem_cons_of_mem _ hmem
      cases e with
      | claimed lease₀ now =>
          unfold live at h
          split at h
          · rename_i hkey
            obtain rfl := Option.some.inj h
            exact ⟨List.mem_cons_self, hkey⟩
          · exact htail h
      | released => cases h
      | _ =>
          unfold live at h
          split at h
          · cases h
          · exact htail h

/-- A token is one claim's. -/
theorem Sound.eq_of_token_eq (h : Sound log) (hmem : lease ∈ leases log)
    (hmem' : lease' ∈ leases log) (htoken : lease.token = lease'.token) : lease = lease' := by
  have hnd : ((leases log).map (·.token)).Nodup := by
    clear hmem hmem'
    induction log with
    | nil => exact List.nodup_nil
    | cons e past ih =>
        cases e with
        | claimed lease₀ now => exact List.nodup_cons.mpr ⟨h.1.1, ih h.2⟩
        | _ => exact ih h.2
  exact List.inj_on_of_nodup_map hnd hmem hmem' htoken

/-- The leases that wrote their outcome, newest first. -/
def settledLeases (log : List (JobEvent κ τ)) : List (JobLease κ) :=
  log.filterMap fun
    | .settled lease _ => some lease
    | _ => none

theorem Sound.settled_mem_leases (h : Sound log) (hmem : lease ∈ settledLeases log) :
    lease ∈ leases log := by
  induction log with
  | nil => exact absurd hmem List.not_mem_nil
  | cons e past ih =>
      cases e with
      | claimed lease₀ now => exact List.mem_cons_of_mem _ (ih h.2 hmem)
      | settled lease₀ state =>
          rcases List.mem_cons.mp hmem with rfl | hmem
          · exact (mem_leases_of_live h.1).1
          · exact ih h.2 hmem
      | _ => exact ih h.2 hmem

/-- A lease its job runs under has written no outcome. -/
theorem Sound.notMem_settled_of_live (h : Sound log) (hlive : live k log = some lease) :
    lease ∉ settledLeases log := by
  induction log with
  | nil => exact List.not_mem_nil
  | cons e past ih =>
      cases e with
      | claimed lease₀ now =>
          unfold live at hlive
          split at hlive
          · -- its token is new
            obtain rfl := Option.some.inj hlive
            exact fun hmem => h.1.1 (List.mem_map_of_mem (h.2.settled_mem_leases hmem))
          · exact ih h.2 hlive
      | settled lease₀ state =>
          unfold live at hlive
          split at hlive
          · cases hlive
          · rename_i hne
            intro hmem
            rcases List.mem_cons.mp hmem with rfl | hmem
            · exact hne (mem_leases_of_live hlive).2
            · exact ih h.2 hlive hmem
      | released => cases hlive
      | _ =>
          unfold live at hlive
          split at hlive
          · cases hlive
          · exact ih h.2 hlive

/-- **Each claim's outcome is written at most once.** -/
theorem Sound.nodup_settledLeases (h : Sound log) : (settledLeases log).Nodup := by
  induction log with
  | nil => exact List.nodup_nil
  | cons e past ih =>
      cases e with
      | settled lease₀ state =>
          exact List.nodup_cons.mpr ⟨h.2.notMem_settled_of_live h.1, ih h.2⟩
      | _ => exact ih h.2

/-- An event of a sound history is justified by what came before it. -/
theorem Sound.justified {post past : List (JobEvent κ τ)} {e : JobEvent κ τ}
    (h : Sound (post ++ e :: past)) : Justified past e := by
  induction post with
  | nil => exact h.1
  | cons e' post ih => exact ih h.2

end Sound

/-! ## The table agrees with its history -/

section Agree

variable {κ τ γ : Type} [DecidableEq κ]

/-- The job an event is about; a release is about every job. -/
def JobEvent.key? : JobEvent κ τ → Option κ
  | .added k | .removed k | .requeued k => some k
  | .claimed lease _ | .settled lease _ => some lease.key
  | .released => none

/-- **A row agrees with the history of its job**, state by state. -/
def Agrees (J : LeasedJobs) (log : List (JobEvent κ τ)) (k : κ) : Option (Job κ τ γ) → Prop
  | none => live k log = none ∧ executions k log = 0
  | some j =>
      match j.state with
      | .pending => live k log = none ∧ executions k log ≤ j.attempts ∧
          j.attempts ≤ J.retryDelaysSeconds.length
      | .running =>
          (∃ lease, live k log = some lease ∧ lease.token = j.leaseToken ∧
            lease.attempts = j.attempts ∧
            j.leaseUntilUnixNano = some lease.leaseUntilUnixNano) ∧
          executions k log ≤ j.attempts + 1 ∧ j.attempts ≤ J.retryDelaysSeconds.length
      | .finished how => live k log = none ∧ executions k log ≤ J.retryDelaysSeconds.length + 1 ∧
          (j.attempts ≤ J.retryDelaysSeconds.length ∨
            (j.attempts = J.retryDelaysSeconds.length + 1 ∧ how = .failed))

variable {J : LeasedJobs} {log : List (JobEvent κ τ)} {e : JobEvent κ τ} {k k' : κ}
variable {row : Option (Job κ τ γ)} {j : Job κ τ γ}

/-- An event of another job changes nothing of a job's history. -/
theorem agrees_cons_of_ne (he : e.key? = some k) (hk : k' ≠ k) :
    Agrees J (e :: log) k' row ↔ Agrees J log k' row := by
  have hne : k ≠ k' := Ne.symm hk
  have hsame : live k' (e :: log) = live k' log ∧ executions k' (e :: log) = executions k' log := by
    cases e with
    | claimed lease now =>
        obtain rfl := Option.some.inj he
        simp [live, executions, hne]
    | settled lease state =>
        obtain rfl := Option.some.inj he
        simp [live, executions, hne]
    | released => cases he
    | _ =>
        obtain rfl := Option.some.inj he
        simp [live, executions, hne]
  unfold Agrees
  rw [hsame.1, hsame.2]

/-- A job has been claimed no more often than its attempts allow. -/
theorem Agrees.executions_le (h : Agrees J log k row) :
    executions k log ≤ J.retryDelaysSeconds.length + 1 := by
  cases row with
  | none => rw [h.2]; omega
  | some j =>
      unfold Agrees at h
      dsimp only at h
      split at h
      · omega
      · omega
      · exact h.2.1

/-- What a due job's row says of its history: it runs under an expired
lease, or under none. -/
theorem Agrees.of_due [DecidableEq τ] {now : UnixNano} (h : Agrees J log k (some j))
    (hdue : j.due now = true) :
    (j.state = .running ↔ (live k log).isSome = true) ∧
      (∀ lease', live k log = some lease' → lease'.leaseUntilUnixNano < now) ∧
      executions k log ≤ j.attempts + (if j.state = .running then 1 else 0) ∧
      j.attempts ≤ J.retryDelaysSeconds.length := by
  unfold Agrees at h
  unfold Job.due Job.leaseExpired at hdue
  cases hstate : j.state with
  | pending =>
      simp only [hstate] at h
      simp [h.1, h.2.1, h.2.2]
  | running =>
      simp only [hstate] at h hdue
      obtain ⟨⟨lease, hlive, -, -, huntil⟩, hexec, hattempts⟩ := h
      rw [huntil] at hdue
      have hexpired : lease.leaseUntilUnixNano < now := by simpa using hdue
      refine ⟨by simp [hlive], fun lease' hlive' => ?_, by simpa using hexec, hattempts⟩
      rw [hlive] at hlive'
      rw [← Option.some.inj hlive']
      exact hexpired
  | finished how =>
      simp [hstate] at hdue

end Agree

namespace JobWorld

variable {κ τ γ : Type} [DecidableEq κ]

/-- The table and its history, in step. -/
structure Inv (J : LeasedJobs) (w : JobWorld κ τ γ) : Prop where
  rows : ∀ k, Agrees J w.log k (w.jobs.find? k)
  sound : Sound w.log

variable {J : LeasedJobs} {w w' : JobWorld κ τ γ} {lease : JobLease κ} {now : UnixNano}

/-- A step that writes one row and logs one event of its job. -/
theorem Inv.of_row (h : Inv J w) {k : κ} {e : JobEvent κ τ} {jobs : JobTable κ τ γ}
    (he : e.key? = some k) (hother : ∀ k', k' ≠ k → jobs.find? k' = w.jobs.find? k')
    (hjust : Justified w.log e) (hrow : Agrees J (e :: w.log) k (jobs.find? k)) :
    Inv J ⟨jobs, e :: w.log⟩ where
  rows k' := by
    by_cases hk : k' = k
    · rw [hk]
      exact hrow
    · rw [hother k' hk, agrees_cons_of_ne he hk]
      exact h.rows k'
  sound := ⟨hjust, h.sound⟩

theorem Inv.add (h : Inv J w) {k : κ} {columns : γ} (hnone : w.jobs.find? k = none) :
    Inv J ⟨w.jobs.add k columns now, .added k :: w.log⟩ := by
  have hrow := h.rows k
  rw [hnone] at hrow
  refine h.of_row rfl (fun k' hk => ?_) hrow.1 ?_
  · rw [JobTable.find?_add, if_neg hk]
  · rw [JobTable.find?_add, if_pos rfl, hnone, Option.none_or]
    simp [Agrees, JobTable.newJob, live, executions]

theorem Inv.remove (h : Inv J w) (k : κ) : Inv J ⟨w.jobs.remove k, .removed k :: w.log⟩ := by
  refine h.of_row rfl (fun k' hk => ?_) trivial ?_
  · rw [JobTable.find?_remove, if_neg hk]
  · rw [JobTable.find?_remove, if_pos rfl]
    simp [Agrees, live, executions]

theorem Inv.requeue (h : Inv J w) {k : κ} {j : Job κ τ γ} (hj : w.jobs.find? k = some j)
    (hover : j.state ≠ .pending ∧ j.state ≠ .running) :
    Inv J ⟨w.jobs.requeue k now, .requeued k :: w.log⟩ := by
  have hrow := h.rows k
  rw [hj, Agrees] at hrow
  have hlive : live k w.log = none := by
    split at hrow
    · exact hrow.1
    · exact absurd ‹_› hover.2
    · exact hrow.1
  refine h.of_row rfl (fun k' hk => ?_) hlive ?_
  · rw [JobTable.requeue, JobTable.find?_write, if_neg hk]
  · rw [JobTable.requeue, JobTable.find?_write, if_pos rfl, hj]
    simp [Agrees, live, executions]

variable [DecidableEq τ]

/-- **A lease that holds its job is the one the job runs under**, and knows
its attempts. -/
theorem Inv.live_of_holds (h : Inv J w) (hmem : lease ∈ leases w.log)
    (hholds : w.jobs.holds lease = true) : live lease.key w.log = some lease ∧
      ∃ j, w.jobs.find? lease.key = some j ∧ j.state = .running ∧
        j.attempts = lease.attempts := by
  obtain ⟨j, hj, hrunning, htoken⟩ := JobTable.holds_iff.mp hholds
  have hrow := h.rows lease.key
  rw [hj, Agrees] at hrow
  simp only [hrunning] at hrow
  obtain ⟨⟨lease₀, hlive, htoken₀, hattempts, -⟩, -⟩ := hrow
  have heq : lease₀ = lease := h.sound.eq_of_token_eq (mem_leases_of_live hlive).1 hmem
    (htoken₀.trans htoken)
  rw [heq] at hlive hattempts
  exact ⟨hlive, j, hj, hrunning, hattempts.symm⟩

theorem claim_eq_some {leaseNano : κ → ℤ} {token : ℕ}
    (hrun : w.claim now leaseNano token = some (w', lease)) :
    token ∉ (leases w.log).map (·.token) ∧ ∃ jobs,
      w.jobs.claim now leaseNano token = some (jobs, lease) ∧
        w' = ⟨jobs, .claimed lease now :: w.log⟩ := by
  obtain ⟨hfresh, heq⟩ := Option.ite_none_left_eq_some.mp hrun
  obtain ⟨⟨jobs, lease'⟩, hclaim, hout⟩ := Option.map_eq_some_iff.mp heq
  obtain ⟨rfl, rfl⟩ := Prod.mk.inj hout
  exact ⟨hfresh, jobs, hclaim, rfl⟩

theorem Inv.claim (h : Inv J w) {leaseNano : κ → ℤ} {token : ℕ}
    (hrun : w.claim now leaseNano token = some (w', lease)) : Inv J w' := by
  obtain ⟨hfresh, jobs, hclaim, rfl⟩ := claim_eq_some hrun
  obtain ⟨j, hj, hdue, hlease, rfl⟩ := JobTable.claim_eq_some hclaim
  have hrow := h.rows lease.key
  rw [hj] at hrow
  obtain ⟨hrunning, hexpired, hexec, hattempts⟩ := hrow.of_due hdue
  have htaken : lease.takenOver = decide (j.state = .running) := by rw [hlease]
  refine h.of_row rfl (fun k' hk => ?_) ⟨?_, ?_, hexpired⟩ ?_
  · rw [JobTable.find?_write, if_neg hk]
  · rw [hlease]
    exact hfresh
  · rw [htaken, decide_eq_true_iff]
    exact hrunning
  · rw [JobTable.find?_write, if_pos rfl, hj]
    refine ⟨⟨lease, by rw [live, if_pos rfl], by rw [hlease]; rfl, by rw [hlease]; rfl,
      by rw [hlease]; rfl⟩, ?_, hattempts⟩
    -- a claim that takes over is not counted; any other starts from a pending job
    rw [executions, htaken]
    by_cases hstate : j.state = .running
    · rw [if_pos hstate] at hexec
      simp only [hstate, decide_true, Bool.true_eq_false, and_false, if_false, Nat.zero_add]
      exact hexec
    · rw [if_neg hstate] at hexec
      simp only [hstate, decide_false, and_true, if_true]
      have hsame : (j.lease token (now + leaseNano j.key) now).attempts = j.attempts := rfl
      omega

theorem Inv.complete (h : Inv J w) {how : JobEnd τ} {errorCode : Option String} {columns : γ → γ}
    {jobs : JobTable κ τ γ} (hmem : lease ∈ leases w.log)
    (hrun : w.jobs.complete lease now how errorCode columns = some jobs) :
    Inv J ⟨jobs, .settled lease (.finished how) :: w.log⟩ := by
  obtain ⟨hholds, rfl⟩ := JobTable.complete_eq_some hrun
  obtain ⟨hlive, j, hj, hrunning, -⟩ := h.live_of_holds hmem hholds
  have hrow := h.rows lease.key
  rw [hj, Agrees] at hrow
  simp only [hrunning] at hrow
  refine h.of_row rfl (fun k' hk => ?_) hlive ?_
  · rw [JobTable.find?_write, if_neg hk]
  · rw [JobTable.find?_write, if_pos rfl, hj]
    refine ⟨by rw [live, if_pos rfl], ?_, Or.inl hrow.2.2⟩
    rw [executions]
    omega

theorem Inv.retry (h : Inv J w) {errorCode : String} {columns : γ → γ} {state : JobState τ}
    {jobs : JobTable κ τ γ} (hmem : lease ∈ leases w.log)
    (hrun : JobTable.retry J w.jobs lease now errorCode columns = some (jobs, state)) :
    Inv J ⟨jobs, .settled lease state :: w.log⟩ := by
  obtain ⟨hholds, hstate, rfl⟩ := JobTable.retry_eq_some hrun
  obtain ⟨hlive, j, hj, hrunning, hattempts⟩ := h.live_of_holds hmem hholds
  have hrow := h.rows lease.key
  rw [hj, Agrees] at hrow
  simp only [hrunning, hattempts] at hrow
  refine h.of_row rfl (fun k' hk => ?_) hlive ?_
  · rw [JobTable.find?_write, if_neg hk]
  · rw [JobTable.find?_write, if_pos rfl, hj, Option.map_some]
    have hlive' : live lease.key (.settled lease state :: w.log) = none := by
      rw [live, if_pos rfl]
    rcases JobTable.afterFailure_cases (τ := τ) J lease.attempts now with
      ⟨hpast, hafter⟩ | ⟨hwithin, next, hafter⟩
    · rw [hafter] at hstate ⊢
      subst hstate
      refine ⟨hlive', ?_, Or.inr ⟨?_, rfl⟩⟩
      · rw [executions]
        omega
      · show lease.attempts + 1 = J.retryDelaysSeconds.length + 1
        omega
    · rw [hafter] at hstate ⊢
      subst hstate
      refine ⟨hlive', ?_, hwithin⟩
      rw [executions]
      show executions lease.key w.log ≤ lease.attempts + 1
      omega

/-- **A release** leaves no job running, and starts every count anew. -/
theorem Inv.release (h : Inv J w) : Inv J ⟨w.jobs.release now, .released :: w.log⟩ where
  rows k := by
    have hrow := h.rows k
    show Agrees J (.released :: w.log) k ((w.jobs.release now).find? k)
    rw [JobTable.find?_release]
    cases hj : w.jobs.find? k with
    | none => exact ⟨rfl, rfl⟩
    | some j =>
        rw [hj] at hrow
        unfold Agrees at hrow
        rw [Option.map_some, Job.release]
        cases hstate : j.state with
        | pending =>
            simp only [hstate] at hrow
            simp only [reduceCtorEq, if_false]
            unfold Agrees
            simp only [hstate]
            exact ⟨rfl, Nat.zero_le _, hrow.2.2⟩
        | running =>
            simp only [hstate] at hrow
            exact ⟨rfl, Nat.zero_le _, hrow.2.2⟩
        | finished how =>
            simp only [hstate] at hrow
            simp only [reduceCtorEq, if_false]
            unfold Agrees
            simp only [hstate]
            exact ⟨rfl, Nat.zero_le _, hrow.2.2⟩
  sound := ⟨trivial, h.sound⟩

/-- **Every committed operation keeps the table and its history in step.** -/
theorem Inv.of_step {op : JobOp κ τ γ} (h : Inv J w) (hop : step J w op = some w') : Inv J w' := by
  cases op with
  | add k columns now =>
      obtain ⟨hnone, heq⟩ := Option.ite_none_right_eq_some.mp hop
      obtain rfl := Option.some.inj heq
      exact h.add (Option.isNone_iff_eq_none.mp hnone)
  | remove k =>
      obtain ⟨-, heq⟩ := Option.ite_none_right_eq_some.mp hop
      obtain rfl := Option.some.inj heq
      exact h.remove k
  | requeue k now =>
      obtain ⟨hany, heq⟩ := Option.ite_none_right_eq_some.mp hop
      obtain rfl := Option.some.inj heq
      rw [Option.any_eq_true] at hany
      obtain ⟨j, hj, hover⟩ := hany
      exact h.requeue hj (of_decide_eq_true hover)
  | claim now leaseNano token =>
      obtain ⟨⟨w₁, lease⟩, hrun, rfl⟩ := Option.map_eq_some_iff.mp hop
      exact h.claim hrun
  | complete lease now how errorCode columns =>
      obtain ⟨hmem, heq⟩ := Option.ite_none_right_eq_some.mp hop
      obtain ⟨jobs, hrun, rfl⟩ := Option.map_eq_some_iff.mp heq
      exact h.complete hmem hrun
  | retry lease now errorCode columns =>
      obtain ⟨hmem, heq⟩ := Option.ite_none_right_eq_some.mp hop
      obtain ⟨⟨jobs, state⟩, hrun, rfl⟩ := Option.map_eq_some_iff.mp heq
      exact h.retry hmem hrun
  | release now =>
      obtain rfl := Option.some.inj hop
      exact h.release

/-- A committed operation logs one event. -/
theorem exists_event_of_step {op : JobOp κ τ γ} (hop : step J w op = some w') :
    ∃ e, w'.log = e :: w.log := by
  cases op with
  | add | remove | requeue =>
      obtain ⟨-, heq⟩ := Option.ite_none_right_eq_some.mp hop
      obtain rfl := Option.some.inj heq
      exact ⟨_, rfl⟩
  | claim =>
      obtain ⟨⟨w₁, lease⟩, hrun, rfl⟩ := Option.map_eq_some_iff.mp hop
      obtain ⟨-, jobs, -, rfl⟩ := claim_eq_some hrun
      exact ⟨_, rfl⟩
  | complete | retry =>
      obtain ⟨-, heq⟩ := Option.ite_none_right_eq_some.mp hop
      obtain ⟨out, -, rfl⟩ := Option.map_eq_some_iff.mp heq
      exact ⟨_, rfl⟩
  | release =>
      obtain rfl := Option.some.inj hop
      exact ⟨_, rfl⟩

/-- A row a write leaves that is not running is held by no lease. -/
theorem holds_of_write {jobs : JobTable κ τ γ} {k : κ} {f : Job κ τ γ → Job κ τ γ}
    (hf : ∀ j, (f j).key = j.key)
    (hrow : ∀ j, (f j).state = .running → (f j).leaseToken ≠ lease.token)
    (hholds : (jobs.write k f hf).holds lease = true) : jobs.holds lease = true := by
  obtain ⟨j, hj, hrunning, htoken⟩ := JobTable.holds_iff.mp hholds
  rw [JobTable.find?_write] at hj
  split at hj
  · obtain ⟨j₀, -, rfl⟩ := Option.map_eq_some_iff.mp hj
    exact absurd htoken (hrow j₀ hrunning)
  · exact JobTable.holds_iff.mpr ⟨j, hj, hrunning, htoken⟩

/-- **A lost lease stays lost.** -/
theorem holds_of_step (hop : step J w op = some w') (hmem : lease ∈ leases w.log)
    (hholds : w'.jobs.holds lease = true) : w.jobs.holds lease = true := by
  cases op with
  | add k columns now =>
      obtain ⟨-, heq⟩ := Option.ite_none_right_eq_some.mp hop
      obtain rfl := Option.some.inj heq
      obtain ⟨j, hj, hrunning, htoken⟩ := JobTable.holds_iff.mp hholds
      refine JobTable.holds_iff.mpr ⟨j, ?_, hrunning, htoken⟩
      have hfind : (w.jobs.add k columns now).find? lease.key = some j := hj
      rw [JobTable.find?_add] at hfind
      split at hfind
      · rename_i hk
        rw [hk]
        cases hrow : w.jobs.find? k with
        | some j₀ => simpa [hrow] using hfind
        | none =>
            rw [hrow, Option.none_or] at hfind
            obtain rfl := Option.some.inj hfind
            cases hrunning
      · exact hfind
  | remove k =>
      obtain ⟨-, heq⟩ := Option.ite_none_right_eq_some.mp hop
      obtain rfl := Option.some.inj heq
      obtain ⟨j, hj, hrunning, htoken⟩ := JobTable.holds_iff.mp hholds
      rw [JobTable.find?_remove] at hj
      split at hj
      · cases hj
      · exact JobTable.holds_iff.mpr ⟨j, hj, hrunning, htoken⟩
  | requeue k now =>
      obtain ⟨-, heq⟩ := Option.ite_none_right_eq_some.mp hop
      obtain rfl := Option.some.inj heq
      refine holds_of_write ?_ ?_ hholds
      · exact fun _ => rfl
      · exact fun j hrunning => by cases hrunning
  | claim now leaseNano token =>
      obtain ⟨⟨w₁, taken⟩, hrun, rfl⟩ := Option.map_eq_some_iff.mp hop
      obtain ⟨hfresh, jobs, hclaim, rfl⟩ := claim_eq_some hrun
      obtain ⟨j, -, -, -, rfl⟩ := JobTable.claim_eq_some hclaim
      -- the token of a new claim is none a lease was given
      refine holds_of_write (Job.lease_key _ _ _) (fun j _ htoken => hfresh ?_) hholds
      rw [show token = lease.token from htoken]
      exact List.mem_map_of_mem hmem
  | complete taken now how errorCode columns =>
      obtain ⟨-, heq⟩ := Option.ite_none_right_eq_some.mp hop
      obtain ⟨jobs, hrun, rfl⟩ := Option.map_eq_some_iff.mp heq
      obtain ⟨-, rfl⟩ := JobTable.complete_eq_some hrun
      exact holds_of_write (Job.complete_key _ _ _ _) (fun j hrunning => by cases hrunning) hholds
  | retry taken now errorCode columns =>
      obtain ⟨-, heq⟩ := Option.ite_none_right_eq_some.mp hop
      obtain ⟨⟨jobs, state⟩, hrun, rfl⟩ := Option.map_eq_some_iff.mp heq
      obtain ⟨-, hstate, rfl⟩ := JobTable.retry_eq_some hrun
      refine holds_of_write (Job.retry_key _ _ _ _ _ _) (fun j hrunning => ?_) hholds
      exact absurd (hstate.symm.trans hrunning) (JobTable.afterFailure_ne_running _ _ _)
  | release now =>
      obtain rfl := Option.some.inj hop
      obtain ⟨j, hj, hrunning, -⟩ := JobTable.holds_iff.mp hholds
      have hfind : (w.jobs.release now).find? lease.key = some j := hj
      rw [JobTable.find?_release] at hfind
      obtain ⟨j₀, -, rfl⟩ := Option.map_eq_some_iff.mp hfind
      rw [Job.release] at hrunning
      split at hrunning
      · cases hrunning
      · exact absurd hrunning ‹_›

/-- A claim of the past is a claim of the past. -/
theorem leases_of_step (hop : step J w op = some w') (hmem : lease ∈ leases w.log) :
    lease ∈ leases w'.log := by
  obtain ⟨e, he⟩ := exists_event_of_step hop
  rw [he]
  unfold leases at hmem ⊢
  rw [List.filterMap_cons]
  split
  · exact hmem
  · exact List.mem_cons_of_mem _ hmem

theorem inv_after (J : LeasedJobs) (ops : List (JobOp κ τ γ)) : Inv J (after J ops) :=
  Transition.run_invariant (P := Inv J) (fun _ _ _ h hop => h.of_step hop) ops _
    ⟨fun _ => ⟨rfl, rfl⟩, trivial⟩

/-- What may change a running job: its holder, a claim past its lease, a
release, and its row's deletion. -/
def MayChange (w : JobWorld κ τ γ) (k : κ) : JobOp κ τ γ → Prop
  | .complete lease _ _ _ _ | .retry lease _ _ _ => live k w.log = some lease
  | .claim now _ _ => ∀ lease, live k w.log = some lease → lease.leaseUntilUnixNano < now
  | .release _ => True
  | .remove k' => k' = k
  | .add _ _ _ | .requeue _ _ => False

theorem Inv.mayChange (h : Inv J w) {op : JobOp κ τ γ} (hop : step J w op = some w') {k : κ}
    {j : Job κ τ γ} (hj : w.jobs.find? k = some j) (hrunning : j.state = .running) :
    w'.jobs.find? k = some j ∨ MayChange w k op := by
  cases op with
  | add k' columns now =>
      obtain ⟨hnone, heq⟩ := Option.ite_none_right_eq_some.mp hop
      obtain rfl := Option.some.inj heq
      refine Or.inl ?_
      show (w.jobs.add k' columns now).find? k = some j
      have hne : k ≠ k' := by
        rintro rfl
        rw [hj] at hnone
        cases hnone
      rw [JobTable.find?_add, if_neg hne, hj]
  | remove k' =>
      obtain ⟨-, heq⟩ := Option.ite_none_right_eq_some.mp hop
      obtain rfl := Option.some.inj heq
      by_cases hk : k = k'
      · exact Or.inr hk.symm
      · exact Or.inl (by rw [JobTable.find?_remove, if_neg hk, hj])
  | requeue k' now =>
      obtain ⟨hany, heq⟩ := Option.ite_none_right_eq_some.mp hop
      obtain rfl := Option.some.inj heq
      refine Or.inl ?_
      show (w.jobs.requeue k' now).find? k = some j
      have hne : k ≠ k' := by
        rintro rfl
        rw [hj] at hany
        exact (of_decide_eq_true hany).2 hrunning
      rw [JobTable.requeue, JobTable.find?_write, if_neg hne, hj]
  | claim now leaseNano token =>
      obtain ⟨⟨w₁, lease⟩, hrun, rfl⟩ := Option.map_eq_some_iff.mp hop
      obtain ⟨-, jobs, hclaim, rfl⟩ := claim_eq_some hrun
      obtain ⟨j', hj', hdue, -, rfl⟩ := JobTable.claim_eq_some hclaim
      by_cases hk : k = lease.key
      · refine Or.inr ?_
        rw [hk] at hj ⊢
        have hrow := h.rows lease.key
        rw [hj'] at hrow
        exact (hrow.of_due hdue).2.1
      · exact Or.inl (by rw [JobTable.find?_write, if_neg hk, hj])
  | complete lease now how errorCode columns =>
      obtain ⟨hmem, heq⟩ := Option.ite_none_right_eq_some.mp hop
      obtain ⟨jobs, hrun, rfl⟩ := Option.map_eq_some_iff.mp heq
      obtain ⟨hholds, rfl⟩ := JobTable.complete_eq_some hrun
      by_cases hk : k = lease.key
      · rw [hk]
        exact Or.inr (h.live_of_holds hmem hholds).1
      · exact Or.inl (by rw [JobTable.find?_write, if_neg hk, hj])
  | retry lease now errorCode columns =>
      obtain ⟨hmem, heq⟩ := Option.ite_none_right_eq_some.mp hop
      obtain ⟨⟨jobs, state⟩, hrun, rfl⟩ := Option.map_eq_some_iff.mp heq
      obtain ⟨hholds, -, rfl⟩ := JobTable.retry_eq_some hrun
      by_cases hk : k = lease.key
      · rw [hk]
        exact Or.inr (h.live_of_holds hmem hholds).1
      · exact Or.inl (by rw [JobTable.find?_write, if_neg hk, hj])
  | release now => exact Or.inr trivial

/-- **Leased jobs are fenced and bounded.** -/
structure Fenced (J : LeasedJobs) (w : JobWorld κ τ γ) : Prop where
  /-- A lease that holds its job is the one of the job's last claim. -/
  holder : ∀ lease ∈ leases w.log, w.jobs.holds lease = true →
    live lease.key w.log = some lease
  /-- Nothing else changes a running job but a claim past its lease, a
  release, and its row's deletion. -/
  change : ∀ op w', step J w op = some w' → ∀ k j, w.jobs.find? k = some j →
    j.state = .running → w'.jobs.find? k = some j ∨ MayChange w k op
  /-- An outcome is written by the lease the job runs under … -/
  outcome : ∀ post lease state past, w.log = post ++ .settled lease state :: past →
    live lease.key past = some lease
  /-- … and once. -/
  once : (settledLeases w.log).Nodup
  /-- A job is claimed while it runs under a lease only past that lease. -/
  exclusive : ∀ post lease now past, w.log = post ++ .claimed lease now :: past →
    ∀ lease', live lease.key past = some lease' → lease'.leaseUntilUnixNano < now
  /-- A job past its last delay is failed. -/
  attempts : ∀ j ∈ w.jobs, j.attempts ≤ J.retryDelaysSeconds.length + 1 ∧
    (j.attempts = J.retryDelaysSeconds.length + 1 → j.state = .finished .failed)
  /-- A retry makes its job failed exactly there. -/
  failing : ∀ lease ∈ leases w.log, ∀ now errorCode columns jobs state,
    JobTable.retry J w.jobs lease now errorCode columns = some (jobs, state) →
      ∃ j, jobs.find? lease.key = some j ∧ j.state = state ∧
        (state = .finished .failed ↔ j.attempts = J.retryDelaysSeconds.length + 1)
  /-- The claims of a job since its last release, those that took a lease
  over aside. -/
  executions : ∀ k, executions k w.log ≤ J.retryDelaysSeconds.length + 1

theorem Inv.attempts_le (h : Inv J w) {j : Job κ τ γ} (hj : j ∈ w.jobs) :
    j.attempts ≤ J.retryDelaysSeconds.length + 1 ∧
      (j.attempts = J.retryDelaysSeconds.length + 1 → j.state = .finished .failed) := by
  have hrow := h.rows j.key
  rw [Table.find?_of_mem hj, Agrees] at hrow
  cases hstate : j.state with
  | pending =>
      simp only [hstate] at hrow
      omega
  | running =>
      simp only [hstate] at hrow
      omega
  | finished how =>
      simp only [hstate] at hrow
      rcases hrow.2.2 with hle | ⟨heq, rfl⟩
      · omega
      · exact ⟨heq.le, fun _ => rfl⟩

theorem Inv.failing (h : Inv J w) (hmem : lease ∈ leases w.log) {errorCode : String}
    {columns : γ → γ} {jobs : JobTable κ τ γ} {state : JobState τ}
    (hrun : JobTable.retry J w.jobs lease now errorCode columns = some (jobs, state)) :
    ∃ j, jobs.find? lease.key = some j ∧ j.state = state ∧
      (state = .finished .failed ↔ j.attempts = J.retryDelaysSeconds.length + 1) := by
  obtain ⟨hholds, hstate, rfl⟩ := JobTable.retry_eq_some hrun
  obtain ⟨-, j, hj, hrunning, hattempts⟩ := h.live_of_holds hmem hholds
  have hrow := h.rows lease.key
  rw [hj, Agrees] at hrow
  simp only [hrunning, hattempts] at hrow
  rw [JobTable.find?_write, if_pos rfl, hj]
  refine ⟨_, rfl, rfl, ?_⟩
  show state = .finished .failed ↔ lease.attempts + 1 = J.retryDelaysSeconds.length + 1
  rcases JobTable.afterFailure_cases (τ := τ) J lease.attempts now with
    ⟨hpast, hafter⟩ | ⟨hwithin, next, hafter⟩
  · rw [hstate, hafter]
    refine iff_of_true rfl ?_
    omega
  · rw [hstate, hafter]
    refine iff_of_false (fun hno => by cases hno) ?_
    omega

theorem Inv.fenced (h : Inv J w) : Fenced J w where
  holder lease hmem hholds := (h.live_of_holds hmem hholds).1
  change op w' hop k j hj hrunning := h.mayChange hop hj hrunning
  outcome post lease state past hlog := by
    have hsound := h.sound
    rw [hlog] at hsound
    exact hsound.justified
  once := h.sound.nodup_settledLeases
  exclusive post lease now past hlog := by
    have hsound := h.sound
    rw [hlog] at hsound
    exact hsound.justified.2.2
  attempts j hj := h.attempts_le hj
  failing lease hmem now errorCode columns jobs state hrun := h.failing hmem hrun
  executions k := (h.rows k).executions_le

/-- A holder may end its job as failed at once: attempts do not tell. -/
theorem not_failed_iff_attempts :
    ¬ ∀ (J : LeasedJobs) (ops : List (JobOp ℕ Unit Unit)), ∀ j ∈ (after J ops).jobs,
      j.attempts = J.retryDelaysSeconds.length + 1 ↔ j.state = .finished .failed := by
  intro h
  have hjob := h ⟨[60, 240, 960]⟩ [.add 0 () 10, .claim 10 (fun _ => 100) 1,
    .complete ⟨0, 1, 110, 0, false⟩ 20 .failed none id]
  have hall : ∀ j ∈ (after ⟨[60, 240, 960]⟩ [.add 0 () 10, .claim 10 (fun _ => 100) 1,
      .complete ⟨0, 1, 110, 0, false⟩ 20 .failed none id] : JobWorld ℕ Unit Unit).jobs.rows,
      j.state = .finished .failed ∧ j.attempts = 0 := by decide
  have hsome : (after ⟨[60, 240, 960]⟩ [.add 0 () 10, .claim 10 (fun _ => 100) 1,
      .complete ⟨0, 1, 110, 0, false⟩ 20 .failed none id] : JobWorld ℕ Unit Unit).jobs.rows.length =
        1 := by decide
  obtain ⟨j, hj⟩ := List.exists_mem_of_length_pos (by rw [hsome]; exact Nat.one_pos)
  obtain ⟨hstate, hattempts⟩ := hall j hj
  have hmax := (hjob j hj).mpr hstate
  rw [hattempts] at hmax
  cases hmax

end JobWorld

end Earshot
