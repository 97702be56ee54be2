import Earshot.Jobs.Fenced
import Earshot.Calls.Schema
/-!
# The analysis jobs

`AnalysisStore` runs its jobs on `audio_analysis`, a row for each stored
recording. Its claim counts a lease it took over as a failed attempt, puts
that job off or ends it, and goes on to the next; so the leases it hands
out for execution took nothing over, and a job is executed no more often
than its attempts allow (`analysesFenced_after`). Blobs, their journal and
the calls' projections are outside this model: a result's reservation is
untouched or not.
-/

namespace Earshot

open Relational

/-- The terminal states an analysis names itself. -/
inductive AnalysisEnd where
  | stored
  | unavailable
  deriving DecidableEq

/-- The columns of `audio_analysis` a job's outcome writes. -/
structure AnalysisColumns where
  algorithmVersion : ℕ
  resultJson : Option String
  peaksBlobKey : Option String
  renditionBlobKey : Option String
  deriving DecidableEq

/-- `(project_id, recording_id)` -/
abbrev RecordingKey := ProjectId × String

def ANALYSIS_JOBS : LeasedJobs := ⟨[60, 240, 960]⟩

def ALGORITHM_VERSION : ℕ := 1

def ANALYSIS_LEASE_EXPIRED : String := "EARSHOT_ANALYSIS_LEASE_EXPIRED"

def ANALYSIS_SOURCE_MISSING : String := "EARSHOT_ANALYSIS_SOURCE_MISSING"

namespace AnalysisColumns

/-- `stamp`: every terminal write stamps the current algorithm. -/
def stamp (columns : AnalysisColumns) : AnalysisColumns :=
  { columns with algorithmVersion := ALGORITHM_VERSION }

/-- The columns of a stored result. -/
def result (resultJson peaksBlobKey : String) (columns : AnalysisColumns) : AnalysisColumns :=
  { columns with
    algorithmVersion := ALGORITHM_VERSION
    peaksBlobKey := some peaksBlobKey
    resultJson := some resultJson }

end AnalysisColumns

abbrev AnalysisJobs := JobWorld RecordingKey AnalysisEnd AnalysisColumns

/-- The jobs, and the leases handed out for execution, newest first. -/
structure AnalysisWorld where
  jobs : AnalysisJobs
  handed : List (JobLease RecordingKey)

inductive AnalysisOp where
  | scheduleAnalysis (k : RecordingKey) (now : UnixNano)
  /-- The recording goes, and its row with it. -/
  | remove (k : RecordingKey)
  /-- `stored`: the recordings stored with a blob; `tokens`: what the
  claims draw in turn. -/
  | claim (now : UnixNano) (leaseNano : RecordingKey → ℤ) (stored : RecordingKey → Bool)
      (tokens : List ℕ)
  /-- `reserved`: every output key is still journaled and untouched. -/
  | storeResult (lease : JobLease RecordingKey) (resultJson peaksBlobKey : String)
      (reserved : Bool) (now : UnixNano)
  | fail (lease : JobLease RecordingKey) (code : String) (terminal : Bool) (now : UnixNano)
  | releaseLeases (now : UnixNano)
  | requeue (k : RecordingKey) (now : UnixNano)

namespace AnalysisWorld

/-- A job operation, or nothing when it commits nothing. -/
def next (w : AnalysisJobs) (op : JobOp RecordingKey AnalysisEnd AnalysisColumns) :
    AnalysisJobs :=
  Transition.next (JobWorld.step ANALYSIS_JOBS) w op

/-- `AnalysisStore.claim`: a lease taken over is retried at once, and the
next due job is claimed; a job whose recording is not stored ends. -/
def claim (now : UnixNano) (leaseNano : RecordingKey → ℤ) (stored : RecordingKey → Bool) :
    List ℕ → AnalysisJobs → AnalysisJobs × Option (JobLease RecordingKey)
  | [], w => (w, none)
  | token :: tokens, w =>
      match w.claim now leaseNano token with
      | none => (w, none)
      | some (w, lease) =>
          if lease.takenOver then
            claim now leaseNano stored tokens
              (next w (.retry lease now ANALYSIS_LEASE_EXPIRED AnalysisColumns.stamp))
          else if stored lease.key then (w, some lease)
          else
            (next w (.complete lease now (.named .unavailable) (some ANALYSIS_SOURCE_MISSING)
              AnalysisColumns.stamp), none)

/-- One operation of the analysis store. -/
def step (w : AnalysisWorld) : AnalysisOp → Option AnalysisWorld
  | .scheduleAnalysis k now =>
      some { w with jobs := next w.jobs (.add k ⟨0, none, none, none⟩ now) }
  | .remove k => some { w with jobs := next w.jobs (.remove k) }
  | .claim now leaseNano stored tokens =>
      let out := claim now leaseNano stored tokens w.jobs
      some ⟨out.1, out.2.toList ++ w.handed⟩
  | .storeResult lease resultJson peaksBlobKey reserved now =>
      if lease ∈ w.handed ∧ reserved = true then
        some { w with
          jobs := next w.jobs (.complete lease now (.named .stored) none
            (AnalysisColumns.result resultJson peaksBlobKey)) }
      else none
  | .fail lease code terminal now =>
      if lease ∈ w.handed then
        some { w with
          jobs := next w.jobs (if terminal then
            .complete lease now (.named .unavailable) (some code) AnalysisColumns.stamp
          else .retry lease now code AnalysisColumns.stamp) }
      else none
  | .releaseLeases now => some { w with jobs := next w.jobs (.release now) }
  | .requeue k now => some { w with jobs := next w.jobs (.requeue k now) }

/-- The jobs after a run, from an empty table. -/
def after (ops : List AnalysisOp) : AnalysisWorld := Transition.run step ⟨⟨.empty, []⟩, []⟩ ops

open JobWorld (Inv)

variable {w w' : AnalysisWorld} {jobs jobs' : AnalysisJobs} {now : UnixNano}
variable {lease : JobLease RecordingKey}

theorem inv_next (h : Inv ANALYSIS_JOBS jobs)
    (op : JobOp RecordingKey AnalysisEnd AnalysisColumns) : Inv ANALYSIS_JOBS (next jobs op) := by
  rw [next]
  cases hop : JobWorld.step ANALYSIS_JOBS jobs op with
  | none => rwa [Transition.next_of_none hop]
  | some jobs' =>
      rw [Transition.next_of_some hop]
      exact h.of_step hop

/-- No operation takes a lease back from the history. -/
theorem leases_next_subset (jobs : AnalysisJobs)
    (op : JobOp RecordingKey AnalysisEnd AnalysisColumns) :
    leases jobs.log ⊆ leases (next jobs op).log := by
  rw [next]
  cases hop : JobWorld.step ANALYSIS_JOBS jobs op with
  | none => rw [Transition.next_of_none hop]; exact List.Subset.refl _
  | some jobs' =>
      rw [Transition.next_of_some hop]
      obtain ⟨e, he⟩ := JobWorld.exists_event_of_step hop
      rw [he]
      cases e with
      | claimed lease now => exact List.subset_cons_self _ _
      | _ => exact List.Subset.refl _

/-- **A lease handed out took nothing over**, and is in the history. -/
theorem claim_spec (now : UnixNano) (leaseNano : RecordingKey → ℤ)
    (stored : RecordingKey → Bool) (tokens : List ℕ) (h : Inv ANALYSIS_JOBS jobs) :
    Inv ANALYSIS_JOBS (claim now leaseNano stored tokens jobs).1 ∧
      leases jobs.log ⊆ leases (claim now leaseNano stored tokens jobs).1.log ∧
      ∀ lease, (claim now leaseNano stored tokens jobs).2 = some lease →
        lease.takenOver = false ∧
          lease ∈ leases (claim now leaseNano stored tokens jobs).1.log := by
  induction tokens generalizing jobs with
  | nil => exact ⟨h, List.Subset.refl _, fun lease hlease => by cases hlease⟩
  | cons token tokens ih =>
      rw [claim]
      cases hclaim : jobs.claim now leaseNano token with
      | none => exact ⟨h, List.Subset.refl _, fun lease hlease => by cases hlease⟩
      | some out =>
          obtain ⟨jobs₁, lease⟩ := out
          have h₁ := h.claim hclaim
          obtain ⟨-, table, -, hjobs₁⟩ := JobWorld.claim_eq_some hclaim
          have hsub : leases jobs.log ⊆ leases jobs₁.log := by
            rw [hjobs₁]
            exact List.subset_cons_self _ _
          have hmem : lease ∈ leases jobs₁.log := by
            rw [hjobs₁]
            exact List.mem_cons_self
          dsimp only
          split
          · obtain ⟨hinv, hrest, hhanded⟩ := ih (inv_next h₁
              (.retry lease now ANALYSIS_LEASE_EXPIRED AnalysisColumns.stamp))
            exact ⟨hinv, List.Subset.trans (List.Subset.trans hsub (leases_next_subset _ _)) hrest, hhanded⟩
          · rename_i hnot
            split
            · refine ⟨h₁, hsub, fun lease' hlease' => ?_⟩
              obtain rfl := Option.some.inj hlease'
              exact ⟨by simpa using hnot, hmem⟩
            · exact ⟨inv_next h₁ _, List.Subset.trans hsub (leases_next_subset _ _),
                fun lease' hlease' => by cases hlease'⟩

/-- The jobs keep their invariant, and what was handed out took nothing
over. -/
structure Kept (w : AnalysisWorld) : Prop where
  inv : Inv ANALYSIS_JOBS w.jobs
  handed : ∀ lease ∈ w.handed, lease.takenOver = false ∧ lease ∈ leases w.jobs.log

theorem Kept.of_next (h : Kept w) (op : JobOp RecordingKey AnalysisEnd AnalysisColumns) :
    Kept { w with jobs := next w.jobs op } where
  inv := inv_next h.inv op
  handed lease hlease := by
    obtain ⟨hnot, hmem⟩ := h.handed lease hlease
    exact ⟨hnot, leases_next_subset _ _ hmem⟩

theorem Kept.of_step {op : AnalysisOp} (h : Kept w) (hop : step w op = some w') : Kept w' := by
  cases op with
  | claim now leaseNano stored tokens =>
      obtain rfl := Option.some.inj hop
      obtain ⟨hinv, hsub, hhanded⟩ := claim_spec now leaseNano stored tokens h.inv
      refine ⟨hinv, fun lease hlease => ?_⟩
      rcases List.mem_append.mp hlease with hnew | hold
      · exact hhanded lease (Option.mem_toList.mp hnew)
      · exact ⟨(h.handed lease hold).1, hsub (h.handed lease hold).2⟩
  | storeResult lease resultJson peaksBlobKey reserved now =>
      obtain ⟨-, heq⟩ := Option.ite_none_right_eq_some.mp hop
      obtain rfl := Option.some.inj heq
      exact h.of_next _
  | fail lease code terminal now =>
      obtain ⟨-, heq⟩ := Option.ite_none_right_eq_some.mp hop
      obtain rfl := Option.some.inj heq
      exact h.of_next _
  | _ =>
      obtain rfl := Option.some.inj hop
      exact h.of_next _

theorem kept_after (ops : List AnalysisOp) : Kept (after ops) :=
  Transition.run_invariant (P := Kept) (fun _ _ _ h hop => h.of_step hop) ops _
    ⟨⟨fun _ => ⟨rfl, rfl⟩, trivial⟩, fun _ h => absurd h List.not_mem_nil⟩

end AnalysisWorld

/-- **Leased jobs are fenced and bounded**, in every state every run of
any job table reaches; and of the analyses', whose claim retries what it
takes over, each lease handed out for execution is one of those counted. -/
theorem leasedJobs_fenced {κ τ γ : Type} [DecidableEq κ] [DecidableEq τ] (J : LeasedJobs)
    (ops : List (JobOp κ τ γ)) (analysisOps : List AnalysisOp) :
    (JobWorld.after J ops).Fenced J ∧
      (AnalysisWorld.after analysisOps).jobs.Fenced ANALYSIS_JOBS ∧
      ∀ lease ∈ (AnalysisWorld.after analysisOps).handed, lease.takenOver = false ∧
        lease ∈ leases (AnalysisWorld.after analysisOps).jobs.log :=
  ⟨(JobWorld.inv_after J ops).fenced, (AnalysisWorld.kept_after analysisOps).inv.fenced,
    (AnalysisWorld.kept_after analysisOps).handed⟩

end Earshot
