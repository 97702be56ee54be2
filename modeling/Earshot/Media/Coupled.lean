import Earshot.Effects.Recordings
import Earshot.Media.Fetches
/-!
# A fetch and its recording end together

An upload and the completion of its fetch are two commits, and a client's
upload ends a recording whose fetch is still live; so the two rows are
related in one direction (`Together`): a fetch that is over has a recording
that has ended, and no URL. A lease that lost its job never holds it again
(`JobWorld.holds_of_step`), which is why a completion that follows its own
upload finds the recording stored.
-/

namespace Earshot

open Relational Catalog

namespace FetchWorld

variable {S : CallStore} {w w' : FetchWorld} {fetches : Fetches} {k k' : ProjectId × String}
variable {f? : Option FetchJob} {r? : Option RecordingRow} {lease : JobLease (ProjectId × String)}
variable {now : UnixNano} {how : JobEnd FetchEnd} {code : String} {claim : FetchClaim}

/-! ## The rows of one recording -/

/-- **A fetch that is over has a recording that has ended**, stored if the
fetch stored it, and no URL. -/
def Together (f? : Option FetchJob) (r? : Option RecordingRow) : Prop :=
  ∀ f, f? = some f → ∃ r, r? = some r ∧ ∀ how, f.state = .finished how →
    r.state ≠ .pending ∧ f.columns.url = none ∧ (how = .named .stored → r.state = .stored)

theorem together_none : Together none r? := fun f hf => by cases hf

/-- A live fetch asks nothing of its recording. -/
theorem together_live {f : FetchJob} {r : RecordingRow} (h : ∀ how, f.state ≠ .finished how) :
    Together (some f) (some r) := by
  intro f' hf'
  obtain rfl := Option.some.inj hf'
  exact ⟨r, rfl, fun how hover => absurd hover (h how)⟩

/-- A pending recording's fetch is live. -/
theorem Together.live {f : FetchJob} {r : RecordingRow} (h : Together (some f) (some r))
    (hpending : r.state = .pending) : ∀ how, f.state ≠ .finished how := by
  intro how hover
  obtain ⟨r', hr', hended⟩ := h f rfl
  obtain rfl := Option.some.inj hr'
  exact (hended how hover).1 hpending

/-- A recording that keeps its state, and its fetch, stay together. -/
theorem Together.of_state {r r' : RecordingRow} (h : Together f? (some r))
    (hstate : r'.state = r.state) : Together f? (some r') := by
  intro f hf
  obtain ⟨r₀, hr₀, hended⟩ := h f hf
  obtain rfl := Option.some.inj hr₀
  refine ⟨r', rfl, ?_⟩
  rw [hstate]
  exact hended

/-- **Whatever the catalog does to a recording**, its fetch, which goes
with it, stays together with it. -/
theorem Together.of_recordingStep {c : Catalog} {op : Op} {before after : Option RecordingRow}
    (h : Together f? before) (hstep : RecordingStep S c op k before after) :
    Together (if after.isNone then none else f?) after := by
  cases hstep with
  | kept hsame =>
      cases after with
      | none => exact together_none
      | some r' =>
          cases before with
          | none => cases hsame
          | some r =>
              have hstate : r'.toRecording = r.toRecording := Option.some.inj hsame
              exact h.of_state (congrArg Recording.state hstate)
  | created =>
      -- no fetch is older than its recording
      intro f hf
      obtain ⟨r, hr, -⟩ := h f hf
      cases hr
  | stored upload now hpending | failed uploading fetching now hpending =>
      intro f hf
      obtain rfl : f? = some f := hf
      exact together_live (h.live hpending) f rfl
  | deleted => exact together_none

/-! ## What goes with a recording -/

/-- The fetches after some of them are removed. -/
theorem find?_foldl_remove (keys : List (ProjectId × String)) (fetches : Fetches) :
    (keys.foldl (fun fetches k => next fetches (.remove k)) fetches).jobs.find? k' =
      if k' ∈ keys then none else fetches.jobs.find? k' := by
  induction keys generalizing fetches with
  | nil => rw [List.foldl_nil, if_neg List.not_mem_nil]
  | cons k keys ih =>
      have hnext : (next fetches (.remove k)).jobs.find? k' =
          if k' = k then none else fetches.jobs.find? k' := by
        unfold next Transition.next JobWorld.step
        dsimp only
        split
        · exact JobTable.find?_remove
        · rename_i hnone
          split
          · rename_i hk
            rw [hk]
            simpa using hnone
          · rfl
      rw [List.foldl_cons, ih, hnext]
      by_cases hk : k' = k
      · simp [hk]
      · simp [hk]

/-- **A fetch goes with its recording**, and no other does. -/
theorem find?_cascade (c : Catalog) (fetches : Fetches) :
    (cascade c fetches).jobs.find? k =
      if (c.recordings.find? k).isNone then none else fetches.jobs.find? k := by
  unfold cascade
  rw [find?_foldl_remove]
  cases hf : fetches.jobs.find? k with
  | none => simp
  | some f =>
      have hmem : k ∈ fetches.jobs.rows.map (·.key) :=
        List.mem_map.mpr ⟨f, Table.mem_of_find? hf, Table.key_of_find? hf⟩
      simp [List.mem_filter, hmem]

theorem leases_next {op : JobOp (ProjectId × String) FetchEnd FetchColumns}
    (h : lease ∈ leases fetches.log) : lease ∈ leases (next fetches op).log := by
  unfold next
  cases hop : JobWorld.step FETCH_JOBS fetches op with
  | none => rwa [Transition.next_of_none hop]
  | some fetches' =>
      rw [Transition.next_of_some hop]
      exact JobWorld.leases_of_step hop h

theorem leases_cascade (c : Catalog) (h : lease ∈ leases fetches.log) :
    lease ∈ leases (cascade c fetches).log := by
  unfold cascade
  generalize (fetches.jobs.rows.map (·.key)).filter _ = keys
  induction keys generalizing fetches with
  | nil => exact h
  | cons k keys ih => exact ih (leases_next h)

theorem find?_failFetched {c : Catalog} : (c.failFetched k).recordings.find? k' =
    (c.recordings.find? k').map fun r =>
      if r.key = k ∧ r.state = .pending then { r with state := .failed } else r := by
  rw [failFetched, Table.find?_patch]

/-! ## The invariant -/

/-- **The fetches and the recordings are coupled.** -/
structure Coupled (w : FetchWorld) : Prop where
  rows : ∀ k, Together (w.fetches.jobs.find? k) (w.recordings.find? k)
  /-- A claim's lease was given to it. -/
  held : ∀ claim ∈ w.claims, claim.lease ∈ leases w.fetches.log
  /-- A claim whose upload stored the recording finds it stored for as long
  as it holds its fetch. -/
  uploaded : ∀ claim ∈ w.uploaded, claim ∈ w.claims ∧
    (w.fetches.jobs.holds claim.lease = true →
      ∃ r, w.recordings.find? claim.lease.key = some r ∧ r.state = .stored)

/-- What every transaction leaves true: leases stay given and stay lost,
and a stored recording with a fetch stays stored. -/
structure Advances (w w' : FetchWorld) : Prop where
  leases : ∀ lease ∈ leases w.fetches.log, lease ∈ leases w'.fetches.log
  holds : ∀ lease ∈ Earshot.leases w.fetches.log, w'.fetches.jobs.holds lease = true →
    w.fetches.jobs.holds lease = true
  stored : ∀ k r, w.recordings.find? k = some r → r.state = .stored →
    (w'.fetches.jobs.find? k).isSome = true →
      ∃ r', w'.recordings.find? k = some r' ∧ r'.state = .stored

theorem Coupled.advance (h : Coupled w) (hadv : Advances w w') (hclaims : w'.claims = w.claims)
    (huploaded : w'.uploaded = w.uploaded)
    (hrows : ∀ k, Together (w'.fetches.jobs.find? k) (w'.recordings.find? k)) : Coupled w' where
  rows := hrows
  held claim hclaim := by
    rw [hclaims] at hclaim
    exact hadv.leases _ (h.held claim hclaim)
  uploaded claim hclaim := by
    rw [huploaded] at hclaim
    obtain ⟨hmem, hstored⟩ := h.uploaded claim hclaim
    refine ⟨by rwa [hclaims], fun hholds => ?_⟩
    obtain ⟨r, hr, hstate⟩ := hstored (hadv.holds _ (h.held claim hmem) hholds)
    obtain ⟨j, hj, -⟩ := JobTable.holds_iff.mp hholds
    exact hadv.stored _ r hr hstate (by rw [hj]; rfl)

/-- A transaction that writes the fetches alone. -/
theorem Advances.of_step {op : JobOp (ProjectId × String) FetchEnd FetchColumns}
    (hop : JobWorld.step FETCH_JOBS w.fetches op = some fetches)
    (hstored : ∀ k r, w.recordings.find? k = some r → r.state = .stored →
      ∃ r', w'.recordings.find? k = some r' ∧ r'.state = .stored)
    (hfetches : w'.fetches = fetches) : Advances w w' where
  leases lease hmem := by
    rw [hfetches]
    exact JobWorld.leases_of_step hop hmem
  holds lease hmem hholds := by
    rw [hfetches] at hholds
    exact JobWorld.holds_of_step hop hmem hholds
  stored k r hr hstate _ := hstored k r hr hstate

/-! ## The fetches' own transactions -/

/-- One operation of the fetches, with the recordings left as they are. -/
theorem Coupled.jobStep (h : Coupled w) {op : JobOp (ProjectId × String) FetchEnd FetchColumns}
    (hop : JobWorld.step FETCH_JOBS w.fetches op = some fetches)
    (hrows : ∀ k, Together (fetches.jobs.find? k) (w.recordings.find? k)) :
    Coupled { w with fetches := fetches } := by
  refine h.advance (.of_step hop (fun k r hr hstate => ?_) rfl) rfl rfl hrows
  exact ⟨r, hr, hstate⟩

/-- An operation of the fetches that leaves no fetch over that was not. -/
theorem Coupled.next (h : Coupled w) {op : JobOp (ProjectId × String) FetchEnd FetchColumns}
    (hrows : ∀ fetches, JobWorld.step FETCH_JOBS w.fetches op = some fetches →
      ∀ k, Together (fetches.jobs.find? k) (w.recordings.find? k)) :
    Coupled { w with fetches := next w.fetches op } := by
  unfold FetchWorld.next
  cases hop : JobWorld.step FETCH_JOBS w.fetches op with
  | none =>
      rw [Transition.next_of_none hop]
      exact h
  | some fetches =>
      rw [Transition.next_of_some hop]
      exact h.jobStep hop (hrows fetches hop)

theorem complete_eq_some {errorCode : Option String}
    (hop : JobWorld.step FETCH_JOBS w.fetches
      (.complete lease now how errorCode FetchColumns.eraseUrl) = some fetches) :
    w.fetches.jobs.holds lease = true ∧ fetches.jobs = w.fetches.jobs.write lease.key
      (Job.complete how errorCode FetchColumns.eraseUrl now) (Job.complete_key _ _ _ _) := by
  obtain ⟨-, heq⟩ := Option.ite_none_right_eq_some.mp hop
  obtain ⟨jobs, hrun, rfl⟩ := Option.map_eq_some_iff.mp heq
  exact JobTable.complete_eq_some hrun

/-- **A fetch that ends without its recording fails it.** What `hrow` asks
of the fetch's new row holds of a completion and of the last retry. -/
theorem Coupled.failRecording (h : Coupled w)
    {op : JobOp (ProjectId × String) FetchEnd FetchColumns}
    (hop : JobWorld.step FETCH_JOBS w.fetches op = some fetches)
    (hother : ∀ k', k' ≠ k → fetches.jobs.find? k' = w.fetches.jobs.find? k')
    (hrow : ∀ f, fetches.jobs.find? k = some f → (w.fetches.jobs.find? k).isSome = true ∧
      f.columns.url = none ∧ f.state ≠ .finished (.named .stored)) :
    Coupled { w with
      fetches := fetches
      world := { w.world with catalog := w.world.catalog.failFetched k } } := by
  refine h.advance (.of_step hop (fun k' r hr hstate => ?_) rfl) rfl rfl fun k' => ?_
  · refine ⟨r, ?_, hstate⟩
    show (w.world.catalog.failFetched k).recordings.find? k' = some r
    rw [find?_failFetched, show w.world.catalog.recordings.find? k' = some r from hr,
      Option.map_some, if_neg]
    rintro ⟨-, hpending⟩
    rw [hstate] at hpending
    cases hpending
  · show Together (fetches.jobs.find? k') ((w.world.catalog.failFetched k).recordings.find? k')
    have hbefore := h.rows k'
    rw [find?_failFetched]
    by_cases hk : k' = k
    · subst hk
      intro f hf
      obtain ⟨hsome, hurl, hended⟩ := hrow f hf
      obtain ⟨f₀, hf₀⟩ := Option.isSome_iff_exists.mp hsome
      obtain ⟨r, hr, -⟩ := hbefore f₀ hf₀
      have hkey : r.key = k' := Table.key_of_find? hr
      rw [show w.world.catalog.recordings.find? k' = some r from hr, Option.map_some]
      refine ⟨_, rfl, fun how hover => ⟨?_, hurl, fun hstored => ?_⟩⟩
      · split
        · simp
        · rename_i hnot
          exact fun hpending => hnot ⟨hkey, hpending⟩
      · rw [hstored] at hover
        exact absurd hover hended
    · rw [hother k' hk]
      show Together _ ((w.recordings.find? k').map _)
      cases hr : w.recordings.find? k' with
      | none =>
          rw [hr] at hbefore
          exact hbefore
      | some r =>
          rw [hr] at hbefore
          have hne : r.key ≠ k := fun hkey => hk ((Table.key_of_find? hr).symm.trans hkey)
          rw [Option.map_some, if_neg fun hboth => hne hboth.1]
          exact hbefore

theorem Coupled.endFetch (h : Coupled w) (hhow : how ≠ .named .stored) :
    Coupled (w.endFetch lease now how code) := by
  unfold FetchWorld.endFetch
  cases hop : JobWorld.step FETCH_JOBS w.fetches
      (.complete lease now how (some code) FetchColumns.eraseUrl) with
  | none => exact h
  | some fetches =>
      obtain ⟨-, hjobs⟩ := complete_eq_some hop
      refine h.failRecording hop (fun k' hk => ?_) fun f hf => ?_
      · rw [hjobs, JobTable.find?_write, if_neg hk]
      · rw [hjobs, JobTable.find?_write, if_pos rfl] at hf
        obtain ⟨f₀, hf₀, rfl⟩ := Option.map_eq_some_iff.mp hf
        refine ⟨by rw [hf₀]; rfl, rfl, fun hover => hhow ?_⟩
        exact JobState.finished.inj hover

/-- A fetch ends as stored only once its recording is. -/
theorem Coupled.endStored (h : Coupled w)
    (hstored : w.fetches.jobs.holds lease = true →
      ∃ r, w.recordings.find? lease.key = some r ∧ r.state = .stored) :
    Coupled (w.endStored lease now) := by
  unfold FetchWorld.endStored
  refine h.next fun fetches hop k => ?_
  obtain ⟨hholds, hjobs⟩ := complete_eq_some hop
  rw [hjobs, JobTable.find?_write]
  split
  · rename_i hk
    obtain ⟨r, hr, hstate⟩ := hstored hholds
    intro f hf
    obtain ⟨f₀, -, rfl⟩ := Option.map_eq_some_iff.mp hf
    rw [hk]
    refine ⟨r, hr, fun how _ => ⟨?_, rfl, fun _ => hstate⟩⟩
    rw [hstate]
    simp
  · exact h.rows k

theorem Coupled.settleAs (h : Coupled w) {state? : Option RecordingState}
    (hstate? : (w.recordings.find? lease.key).map (·.state) = state?) :
    Coupled (w.settleAs lease now state?) := by
  subst hstate?
  cases hr : w.recordings.find? lease.key with
  | none => exact h
  | some r =>
      rw [Option.map_some]
      cases hstate : r.state with
      | pending => exact h
      | stored => exact h.endStored fun _ => ⟨r, hr, hstate⟩
      | failed => exact h.endFetch (by simp)

/-- **A claim**: the fetch runs, or is ended at once. -/
theorem Coupled.claimFetch (h : Coupled w) {leaseNano : ℤ} {token : ℕ}
    (hrun : w.claimFetch leaseNano token now = some w') : Coupled w' := by
  unfold FetchWorld.claimFetch at hrun
  cases hclaim : w.fetches.claim now (fun _ => leaseNano) token with
  | none =>
      rw [hclaim] at hrun
      cases hrun
  | some out =>
      obtain ⟨fetches, lease⟩ := out
      rw [hclaim] at hrun
      dsimp only at hrun
      have hop : JobWorld.step FETCH_JOBS w.fetches (.claim now (fun _ => leaseNano) token) =
          some fetches := by
        show (w.fetches.claim now (fun _ => leaseNano) token).map (·.1) = some fetches
        rw [hclaim, Option.map_some]
      obtain ⟨-, jobs, htaken, rfl⟩ := JobWorld.claim_eq_some hclaim
      obtain ⟨j, hj, -, -, rfl⟩ := JobTable.claim_eq_some htaken
      have hclaimed := h.jobStep hop fun k => by
        rw [JobTable.find?_write]
        split
        · rename_i hk
          rw [hk, hj, Option.map_some]
          obtain ⟨r, hr, -⟩ := h.rows lease.key j hj
          rw [hr]
          exact together_live fun how hover => by cases hover
        · exact h.rows k
      split at hrun
      · rename_i f r hf hr
        split at hrun
        · obtain rfl := Option.some.inj hrun
          refine hclaimed.settleAs ?_
          show (w.recordings.find? lease.key).map (·.state) = some r.state
          rw [hr, Option.map_some]
        · split at hrun
          · obtain rfl := Option.some.inj hrun
            exact hclaimed.endFetch (by simp)
          · obtain rfl := Option.some.inj hrun
            refine ⟨hclaimed.rows, fun claim hmem => ?_, fun claim hmem => ?_⟩
            · rcases List.mem_cons.mp hmem with rfl | hmem
              · exact List.mem_cons_self
              · exact hclaimed.held claim hmem
            · obtain ⟨hmem', hstored⟩ := hclaimed.uploaded claim hmem
              exact ⟨List.mem_cons_of_mem _ hmem', hstored⟩
      · cases hrun

/-- **A failed attempt**: past the last delay the retry is an end. -/
theorem Coupled.retryFetch (h : Coupled w) : Coupled (w.retryFetch claim code now) := by
  unfold FetchWorld.retryFetch
  split
  · exact h.endFetch (by simp)
  · cases hop : JobWorld.step FETCH_JOBS w.fetches
        (.retry claim.lease now code FetchColumns.eraseUrl) with
    | none => exact h
    | some fetches =>
        dsimp only
        obtain ⟨-, heq⟩ := Option.ite_none_right_eq_some.mp hop
        obtain ⟨⟨jobs, state⟩, hrun, rfl⟩ := Option.map_eq_some_iff.mp heq
        obtain ⟨-, hstate, rfl⟩ := JobTable.retry_eq_some hrun
        have hcases := JobTable.afterFailure_cases (τ := FetchEnd) FETCH_JOBS
          claim.lease.attempts now
        split
        · rename_i hlast
          refine h.failRecording hop (fun k' hk => ?_) fun f hf => ?_
          · rw [JobTable.find?_write, if_neg hk]
          · rw [JobTable.find?_write, if_pos rfl] at hf
            obtain ⟨f₀, hf₀, rfl⟩ := Option.map_eq_some_iff.mp hf
            have hfailed : state = .finished .failed := by
              rcases hcases with ⟨-, hafter⟩ | ⟨-, next, hafter⟩
              · rw [hstate, hafter]
              · rw [retryAt, hafter] at hlast
                cases hlast
            subst hfailed
            refine ⟨by rw [hf₀]; rfl, ?_, fun hover => ?_⟩
            · simp [Job.retry, FetchColumns.eraseUrl]
            · simp [Job.retry] at hover
        · rename_i hlater
          refine h.jobStep hop fun k => ?_
          rw [JobTable.find?_write]
          split
          · rename_i hk
            intro f hf
            obtain ⟨f₀, hf₀, rfl⟩ := Option.map_eq_some_iff.mp hf
            obtain ⟨r, hr, -⟩ := h.rows claim.lease.key f₀ hf₀
            refine ⟨r, by rw [hk]; exact hr, fun how hover => ?_⟩
            rcases hcases with ⟨-, hafter⟩ | ⟨-, next, hafter⟩
            · exact absurd (by rw [retryAt, hafter]) hlater
            · rw [hafter] at hstate
              rw [hstate] at hover
              cases hover
          · exact h.rows k

/-! ## The catalog's transactions -/

theorem Coupled.commit (h : Coupled w) {op : Op} {world : World}
    (hop : Earshot.step S w.world op = some world) : Coupled (w.commit world) := by
  have hstep : ∀ k, RecordingStep S w.world.catalog op k (w.recordings.find? k)
      (world.catalog.recordings.find? k) :=
    recordingStep_of_catalogStep (catalogStep_of_step hop)
  have hfetch : ∀ k, (w.commit world).fetches.jobs.find? k =
      if (world.catalog.recordings.find? k).isNone then none else w.fetches.jobs.find? k :=
    fun k => find?_cascade _ _
  refine h.advance ⟨fun lease hmem => leases_cascade _ hmem, fun lease _ hholds => ?_,
    fun k r hr hstate hsome => ?_⟩ rfl rfl fun k => ?_
  · obtain ⟨j, hj, hrunning, htoken⟩ := JobTable.holds_iff.mp hholds
    rw [hfetch] at hj
    split at hj
    · cases hj
    · exact JobTable.holds_iff.mpr ⟨j, hj, hrunning, htoken⟩
  · rw [hfetch] at hsome
    have hone := hstep k
    rw [hr] at hone
    show ∃ r', world.catalog.recordings.find? k = some r' ∧ r'.state = .stored
    generalize world.catalog.recordings.find? k = after at hone hsome
    cases hone with
    | kept hsame =>
        obtain ⟨r', rfl, hr'⟩ := Option.map_eq_some_iff.mp hsame
        exact ⟨r', rfl, (congrArg Recording.state hr').trans hstate⟩
    | stored upload now hpending | failed uploading fetching now hpending =>
        rw [hpending] at hstate
        cases hstate
    | deleted => cases hsome
  · rw [hfetch]
    exact (h.rows k).of_recordingStep (hstep k)

/-- A finished upload leaves its recording stored. -/
theorem stored_of_upload {upload : Upload} {world : World} {p : ProjectId} {recordingId : String}
    {r : RecordingRow}
    (hop : Earshot.step S w.world (.finishUpload p recordingId upload now) = some world)
    (hr : world.catalog.recordings.find? (p, recordingId) = some r) :
    r.state = .stored := by
  cases catalogStep_of_step hop with
  | finishUpload hupload =>
      obtain ⟨row, hrow, -, hfind⟩ := find?_finishUpload hupload
      rw [hfind, hrow] at hr
      obtain rfl := Option.some.inj hr
      rw [storeRecording, if_pos (Table.key_of_find? hrow)]

/-- **A held recording** comes with its fetch. -/
theorem Coupled.holdRecording (h : Coupled w) {p : ProjectId} {callId endpointId : String}
    {recording : ProviderRecording}
    (hrun : step S w (.holdRecording p callId endpointId recording now) = some w') :
    Coupled w' := by
  obtain ⟨hnone, hrun⟩ := Option.ite_none_left_eq_some.mp hrun
  obtain ⟨-, hrun⟩ := Option.ite_none_left_eq_some.mp hrun
  obtain ⟨-, hrun⟩ := Option.ite_none_left_eq_some.mp hrun
  obtain rfl := Option.some.inj hrun
  have hnew : w.recordings.find? (p, recording.recordingId) = none := by simpa using hnone
  have hfetch : w.fetches.jobs.find? (p, recording.recordingId) = none := by
    cases hf : w.fetches.jobs.find? (p, recording.recordingId) with
    | none => rfl
    | some f =>
        obtain ⟨r, hr, -⟩ := h.rows _ f hf
        rw [hnew] at hr
        cases hr
  have hinsert : ∀ k, (w.recordings.insert (heldRecording p callId recording now)).find? k =
      if (p, recording.recordingId) = k then some (heldRecording p callId recording now)
      else w.recordings.find? k := by
    intro k
    rw [Table.find?_insert]
    show (w.recordings.find? k).or (if (p, recording.recordingId) = k then _ else none) = _
    split
    · rename_i hk
      rw [← hk, hnew, Option.none_or]
    · rw [Option.or_none]
  have hop : ∀ columns, JobWorld.step FETCH_JOBS w.fetches
      (.add (p, recording.recordingId) columns now) =
        some ⟨w.fetches.jobs.add (p, recording.recordingId) columns now,
          .added (p, recording.recordingId) :: w.fetches.log⟩ := fun columns => by
    show (if (w.fetches.jobs.find? (p, recording.recordingId)).isNone = true then _ else _) = _
    rw [hfetch]
    rfl
  refine h.advance (.of_step (hop _) (fun k r hr hstate => ⟨r, ?_, hstate⟩)
    (Transition.next_of_some (hop _))) rfl rfl fun k => ?_
  · show (w.recordings.insert _).find? k = some r
    rw [hinsert, if_neg, hr]
    rintro rfl
    rw [hnew] at hr
    cases hr
  · show Together ((FetchWorld.next w.fetches _).jobs.find? k) ((w.recordings.insert _).find? k)
    rw [FetchWorld.next, Transition.next_of_some (hop _), hinsert, JobTable.find?_add]
    by_cases hk : k = (p, recording.recordingId)
    · rw [if_pos hk, if_pos hk.symm, hfetch, Option.none_or]
      exact together_live fun how hover => by cases hover
    · rw [if_neg hk, if_neg (Ne.symm hk)]
      exact h.rows k

theorem refresh_state (f : FetchJob) (url : String) (expires : Option UnixNano) (now : UnixNano) :
    (refresh f url expires now).state = f.state ∧
      (refresh f url expires now).leaseToken = f.leaseToken := by
  unfold refresh
  split <;> exact ⟨rfl, rfl⟩

/-- A fetch that is over keeps the URL erased. -/
theorem refresh_over {f : FetchJob} (hover : f.state = .finished how) (url : String)
    (expires : Option UnixNano) (now : UnixNano) : refresh f url expires now = f := by
  rw [refresh, if_neg]
  rintro ⟨-, hlive, -⟩
  rw [hover] at hlive
  simp at hlive

theorem Coupled.refreshUrl (h : Coupled w) {url : String} {expires : Option UnixNano}
    (hrun : step S w (.refreshUrl k url expires now) = some w') : Coupled w' := by
  obtain rfl := Option.some.inj hrun
  refine h.advance ⟨fun lease hmem => hmem, fun lease _ hholds => ?_,
    fun k r hr hstate _ => ⟨r, hr, hstate⟩⟩ rfl rfl fun k' => ?_
  · obtain ⟨j, hj, hrunning, htoken⟩ := JobTable.holds_iff.mp hholds
    rw [JobTable.find?_write] at hj
    split at hj
    · rename_i hk
      obtain ⟨j₀, hj₀, rfl⟩ := Option.map_eq_some_iff.mp hj
      obtain ⟨hstate, htoken₀⟩ := refresh_state j₀ url expires now
      exact JobTable.holds_iff.mpr ⟨j₀, by rw [hk]; exact hj₀, hstate.symm.trans hrunning,
        htoken₀.symm.trans htoken⟩
    · exact JobTable.holds_iff.mpr ⟨j, hj, hrunning, htoken⟩
  · show Together ((w.fetches.jobs.write k (refresh · url expires now)
      (refresh_key · url expires now)).find? k') (w.recordings.find? k')
    rw [JobTable.find?_write]
    split
    · rename_i hk
      subst hk
      intro f hf
      obtain ⟨f₀, hf₀, rfl⟩ := Option.map_eq_some_iff.mp hf
      obtain ⟨r, hr, hended⟩ := h.rows k' f₀ hf₀
      refine ⟨r, hr, fun how hover => ?_⟩
      rw [(refresh_state f₀ url expires now).1] at hover
      rw [refresh_over hover]
      exact hended how hover
    · exact h.rows k'

/-- **Every transaction keeps the fetches and the recordings coupled.** -/
theorem Coupled.of_step (h : Coupled w) {op : FetchOp} (hrun : step S w op = some w') :
    Coupled w' := by
  cases op with
  | catalog op =>
      obtain ⟨-, world, hop, rfl⟩ := step_catalog_eq_some hrun
      exact h.commit hop
  | sweep uploading now =>
      have hswept : (Earshot.step S w.world (.failStaleUploads uploading w.fetching now)).map
        w.commit = some w' := hrun
      obtain ⟨world, hop, rfl⟩ := Option.map_eq_some_iff.mp hswept
      exact h.commit hop
  | holdRecording => exact h.holdRecording hrun
  | refreshUrl => exact h.refreshUrl hrun
  | dropFetch k =>
      obtain rfl := Option.some.inj hrun
      refine h.next fun fetches hop k' => ?_
      obtain ⟨-, heq⟩ := Option.ite_none_right_eq_some.mp hop
      obtain rfl := Option.some.inj heq
      rw [JobTable.find?_remove]
      split
      · exact together_none
      · exact h.rows k'
  | claim => exact h.claimFetch hrun
  | upload claim upload now =>
      obtain ⟨hmem, hrun⟩ := Option.ite_none_right_eq_some.mp hrun
      obtain ⟨world, hop, rfl⟩ := Option.map_eq_some_iff.mp hrun
      have hcommit := h.commit hop
      refine ⟨hcommit.rows, hcommit.held, fun claim' hclaim' => ?_⟩
      rcases List.mem_cons.mp hclaim' with rfl | hclaim'
      · refine ⟨hmem, fun hholds => ?_⟩
        obtain ⟨j, hj, -⟩ := JobTable.holds_iff.mp hholds
        obtain ⟨r, hr, -⟩ := hcommit.rows _ j hj
        exact ⟨r, hr, stored_of_upload hop hr⟩
      · exact hcommit.uploaded claim' hclaim'
  | completeStored claim now =>
      obtain ⟨hmem, hrun⟩ := Option.ite_none_right_eq_some.mp hrun
      obtain rfl := Option.some.inj hrun
      exact h.endStored (h.uploaded claim hmem).2
  | settle claim now =>
      obtain ⟨-, hrun⟩ := Option.ite_none_right_eq_some.mp hrun
      obtain rfl := Option.some.inj hrun
      exact h.settleAs rfl
  | fail claim code how now =>
      obtain ⟨-, hrun⟩ := Option.ite_none_right_eq_some.mp hrun
      cases how with
      | retry =>
          obtain rfl := Option.some.inj hrun
          exact h.retryFetch
      | failed | expired =>
          obtain rfl := Option.some.inj hrun
          exact h.endFetch (by simp)
  | releaseLeases now =>
      obtain rfl := Option.some.inj hrun
      refine h.next fun fetches hop k => ?_
      obtain rfl := Option.some.inj hop
      rw [JobTable.find?_release]
      intro f hf
      obtain ⟨f₀, hf₀, rfl⟩ := Option.map_eq_some_iff.mp hf
      obtain ⟨r, hr, hended⟩ := h.rows k f₀ hf₀
      refine ⟨r, hr, fun how hover => ?_⟩
      rw [Job.release] at hover ⊢
      split at hover
      · cases hover
      · rename_i hnot
        rw [if_neg hnot]
        exact hended how hover

/-! ## What ends a recording -/

/-- The recording's fetch is over, and did not end as stored. -/
def FetchFailed (w : FetchWorld) (k : ProjectId × String) : Prop :=
  ∃ f how, w.fetches.jobs.find? k = some f ∧ f.state = .finished how ∧ how ≠ .named .stored

/-- A transaction of the fetches ends a pending recording only together with
its fetch. -/
def EndsTogether (recordings : Table RecordingRow.key) (w : FetchWorld) : Prop :=
  ∀ k r r', recordings.find? k = some r → w.recordings.find? k = some r' →
    r'.state = r.state ∨ (r.state = .pending ∧ r'.state = .failed ∧ w.FetchFailed k)

theorem endsTogether_of_recordings (h : w'.recordings = w.recordings) :
    EndsTogether w.recordings w' := by
  intro k r r' hr hr'
  rw [h, hr] at hr'
  obtain rfl := Option.some.inj hr'
  exact Or.inl rfl

theorem endsTogether_failFetched {w' : FetchWorld}
    (hrecordings : w'.recordings = (w.world.catalog.failFetched k).recordings)
    (hfetch : w'.FetchFailed k) : EndsTogether w.recordings w' := by
  intro k' r r' hr hr'
  have hkey : r.key = k' := Table.key_of_find? hr
  rw [hrecordings, find?_failFetched, show w.world.catalog.recordings.find? k' = some r from hr,
    Option.map_some] at hr'
  obtain rfl := Option.some.inj hr'
  by_cases hfailed : r.key = k ∧ r.state = .pending
  · obtain rfl : k' = k := hkey.symm.trans hfailed.1
    exact Or.inr ⟨hfailed.2, by rw [if_pos hfailed], hfetch⟩
  · exact Or.inl (by rw [if_neg hfailed])

theorem endsTogether_endFetch (hhow : how ≠ .named .stored) :
    EndsTogether w.recordings (w.endFetch lease now how code) := by
  unfold FetchWorld.endFetch
  cases hop : JobWorld.step FETCH_JOBS w.fetches
      (.complete lease now how (some code) FetchColumns.eraseUrl) with
  | none => exact endsTogether_of_recordings rfl
  | some fetches =>
      obtain ⟨hholds, hjobs⟩ := complete_eq_some hop
      obtain ⟨j, hj, -⟩ := JobTable.holds_iff.mp hholds
      refine endsTogether_failFetched rfl
        ⟨j.complete how (some code) FetchColumns.eraseUrl now, how, ?_, rfl, hhow⟩
      show fetches.jobs.find? lease.key = _
      rw [hjobs, JobTable.find?_write, if_pos rfl, hj, Option.map_some]

theorem endsTogether_settleAs {state? : Option RecordingState} :
    EndsTogether w.recordings (w.settleAs lease now state?) := by
  unfold FetchWorld.settleAs
  split
  · exact endsTogether_of_recordings rfl
  · exact endsTogether_endFetch (by simp)
  · exact endsTogether_of_recordings rfl

theorem endsTogether_claimFetch {leaseNano : ℤ} {token : ℕ}
    (hrun : w.claimFetch leaseNano token now = some w') : EndsTogether w.recordings w' := by
  unfold FetchWorld.claimFetch at hrun
  split at hrun
  · cases hrun
  · rename_i fetches lease hclaim
    -- the claim itself leaves the recordings
    have hsame : w.recordings = FetchWorld.recordings { w with fetches := fetches } := rfl
    rw [hsame]
    split at hrun
    · dsimp only at hrun
      split at hrun
      · obtain rfl := Option.some.inj hrun
        exact endsTogether_settleAs
      · split at hrun
        · obtain rfl := Option.some.inj hrun
          exact endsTogether_endFetch (by simp)
        · obtain rfl := Option.some.inj hrun
          exact endsTogether_of_recordings rfl
    · cases hrun

theorem endsTogether_retryFetch : EndsTogether w.recordings (w.retryFetch claim code now) := by
  unfold FetchWorld.retryFetch
  split
  · exact endsTogether_endFetch (by simp)
  · cases hop : JobWorld.step FETCH_JOBS w.fetches
        (.retry claim.lease now code FetchColumns.eraseUrl) with
    | none => exact endsTogether_of_recordings rfl
    | some fetches =>
        dsimp only
        split
        · rename_i hlast
          obtain ⟨-, heq⟩ := Option.ite_none_right_eq_some.mp hop
          obtain ⟨⟨jobs, state⟩, hrun, rfl⟩ := Option.map_eq_some_iff.mp heq
          obtain ⟨hholds, hstate, rfl⟩ := JobTable.retry_eq_some hrun
          obtain ⟨j, hj, -⟩ := JobTable.holds_iff.mp hholds
          have hfailed : state = .finished .failed := by
            rcases JobTable.afterFailure_cases (τ := FetchEnd) FETCH_JOBS
              claim.lease.attempts now with ⟨-, hafter⟩ | ⟨-, next, hafter⟩
            · rw [hstate, hafter]
            · rw [retryAt, hafter] at hlast
              cases hlast
          subst hfailed
          refine endsTogether_failFetched rfl
            ⟨j.retry (.finished .failed) (claim.lease.attempts + 1) code (retryAt claim now)
              FetchColumns.eraseUrl now, .failed, ?_, rfl, by simp⟩
          have hfind : (w.fetches.jobs.write claim.lease.key
              (Job.retry (.finished .failed) (claim.lease.attempts + 1) code (retryAt claim now)
                FetchColumns.eraseUrl now) (Job.retry_key _ _ _ _ _ _)).find? claim.lease.key =
                  some (j.retry (.finished .failed) (claim.lease.attempts + 1) code
                    (retryAt claim now) FetchColumns.eraseUrl now) := by
            rw [JobTable.find?_write, if_pos rfl, hj, Option.map_some]
          exact hfind
        · exact endsTogether_of_recordings rfl

/-- The operation finishes an upload of the recording, a client's or its
fetch's own. -/
def UploadOf (k : ProjectId × String) : FetchOp → Prop
  | .catalog (.finishUpload p recordingId _ _) => (p, recordingId) = k
  | .upload claim _ _ => claim.lease.key = k
  | _ => False

/-- **A recording with a fetch is ended once**: by an upload, which stores
it, or with its fetch, which fails it. -/
def EndedOnce (w w' : FetchWorld) (op : FetchOp) : Prop :=
  ∀ k r r', w.recordings.find? k = some r → w'.recordings.find? k = some r' →
    (w.fetches.jobs.find? k).isSome = true →
      r'.state = r.state ∨
        (r.state = .pending ∧ r'.state = .stored ∧ UploadOf k op) ∨
        (r.state = .pending ∧ r'.state = .failed ∧ w'.FetchFailed k)

variable {op : FetchOp}

theorem EndsTogether.endedOnce (h : EndsTogether w.recordings w') : EndedOnce w w' op := by
  intro k r r' hr hr' _
  rcases h k r r' hr hr' with hsame | hended
  · exact Or.inl hsame
  · exact Or.inr (Or.inr hended)

/-- The catalog ends a recording with a fetch only by an upload: the sweep
leaves what a live fetch owns. -/
theorem Coupled.endedOnce_commit (h : Coupled w) {catalogOp : Op} {world : World}
    (hop : Earshot.step S w.world catalogOp = some world)
    (hrecordings : w'.recordings = world.catalog.recordings)
    (hupload : ∀ p recordingId upload now, catalogOp = .finishUpload p recordingId upload now →
      UploadOf (p, recordingId) op)
    (hsweep : ∀ uploading fetching now, catalogOp = .failStaleUploads uploading fetching now →
      fetching = w.fetching) : EndedOnce w w' op := by
  intro k r r' hr hr' hfetch
  have hstep := recordingStep_of_catalogStep (catalogStep_of_step hop) k
  rw [hrecordings] at hr'
  rw [show w.world.catalog.recordings.find? k = some r from hr, hr'] at hstep
  cases hstep with
  | kept hsame =>
      exact Or.inl (congrArg Recording.state (Option.some.inj hsame))
  | stored upload now hpending hop =>
      refine Or.inr (Or.inl ⟨hpending, ?_, hupload _ _ _ _ hop⟩)
      rw [storeRecording, if_pos (Table.key_of_find? hr)]
  | failed uploading fetching now hpending hop hfetching =>
      obtain ⟨f, hf⟩ := Option.isSome_iff_exists.mp hfetch
      have hrow := h.rows k
      rw [hf, hr] at hrow
      have hlive := hrow.live hpending
      refine absurd ?_ hfetching
      rw [hsweep _ _ _ hop, FetchWorld.fetching, List.mem_map]
      refine ⟨f, List.mem_filter.mpr ⟨Table.mem_of_find? hf, ?_⟩, Table.key_of_find? hf⟩
      cases hstate : f.state with
      | pending | running => simp
      | finished how => exact absurd hstate (hlive how)

theorem Coupled.endedOnce (h : Coupled w) (hrun : step S w op = some w') : EndedOnce w w' op := by
  cases op with
  | catalog op =>
      obtain ⟨hsweep, world, hop, rfl⟩ := step_catalog_eq_some hrun
      refine h.endedOnce_commit hop rfl ?_ fun uploading fetching now heq =>
        absurd heq (hsweep uploading fetching now)
      rintro p recordingId upload now rfl
      exact rfl
  | sweep uploading now =>
      have hswept : (Earshot.step S w.world (.failStaleUploads uploading w.fetching now)).map
        w.commit = some w' := hrun
      obtain ⟨world, hop, rfl⟩ := Option.map_eq_some_iff.mp hswept
      refine h.endedOnce_commit hop rfl (by simp) fun _ _ _ heq => ?_
      injection heq with _ heq
      exact heq.symm
  | holdRecording p callId endpointId recording now =>
      obtain ⟨hnone, hrun⟩ := Option.ite_none_left_eq_some.mp hrun
      obtain ⟨-, hrun⟩ := Option.ite_none_left_eq_some.mp hrun
      obtain ⟨-, hrun⟩ := Option.ite_none_left_eq_some.mp hrun
      obtain rfl := Option.some.inj hrun
      intro k r r' hr hr' _
      have hfind : (w.recordings.insert (heldRecording p callId recording now)).find? k =
          some r' := hr'
      rw [Table.find?_insert, hr, Option.some_or] at hfind
      obtain rfl := Option.some.inj hfind
      exact Or.inl rfl
  | refreshUrl | dropFetch | releaseLeases =>
      obtain rfl := Option.some.inj hrun
      refine EndsTogether.endedOnce (endsTogether_of_recordings ?_)
      exact rfl
  | claim => exact (endsTogether_claimFetch hrun).endedOnce
  | upload claim upload now =>
      obtain ⟨-, hrun⟩ := Option.ite_none_right_eq_some.mp hrun
      obtain ⟨world, hop, rfl⟩ := Option.map_eq_some_iff.mp hrun
      refine h.endedOnce_commit hop rfl ?_ (by simp)
      intro p recordingId upload now heq
      injection heq with hp hid
      exact Prod.ext hp hid
  | completeStored claim now =>
      obtain ⟨-, hrun⟩ := Option.ite_none_right_eq_some.mp hrun
      obtain rfl := Option.some.inj hrun
      refine EndsTogether.endedOnce (endsTogether_of_recordings ?_)
      exact rfl
  | settle claim now =>
      obtain ⟨-, hrun⟩ := Option.ite_none_right_eq_some.mp hrun
      obtain rfl := Option.some.inj hrun
      exact endsTogether_settleAs.endedOnce
  | fail claim code how now =>
      obtain ⟨-, hrun⟩ := Option.ite_none_right_eq_some.mp hrun
      cases how with
      | retry =>
          obtain rfl := Option.some.inj hrun
          exact endsTogether_retryFetch.endedOnce
      | failed | expired =>
          obtain rfl := Option.some.inj hrun
          exact (endsTogether_endFetch (by simp)).endedOnce

/-! ## Every run -/

theorem coupled_after (S : CallStore) (ops : List FetchOp) : Coupled (after S ops) := by
  refine Transition.run_invariant (P := Coupled) (fun w op w' h hrun => h.of_step hrun) ops _ ?_
  refine ⟨fun k => together_none, fun claim hclaim => ?_, fun claim hclaim => ?_⟩
  · exact absurd hclaim List.not_mem_nil
  · exact absurd hclaim List.not_mem_nil

/-- **What holds between the fetches and the recordings.** -/
structure Agree (S : CallStore) (w : FetchWorld) : Prop where
  /-- A fetch that is over has a recording that has ended. -/
  ended : ∀ f ∈ w.fetches.jobs, ∀ how, f.state = .finished how →
    ∃ r, w.recordings.find? f.key = some r ∧ r.state ≠ .pending
  /-- A fetch that is over has no URL. -/
  erased : ∀ f ∈ w.fetches.jobs, ∀ how, f.state = .finished how → f.columns.url = none
  /-- A stored fetch has a stored recording. -/
  stored : ∀ f ∈ w.fetches.jobs, f.state = .finished (.named .stored) →
    ∃ r, w.recordings.find? f.key = some r ∧ r.state = .stored
  /-- A pending recording's fetch, if it has one, is live … -/
  live : ∀ r ∈ w.recordings, r.state = .pending → ∀ f, w.fetches.jobs.find? r.key = some f →
    f.state = .pending ∨ f.state = .running
  /-- … and ends it, unless an upload does: no third transaction, and neither
  of them twice. -/
  once : ∀ op w', step S w op = some w' → EndedOnce w w' op

theorem Coupled.agree (h : Coupled w) : Agree S w where
  ended f hf how hover := by
    obtain ⟨r, hr, hended⟩ := h.rows f.key f (Table.find?_of_mem hf)
    exact ⟨r, hr, (hended how hover).1⟩
  erased f hf how hover := by
    obtain ⟨r, hr, hended⟩ := h.rows f.key f (Table.find?_of_mem hf)
    exact (hended how hover).2.1
  stored f hf hover := by
    obtain ⟨r, hr, hended⟩ := h.rows f.key f (Table.find?_of_mem hf)
    exact ⟨r, hr, (hended _ hover).2.2 rfl⟩
  live r hr hpending f hf := by
    have hrow := h.rows r.key
    rw [hf, show w.recordings.find? r.key = some r from Table.find?_of_mem hr] at hrow
    cases hstate : f.state with
    | pending => exact Or.inl rfl
    | running => exact Or.inr rfl
    | finished how => exact absurd hstate (hrow.live hpending how)
  once op w' hrun := h.endedOnce hrun

/-- **A fetch and its recording end together**, in every run. -/
theorem agree_after (S : CallStore) (ops : List FetchOp) : Agree S (after S ops) :=
  (coupled_after S ops).agree

end FetchWorld

end Earshot
