import Earshot.Checkpoint.Decoding
import Earshot.Live.Following
/-!
# Refreshing a directory

`refresh` goes through the journals of a directory once. A journal that
changed is read whole and published in bounded batches, and between two of
them other threads may do anything to the registry. What is raised of one
journal, while it is read or while it is published, ends the refresh before
the journals after it.
-/

namespace Earshot

namespace Live

open Checkpoint
open JsonDocument
open Relational

/-! ## A refresh -/

/-- A journal of the directory: its size and `st_mtime_ns`, unless `stat`
raises an `OSError`, and what is read of it. -/
structure SeenFile extends Checkpoint.JournalFile where
  path : String
  stamp : Option (ℕ × ℕ)

/-- `_TrackedFile` with the stamp of what was last read. -/
structure PolledFile extends TrackedFile where
  stamp : ℕ × ℕ

/-- A file nothing is known of. -/
def PolledFile.new : PolledFile := ⟨⟨0, none⟩, (0, 0)⟩

/-- What is around a refresh when it has looked so many times. -/
structure Surroundings (κ π : Type) where
  projectId : String
  /-- `_project_is_active` -/
  active : ℕ → Bool
  /-- `int(self._clock() * 1e9)` -/
  clock : ℕ → ℕ
  /-- What other threads did to the registry. -/
  others : ℕ → Registry κ π → Registry κ π
  /-- The files whose session they dropped. -/
  detached : ℕ → String → Bool

/-- A journal that is being published. -/
structure Publishing (α : Type) where
  path : String
  stamp : ℕ × ℕ
  file : JournalFile α
  /-- `first_batch` -/
  first : Bool

structure Refreshing (α κ π : Type) where
  registry : Registry κ π
  tracked : String → Option PolledFile
  /-- The paths of `_tracked`. -/
  known : List String
  waiting : List SeenFile
  publishing : Option (Publishing α)
  looks : ℕ

/-- What leaves a refresh. -/
inductive Escaped where
  | reading (escape : Escape)
  | publishing
  deriving DecidableEq

namespace Refreshing

variable {α κ π : Type} (A : Surroundings κ π) (s : Refreshing α κ π)

/-- `_tracked.setdefault` -/
def polled (path : String) : PolledFile := (s.tracked path).getD .new

def put (path : String) (polled : PolledFile) : Refreshing α κ π :=
  { s with
    tracked := Function.update s.tracked path (some polled)
    known := if path ∈ s.known then s.known else s.known ++ [path] }

/-- The stamp of a file whose replay completed. -/
def commit (path : String) (stamp : ℕ × ℕ) : Refreshing α κ π :=
  s.put path { s.polled path with stamp := stamp }

/-- The session of each file changes. -/
def forgetSessions (gone : String → PolledFile → Bool) : Refreshing α κ π :=
  { s with tracked := fun path => (s.tracked path).map fun polled =>
      if gone path polled then { polled with sessionId := none } else polled }

/-- `drop_project`, of the registry's own project. -/
def dropProject : Refreshing α κ π :=
  { s.forgetSessions fun _ _ => true with
    registry := { s.registry with
      sessions := s.registry.sessions.delete fun session =>
        decide (session.projectId = A.projectId) } }

/-- `drop_session`, of the registry's own project. -/
def dropSession (sessionId : String) : Refreshing α κ π :=
  match s.registry.sessions.find? (A.projectId, sessionId) with
  | none => s
  | some _ =>
      { s.forgetSessions fun _ polled => decide (polled.sessionId = some sessionId) with
        registry := { s.registry with
          sessions := s.registry.sessions.delete fun session =>
            decide (session.key = (A.projectId, sessionId)) } }

/-- A file that is known and was not seen. -/
def forget (path : String) : Refreshing α κ π :=
  let left := { s with
    tracked := Function.update s.tracked path none
    known := s.known.filter (· ≠ path) }
  match (s.polled path).sessionId with
  | none => left
  | some sessionId => left.dropSession A sessionId

/-- What other threads do before a batch. -/
def between : Refreshing α κ π :=
  { s.forgetSessions fun path _ => A.detached s.looks path with
    registry := A.others s.looks s.registry
    looks := s.looks + 1 }

variable (limit : ℕ) (validate : EntryType → Value → Option (Checkpoint.JournalEntry α))
  (maxFrameBytes : ℕ)

/-- The look at one file. -/
def visit (seen : SeenFile) : Except Escaped (Refreshing α κ π) :=
  match seen.stamp with
  | none => .ok s
  | some stamp =>
      let s := s.put seen.path (s.polled seen.path)
      if (s.polled seen.path).stamp = stamp then .ok s
      else
        match seen.data.map (readBytes limit validate maxFrameBytes) with
        | none => .ok s
        | some (.error .unreadable) => .ok (s.commit seen.path stamp)
        | some (.error (.escaped escape)) => .error (.reading escape)
        | some (.ok replay) =>
            let file := ⟨replay.header, replay.entries⟩
            .ok { s with publishing := some ⟨seen.path, stamp, file, true⟩ }

variable [DecidableEq κ] (R : Governance α κ π) (config : LiveConfig)

/-- One turn of the loop of `_publish_replay`. -/
def publish (publishing : Publishing α) : Except Escaped (Refreshing α κ π) :=
  let active := A.active s.looks
  let now := A.clock s.looks
  let s := s.between A
  if !active then
    .ok { (s.dropProject A).commit publishing.path publishing.stamp with publishing := none }
  else
    let polled := s.polled publishing.path
    let out := publishReplayBatch R config A.projectId s.registry now polled.toTrackedFile
      publishing.file publishing.first
    if out.raised then .error .publishing
    else
      let s := { s.put publishing.path { polled with toTrackedFile := out.tracked } with
        registry := out.registry }
      if out.more then .ok { s with publishing := some { publishing with first := false } }
      else .ok { s.commit publishing.path publishing.stamp with publishing := none }

/-- What `refresh` does next: a batch of the journal that is being published,
else a look at the next file; at the end, the files that are gone. -/
def turn (files : List SeenFile) :
    Except Escaped (Refreshing α κ π ⊕ Refreshing α κ π) :=
  match s.publishing, s.waiting with
  | some publishing, _ => (s.publish A R config publishing).map .inl
  | none, seen :: rest =>
      ({ s with waiting := rest }.visit limit validate maxFrameBytes seen).map .inl
  | none, [] => .ok (.inr
      ((s.known.filter (· ∉ files.map SeenFile.path)).foldl (forget A) s))

/-- A refresh as it begins. -/
def start (files : List SeenFile) : Refreshing α κ π :=
  { s with waiting := files, publishing := none, looks := s.looks + 1 }

/-- `refresh` comes to its end and leaves `t`. -/
def Refreshes (files : List SeenFile) (t : Refreshing α κ π) : Prop :=
  if A.active s.looks then
    Looping.Ends (fun s => s.turn A limit validate maxFrameBytes R config files) (s.start files) t
  else t = s.dropProject A

end Refreshing

/-! ## What ends it before its end -/

section Specification

variable {α κ π : Type} [DecidableEq κ] (R : Governance α κ π)

/-- The gate after an entry. -/
def ExportGate.judged (gate : ExportGate κ π) (entry : Checkpoint.JournalEntry α) :
    ExportGate κ π :=
  if R.validateNonrecord entry then gate.absorb R entry none else { gate with policy := none }

/-- What checks an entry raises another error than those that withhold it; or
the entry is valid and nothing withholds it, but it is a header or its
projection is no JSON. -/
def Unprojectable (gate : ExportGate κ π) (entry : Checkpoint.JournalEntry α) : Prop :=
  R.escapes gate entry = true ∨
    (R.validateNonrecord entry = true ∧
      (carriesEvidence entry = true → (gate.judged R entry).denials R = []) ∧
      (entry.isOpened = true ∨ R.entryPayload entry = none))

/-- After entries none of which is a finalize stands one that cannot be
projected. -/
def Stuck (gate : ExportGate κ π) (entries : List (Checkpoint.JournalEntry α)) : Prop :=
  ∃ before entry rest, entries = before ++ entry :: rest ∧
    (∀ earlier ∈ before, earlier.isFinalize = false) ∧
    Unprojectable R (before.foldl (ExportGate.judged R) gate) entry

/-- The next entries of a file reach one that cannot be projected: those after
what its session holds, or the first ones where a session begins. -/
def Stops (projectId : String) (r : Registry κ π) (tracked : TrackedFile) (file : JournalFile α)
    (first : Bool) : Prop :=
  match r.sessions.find? (projectId, file.header.sessionId) with
  | none => tracked.lastSequence = 0 ∧
      Stuck R (.new R file.header) (file.entries.take REPLAY_BATCH_SIZE)
  | some session =>
      if session.journalId = file.header.journalId then
        session.closeObserved = false ∧ Stuck R session.exportGate
          ((file.entries.drop (resumeAfter tracked session - 1)).take REPLAY_BATCH_SIZE)
      else first = true ∧ Stuck R (.new R file.header) (file.entries.take REPLAY_BATCH_SIZE)

/-- A changed file that reaches a hostile frame is looked at next, or a batch
of entries that cannot all be projected. -/
def Refreshing.Blocked (A : Surroundings κ π) (limit : ℕ)
    (validate : EntryType → Value → Option (Checkpoint.JournalEntry α)) (maxFrameBytes : ℕ)
    (s : Refreshing α κ π) : Prop :=
  match s.publishing, s.waiting with
  | some publishing, _ => A.active s.looks = true ∧
      Stops R A.projectId (s.between A).registry
        ((s.between A).polled publishing.path).toTrackedFile publishing.file publishing.first
  | none, seen :: _ => ∃ stamp data, seen.stamp = some stamp ∧
      (s.polled seen.path).stamp ≠ stamp ∧ seen.data = some data ∧
      Hostile limit validate maxFrameBytes 1 data
  | none, [] => False

end Specification

section Proofs

variable {α κ π : Type} [DecidableEq κ] {R : Governance α κ π} {config : LiveConfig}
  {gate : ExportGate κ π} {entry : Checkpoint.JournalEntry α}
  {entries : List (Checkpoint.JournalEntry α)} {session : LiveSession κ π} {r : Registry κ π}
  {projectId : String} {now : ℕ} {tracked : TrackedFile} {file : JournalFile α}

theorem stuck_nil : ¬ Stuck R gate [] := by
  rintro ⟨before, entry, rest, heq, -⟩
  exact absurd heq.symm (List.append_ne_nil_of_right_ne_nil _ (List.cons_ne_nil _ _))

theorem stuck_cons : Stuck R gate (entry :: entries) ↔
    Unprojectable R gate entry ∨
      (entry.isFinalize = false ∧ Stuck R (gate.judged R entry) entries) := by
  constructor
  · rintro ⟨before, stuck, rest, heq, hfinal, hstuck⟩
    cases before with
    | nil =>
      obtain ⟨rfl, -⟩ := List.cons.inj heq
      exact .inl hstuck
    | cons first before =>
      obtain ⟨rfl, rfl⟩ := List.cons.inj heq
      obtain ⟨hfirst, hfinal⟩ := List.forall_mem_cons.mp hfinal
      exact .inr ⟨hfirst, before, stuck, rest, rfl, hfinal, hstuck⟩
  · rintro (hstuck | ⟨hfirst, before, stuck, rest, rfl, hfinal, hstuck⟩)
    · exact ⟨[], entry, entries, rfl, fun _ h => absurd h List.not_mem_nil, hstuck⟩
    · exact ⟨entry :: before, stuck, rest, rfl, List.forall_mem_cons.mpr ⟨hfirst, hfinal⟩, hstuck⟩

/-- The gate that the projection of an entry leaves. -/
theorem governedEntryEvent_gate (journalId : String) (n : ℕ) :
    (governedEntryEvent R gate journalId entry n none).1 = gate.judged R entry := by
  unfold governedEntryEvent ExportGate.judged
  cases R.validateNonrecord entry <;> rfl

/-- **An entry is projected** unless it is unprojectable. -/
theorem governedEntryEvent_none (hchecks : R.escapes gate entry = false) (journalId : String)
    (n : ℕ) : (governedEntryEvent R gate journalId entry n none).2 = none ↔
      Unprojectable R gate entry := by
  have hentry : entryEvent R entry journalId n = none ↔
      entry.isOpened = true ∨ R.entryPayload entry = none := by
    unfold entryEvent
    cases entry <;> simp [Checkpoint.JournalEntry.isOpened]
  unfold Unprojectable governedEntryEvent ExportGate.judged
  rw [hchecks, ← hentry]
  cases hvalid : R.validateNonrecord entry with
  | false => simp
  | true =>
    cases hcarries : carriesEvidence entry with
    | false => simp
    | true =>
      cases hdenials : (gate.absorb R entry none).denials R with
      | nil => simp [hdenials]
      | cons denial denials => simp [hdenials]

/-- **Publishing entries raises** exactly where they reach one that cannot be
projected. -/
theorem publishEach_none (entries : List (Checkpoint.JournalEntry α))
    (session : LiveSession κ π) (n : ℕ) :
    (publishEach R session n entries).2 = none ↔
      session.closeObserved = false ∧ Stuck R session.exportGate entries := by
  induction entries generalizing session n with
  | nil => exact ⟨fun h => (by cases h), fun h => absurd h.2 stuck_nil⟩
  | cons entry rest ih =>
    rw [stuck_cons]
    unfold publishEach
    by_cases hclosed : session.closeObserved = true
    · simp [hclosed]
    · have hopen := eq_false_of_ne_true hclosed
      rw [if_neg hclosed, and_iff_right hopen]
      cases hescapes : R.escapes session.exportGate entry with
      | true => simp [Unprojectable, hescapes]
      | false =>
        have hnone := governedEntryEvent_none hescapes session.journalId n
        have hgate : (governedEntryEvent R session.exportGate session.journalId entry n none).1 =
            session.exportGate.judged R entry := governedEntryEvent_gate session.journalId n
        simp only [Bool.false_eq_true, if_false]
        split
        · next gate hevent =>
          rw [hevent] at hnone
          exact ⟨fun _ => .inl (hnone.mp rfl), fun _ => rfl⟩
        · next gate event hevent =>
          rw [hevent] at hnone hgate
          have hprojects : ¬ Unprojectable R session.exportGate entry :=
            fun h => Option.some_ne_none event (hnone.mpr h)
          have hclose : (LiveSession.absorb { session with exportGate := gate } entry).closeObserved =
              false ↔ entry.isFinalize = false := by
            cases entry <;> simp [LiveSession.absorb, Checkpoint.JournalEntry.isFinalize, hopen]
          have habsorbed :
              (LiveSession.absorb { session with exportGate := gate } entry).exportGate =
                session.exportGate.judged R entry := by
            rw [← hgate]
            cases entry <;> rfl
          rw [Option.map_eq_none_iff, ih, hclose, habsorbed]
          exact ⟨.inr, fun h => h.resolve_left hprojects⟩

theorem publishSlice_raised : (publishSlice R config r now tracked session file).raised = true ↔
    session.closeObserved = false ∧ Stuck R session.exportGate
      ((file.entries.drop (resumeAfter tracked session - 1)).take REPLAY_BATCH_SIZE) := by
  unfold publishSlice
  dsimp only
  generalize hobserved : ({ session with
    observedThroughSequence :=
      max session.observedThroughSequence (file.entries.length + 1) } : LiveSession κ π) = observed
  have hnone := publishEach_none (R := R)
    ((file.entries.drop (resumeAfter tracked session - 1)).take REPLAY_BATCH_SIZE) observed
    (resumeAfter tracked session + 1)
  rw [show observed.closeObserved = session.closeObserved by rw [← hobserved],
    show observed.exportGate = session.exportGate by rw [← hobserved]] at hnone
  rw [show resumeAfter tracked observed = resumeAfter tracked session by rw [← hobserved]; rfl]
  split
  · next hend =>
    rw [List.drop_eq_nil_of_le hend, List.take_nil]
    exact ⟨fun h => (by cases h), fun h => absurd h.2 stuck_nil⟩
  · rw [← hnone]
    split
    · next heq => rw [heq]; simp
    · next heq => rw [heq]; simp
    · next heq => rw [heq]; simp

theorem publishNew_raised :
    (publishNew R config projectId r now tracked file).raised = true ↔
      tracked.lastSequence = 0 ∧
        Stuck R (.new R file.header) (file.entries.take REPLAY_BATCH_SIZE) := by
  unfold publishNew
  split
  · next hlast => exact ⟨fun h => (by cases h), fun h => by omega⟩
  · next hlast =>
    have hresume : resumeAfter ⟨1, some file.header.sessionId⟩
        ((followSession R projectId now file.header).append config
          (followSession R projectId now file.header).openEvent) = 1 := rfl
    refine publishSlice_raised.trans ?_
    rw [hresume, Nat.sub_self, List.drop_zero]
    exact ⟨fun h => ⟨by omega, h.2⟩, fun h => ⟨rfl, h.2⟩⟩

/-- **A batch raises** exactly where its file stops it. -/
theorem publishReplayBatch_raised {first : Bool} :
    (publishReplayBatch R config projectId r now tracked file first).raised = true ↔
      Stops R projectId r tracked file first := by
  unfold publishReplayBatch Stops
  dsimp only
  cases hheld : r.sessions.find? (projectId, file.header.sessionId) with
  | none => exact publishNew_raised
  | some session =>
    by_cases hjournal : session.journalId = file.header.journalId
    · have hsame : supersededBy (some session) file.header = none := by
        simp [supersededBy, hjournal]
      rw [hsame]
      dsimp only
      rw [if_pos hjournal]
      exact publishSlice_raised
    · have hother : supersededBy (some session) file.header = some session := by
        simp [supersededBy, hjournal]
      rw [hother]
      dsimp only
      rw [if_neg hjournal]
      cases first with
      | false => simp
      | true =>
        rw [if_neg (by decide), publishNew_raised]
        exact ⟨fun h => ⟨rfl, h.2⟩, fun h => ⟨rfl, h.2⟩⟩

/-! ## One turn -/

theorem publishSlice_more
    (h : (publishSlice R config r now tracked session file).more = true) :
    tracked.lastSequence <
        (publishSlice R config r now tracked session file).tracked.lastSequence ∧
      (publishSlice R config r now tracked session file).tracked.lastSequence ≤
        file.entries.length := by
  have hresume : tracked.lastSequence ≤ resumeAfter tracked session :=
    (le_max_left _ _).trans (le_max_right _ _)
  unfold publishSlice at h ⊢
  dsimp only at h ⊢
  generalize hobserved : ({ session with
    observedThroughSequence :=
      max session.observedThroughSequence (file.entries.length + 1) } : LiveSession κ π) = observed
    at h ⊢
  rw [show resumeAfter tracked observed = resumeAfter tracked session by rw [← hobserved]; rfl]
    at h ⊢
  split at h
  · cases h
  · next hroom =>
    rw [if_neg hroom]
    split at h
    · cases h
    · cases h
    · next published events hsome heq =>
      have hleft := of_decide_eq_true ((Bool.and_eq_true _ _ ▸ h).2)
      have hpos := List.length_pos_iff.mpr fun hnil => hsome (hnil ▸ rfl)
      dsimp only
      exact ⟨by omega, by omega⟩

/-- A batch after which more is to come goes on in the file. -/
theorem publishReplayBatch_more
    (h : (publishReplayBatch R config projectId r now tracked file false).more = true) :
    tracked.lastSequence <
        (publishReplayBatch R config projectId r now tracked file false).tracked.lastSequence ∧
      (publishReplayBatch R config projectId r now tracked file false).tracked.lastSequence ≤
        file.entries.length := by
  unfold publishReplayBatch at h ⊢
  dsimp only at h ⊢
  split at h
  · cases h
  · split at h
    · unfold publishNew at h ⊢
      split at h
      · cases h
      · next hlast =>
        rw [if_neg hlast]
        obtain ⟨hmore, hwithin⟩ := publishSlice_more h
        exact ⟨lt_of_le_of_lt (by omega) hmore, hwithin⟩
    · exact publishSlice_more h

namespace Refreshing

variable {A : Surroundings κ π} {limit maxFrameBytes : ℕ}
  {validate : EntryType → Value → Option (Checkpoint.JournalEntry α)} {s s' : Refreshing α κ π}
  {files : List SeenFile}

omit [DecidableEq κ] in
@[simp] theorem polled_put (path : String) (polled : PolledFile) :
    (s.put path polled).polled path = polled := by
  unfold Refreshing.polled put
  dsimp only
  rw [Function.update_self, Option.getD_some]

omit [DecidableEq κ] in
/-- **A look at a file raises** exactly where the file changed and reaches a
hostile frame. -/
theorem visit_ok_iff {seen : SeenFile} :
    (∃ s', s.visit limit validate maxFrameBytes seen = .ok s') ↔
      ¬ ∃ stamp data, seen.stamp = some stamp ∧ (s.polled seen.path).stamp ≠ stamp ∧
        seen.data = some data ∧ Hostile limit validate maxFrameBytes 1 data := by
  unfold visit
  cases hstamp : seen.stamp with
  | none => simp
  | some stamp =>
    simp only [polled_put]
    by_cases hsame : (s.polled seen.path).stamp = stamp
    · rw [if_pos hsame]
      refine ⟨fun _ => ?_, fun _ => ⟨_, rfl⟩⟩
      rintro ⟨stamp', data, heq, hchanged, -⟩
      exact hchanged (hsame.trans (Option.some.inj heq))
    · rw [if_neg hsame]
      cases hdata : seen.data with
      | none => simp
      | some data =>
        rw [Option.map_some]
        constructor
        · rintro ⟨s', hok⟩ ⟨stamp', data', -, -, heq, hhostile⟩
          obtain ⟨escape, hread⟩ := readBytes_hostile hhostile
          rw [Option.some.inj heq, hread] at hok
          cases hok
        · intro hnot
          have hread := readsByDesign_iff.mpr fun hhostile =>
            hnot ⟨stamp, data, rfl, hsame, rfl, hhostile⟩
          rcases hread with ⟨-, replay, hread, -⟩ | ⟨-, hread⟩ <;>
            exact hread ▸ ⟨_, rfl⟩

theorem publish_ok_iff {publishing : Publishing α} :
    (∃ s', s.publish A R config publishing = .ok s') ↔
      ¬ (A.active s.looks = true ∧
        Stops R A.projectId (s.between A).registry
          ((s.between A).polled publishing.path).toTrackedFile publishing.file
          publishing.first) := by
  have hraised : (publishReplayBatch R config A.projectId (s.between A).registry
      (A.clock s.looks) ((s.between A).polled publishing.path).toTrackedFile publishing.file
      publishing.first).raised = true ↔ _ := publishReplayBatch_raised
  rw [← hraised]
  unfold publish
  cases A.active s.looks with
  | false => simp
  | true =>
    simp only [Bool.not_true, Bool.false_eq_true, if_false, true_and]
    split
    · next hraised => exact ⟨fun ⟨_, h⟩ => (by cases h), fun h => absurd hraised h⟩
    · next hraised =>
      refine ⟨fun _ => hraised, fun _ => ?_⟩
      split <;> exact ⟨_, rfl⟩

/-- **A turn raises** exactly in a state that blocks the refresh. -/
theorem turn_ok_iff :
    (∃ out, s.turn A limit validate maxFrameBytes R config files = .ok out) ↔
      ¬ s.Blocked R A limit validate maxFrameBytes := by
  have hmap : ∀ {done : Except Escaped (Refreshing α κ π)},
      (∃ out, done.map (Sum.inl (β := Refreshing α κ π)) = .ok out) ↔ ∃ s', done = .ok s' := by
    intro done
    cases done with
    | error escaped => exact ⟨fun ⟨_, h⟩ => (by cases h), fun ⟨_, h⟩ => (by cases h)⟩
    | ok s' => exact ⟨fun _ => ⟨s', rfl⟩, fun _ => ⟨_, rfl⟩⟩
  unfold turn Blocked
  split
  · exact hmap.trans publish_ok_iff
  · exact hmap.trans visit_ok_iff
  · exact ⟨fun _ => not_false, fun _ => ⟨_, rfl⟩⟩

/-! ## Every refresh comes to an end -/

/-- The files left, whether a batch was published of the current one, and what
is left of it. -/
def work (s : Refreshing α κ π) : ℕ × ℕ × ℕ :=
  (s.waiting.length,
    match s.publishing with
    | none => (0, 0)
    | some publishing => (if publishing.first then 2 else 1,
        publishing.file.entries.length + 1 - (s.polled publishing.path).lastSequence))

omit [DecidableEq κ] in
theorem lastSequence_between (path : String) :
    ((s.between A).polled path).lastSequence = (s.polled path).lastSequence := by
  unfold between forgetSessions Refreshing.polled
  dsimp only
  cases s.tracked path with
  | none => rfl
  | some polled =>
    rw [Option.map_some, Option.getD_some, Option.getD_some]
    split <;> rfl

omit [DecidableEq κ] in
theorem work_visit {seen : SeenFile}
    (h : s.visit limit validate maxFrameBytes seen = .ok s') : s'.waiting = s.waiting := by
  unfold visit at h
  split at h
  · exact Except.ok.inj h ▸ rfl
  · dsimp only at h
    split at h
    · exact Except.ok.inj h ▸ rfl
    · split at h
      · exact Except.ok.inj h ▸ rfl
      · exact Except.ok.inj h ▸ rfl
      · cases h
      · exact Except.ok.inj h ▸ rfl

theorem work_publish {publishing : Publishing α} (hcurrent : s.publishing = some publishing)
    (h : s.publish A R config publishing = .ok s') :
    Prod.Lex (· < ·) (Prod.Lex (· < ·) (· < ·)) s'.work s.work := by
  have hdone : ∀ {s' : Refreshing α κ π}, s'.waiting = s.waiting → s'.publishing = none →
      Prod.Lex (· < ·) (Prod.Lex (· < ·) (· < ·)) s'.work s.work := by
    intro s' hwaiting hpublishing
    unfold work
    rw [hwaiting, hpublishing, hcurrent]
    refine .right _ (.left _ _ ?_)
    split <;> decide
  unfold publish at h
  dsimp only at h
  split at h
  · exact Except.ok.inj h ▸ hdone rfl rfl
  · split at h
    · cases h
    · split at h
      · next hmore =>
        obtain rfl := Except.ok.inj h
        unfold work
        rw [hcurrent]
        refine .right _ ?_
        dsimp only
        rw [if_neg Bool.false_ne_true]
        cases hfirst : publishing.first with
        | true => exact .left _ _ (by decide)
        | false =>
          rw [hfirst] at hmore
          obtain ⟨hgrows, hwithin⟩ := publishReplayBatch_more hmore
          have hlast := lastSequence_between (A := A) (s := s) publishing.path
          have hpolled := polled_put (s := s.between A) publishing.path
            { (s.between A).polled publishing.path with
              toTrackedFile := (publishReplayBatch R config A.projectId (s.between A).registry
                (A.clock s.looks) ((s.between A).polled publishing.path).toTrackedFile
                publishing.file false).tracked }
          have hnext := congrArg (fun polled : PolledFile =>
            publishing.file.entries.length + 1 - polled.lastSequence) hpolled
          refine .right _ (lt_of_eq_of_lt hnext ?_)
          dsimp only
          omega
      · exact Except.ok.inj h ▸ hdone rfl rfl

/-- A refresh looks at each file once, and publishes each to its end. -/
theorem wellFounded_turn : WellFounded fun s' s : Refreshing α κ π =>
    s.turn A limit validate maxFrameBytes R config files = .ok (.inl s') := by
  refine Subrelation.wf (fun {s' s} h => ?_) (InvImage.wf work
    (wellFounded_lt.prod_lex (wellFounded_lt.prod_lex wellFounded_lt)))
  have hmap : ∀ {done : Except Escaped (Refreshing α κ π)},
      done.map (Sum.inl (β := Refreshing α κ π)) = .ok (.inl s') → done = .ok s' := by
    intro done h
    cases done with
    | error escaped => cases h
    | ok s'' => exact congrArg Except.ok (Sum.inl.inj (Except.ok.inj h))
  unfold turn at h
  split at h
  · next publishing hpublishing => exact work_publish hpublishing (hmap h)
  · next seen rest hpublishing hwaiting =>
    refine .left _ _ ?_
    rw [hwaiting, work_visit (hmap h)]
    exact Nat.lt_succ_self _
  · cases Except.ok.inj h

/-- **A refresh comes to its end** exactly when nothing it meets blocks it. -/
theorem exists_refreshes_iff :
    (∃ t, s.Refreshes A limit validate maxFrameBytes R config files t) ↔
      (A.active s.looks = true → ∀ s', Looping.Meets
        (fun s => s.turn A limit validate maxFrameBytes R config files) (s.start files) s' →
          ¬ s'.Blocked R A limit validate maxFrameBytes) := by
  unfold Refreshes
  cases A.active s.looks with
  | false => exact ⟨fun _ h => (by cases h), fun _ => ⟨_, rfl⟩⟩
  | true =>
    simp only [if_true, true_implies]
    rw [Looping.exists_ends_iff wellFounded_turn]
    exact forall₂_congr fun s' _ => turn_ok_iff

end Refreshing

end Proofs

section Journals

variable {α κ π : Type} [DecidableEq κ] (R : Governance α κ π) (config : LiveConfig)
  (A : Surroundings κ π) (validate : EntryType → Value → Option (Checkpoint.JournalEntry α))
  (maxFrameBytes : ℕ)

/-- **A directory of journals is read by design**, each of its files, its
summary and a refresh from any state, exactly when no file reaches a hostile
frame, and the refresh meets neither such a frame nor a batch of entries that
cannot all be projected. How deep a document may be depends on who reads
it. -/
theorem journals_readByDesign (limit summaryLimit refreshLimit : ℕ) (files : List SeenFile)
    (s : Refreshing α κ π) :
    ((∀ seen ∈ files, ∀ data, seen.data = some data →
        ReadsByDesign limit validate maxFrameBytes data) ∧
      (∃ summaries, summarizeDirectory summaryLimit validate maxFrameBytes
        (files.map SeenFile.toJournalFile) = .ok summaries) ∧
      ∃ t, s.Refreshes A refreshLimit validate maxFrameBytes R config files t) ↔
    (∀ seen ∈ files, ∀ data, seen.data = some data →
        ¬ Hostile limit validate maxFrameBytes 1 data ∧
        ¬ Hostile summaryLimit validate maxFrameBytes 1 data) ∧
      (A.active s.looks = true → ∀ s', Looping.Meets
        (fun s => s.turn A refreshLimit validate maxFrameBytes R config files) (s.start files) s' →
          ¬ s'.Blocked R A refreshLimit validate maxFrameBytes) := by
  rw [Refreshing.exists_refreshes_iff]
  unfold summarizeDirectory
  rw [Transition.exists_mapM_ok]
  simp only [readsByDesign_iff, summarize_ok_iff, List.forall_mem_map]
  constructor
  · rintro ⟨hread, hsummary, hrefresh⟩
    exact ⟨fun seen hseen data hdata =>
      ⟨hread seen hseen data hdata, hsummary seen hseen data hdata⟩, hrefresh⟩
  · rintro ⟨hfiles, hrefresh⟩
    exact ⟨fun seen hseen data hdata => (hfiles seen hseen data hdata).1,
      fun seen hseen data hdata => (hfiles seen hseen data hdata).2, hrefresh⟩

end Journals

end Live

end Earshot
