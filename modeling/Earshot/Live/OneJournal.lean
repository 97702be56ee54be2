import Earshot.Live.Following
import Mathlib.Data.List.Infix
/-!
# One session, one journal

What a session publishes is the entries of one writer's journal, from the
first on and each at its own sequence, and no subscriber is offered another
journal's (`run_oneJournal`): unless a writer adds to a session that another
one's journal holds, or a file is resumed past what its session has.
-/

namespace Earshot

namespace Live

open Checkpoint
open Relational

variable {α κ π ι : Type} [DecidableEq κ] {R : Governance α κ π} {C : LiveConfig}
variable {J : Journals ι α} {encode : ℕ → Checkpoint.JournalEntry α → Option Bytes}
variable {session session' session'' : LiveSession κ π} {r r' : Registry κ π}

/-! ## A log of one journal -/

/-- Each event is what one entry is projected to, at its own sequence. -/
def Projects (R : Governance α κ π) (journalId : String) :
    ℕ → List (Checkpoint.JournalEntry α) → List LiveEvent → Prop
  | _, [], [] => True
  | sequence, entry :: entries, event :: events =>
      (∃ gate observed,
        (governedEntryEvent R gate journalId entry sequence observed).2 = some event) ∧
        Projects R journalId (sequence + 1) entries events
  | _, _, _ => False

/-- **A session's log** is its header, and the first entries of one writer's
journal. -/
structure Follows (R : Governance α κ π) (J : Journals ι α) (i : ι)
    (session : LiveSession κ π) : Prop where
  journalId : session.journalId = (J.header i).journalId
  opened : session.openEvent.name = .opened ∧ session.openEvent.sequence = 1 ∧
    session.openEvent.journalId = session.journalId
  log : ∃ events, session.published = session.openEvent :: events ∧
    session.lastSequence = events.length + 1 ∧
    Projects R session.journalId 2 ((J.entries i).take events.length) events

/-- **Each session is one journal**, and so is what a subscriber is offered;
one whose journal was replaced was told so. -/
structure OneJournal (R : Governance α κ π) (J : Journals ι α) (r : Registry κ π)
    (origin : String × String → Option ι) (joined : ℕ → Option ((String × String) × String))
    (left : List ℕ) : Prop where
  follows : ∀ key session, r.sessions.find? key = some session →
    ∃ i, origin key = some i ∧ Follows R J i session
  subscribed : ∀ key session, r.sessions.find? key = some session →
    ∀ subscriber ∈ session.subscribers, joined subscriber = some (key, session.journalId)
  offered : ∀ subscriber event, (subscriber, event) ∈ r.offered →
    ∃ key, joined subscriber = some (key, event.journalId)
  told : ∀ subscriber key journalId, joined subscriber = some (key, journalId) →
    (∃ session, r.sessions.find? key = some session ∧ session.journalId = journalId ∧
        subscriber ∈ session.subscribers) ∨
      (∃ journalId', (subscriber, Registry.resetEvent journalId journalId') ∈ r.offered) ∨
      subscriber ∈ left

def System.OneJournal (R : Governance α κ π) (J : Journals ι α) (sys : System ι κ π) : Prop :=
  Live.OneJournal R J sys.registry sys.origin sys.joined sys.left

/-- What a step from another source leaves of a session that follows a file:
its log, or more of it. -/
def Undisplaced (sys sys' : System ι κ π) : SystemOp R C J → Prop
  | .upload _ | .capture _ _ _ _ _ =>
      ∀ key session, sys.registry.sessions.find? key = some session →
        session.source = .journal →
        ∃ session', sys'.registry.sessions.find? key = some session' ∧
          session'.journalId = session.journalId ∧ session.published <+: session'.published
  | _ => True

/-! ## The condition -/

/-- A call's entries pass the checks of `accept_records`. -/
def Append.admitted (R : Governance α κ π) (C : LiveConfig)
    (encode : ℕ → Checkpoint.JournalEntry α → Option Bytes) (session : LiveSession κ π)
    (append : Append α) : Bool :=
  (preflightEntries R (batchPolicy R (some session) (leadingHeader append.entries)) false
    append.entries).any fun checked =>
      (encodeEntries C encode (session.lastSequence + 1) checked).isSome

/-- The batch of a file that goes to a session that is held: the session is
the file's, and has all that was published of it. -/
def ReplayCoherent (J : Journals ι α) (sys : System ι κ π) (replay : Replay ι)
    (tracked : TrackedFile) : Prop :=
  ∀ session, sys.registry.sessions.find?
      (sys.projectId, (J.header replay.origin).sessionId) = some session →
    session.journalId = (J.header replay.origin).journalId → session.closeObserved = false →
    resumeAfter tracked session ≤ ((J.entries replay.origin).take replay.count).length →
    sys.origin (sys.projectId, (J.header replay.origin).sessionId) = some replay.origin ∧
      tracked.lastSequence ≤ session.lastSequence

/-- An upload that adds to a session comes from the writer whose journal it
holds, and one that replaces a session does not replace a file's. -/
def UploadCoherent (J : Journals ι α) (sys : System ι κ π) (sent : Sent R C J) : Prop :=
  ∀ p, plan R C sys.registry sent.upload = .ok p →
    (∀ session, p.session = some session → p.fresh = [] ∨
      ¬ Rendered R session.journalId session.exportGate p.fresh ∨
      sys.origin sent.upload.key = some sent.origin) ∧
    ∀ session, p.replaced = some session → session.source ≠ .journal

/-- A call that adds to a session is the one whose journal it holds, and is
where the session is. -/
def AppendCoherent (encode : ℕ → Checkpoint.JournalEntry α → Option Bytes)
    (sys : System ι κ π) (R : Governance α κ π) (C : LiveConfig) (origin : ι) (skip : ℕ)
    (append : Append α) : Prop :=
  ∀ session, sys.registry.sessions.find? append.key = some session →
    append.entries = [] ∨ session.closeObserved = true ∨
      append.admitted R C encode session = false ∨
      sys.origin append.key = some origin ∧ skip = session.lastSequence

def Coherent (encode : ℕ → Checkpoint.JournalEntry α → Option Bytes) (sys : System ι κ π) :
    SystemOp R C J → Prop
  | .publish _ => ∀ replay tracked, sys.replay = some replay →
      sys.tracked replay.path = some tracked → ReplayCoherent J sys replay tracked
  | .upload sent => UploadCoherent J sys sent
  | .capture origin projectId skip count now =>
      AppendCoherent encode sys R C origin skip
        (System.nextAppend J origin projectId skip count now)
  | _ => True

/-! ## Projections -/

theorem Projects.length {journalId : String} {n : ℕ} {entries : List (Checkpoint.JournalEntry α)}
    {events : List LiveEvent} (h : Projects R journalId n entries events) :
    entries.length = events.length := by
  induction entries generalizing n events with
  | nil =>
    cases events with
    | nil => rfl
    | cons event events => exact h.elim
  | cons entry entries ih =>
    cases events with
    | nil => exact h.elim
    | cons event events =>
      unfold Projects at h
      rw [List.length_cons, List.length_cons, ih h.2]

theorem Projects.append {journalId : String} {n : ℕ}
    {entries entries' : List (Checkpoint.JournalEntry α)} {events events' : List LiveEvent}
    (h : Projects R journalId n entries events)
    (h' : Projects R journalId (n + events.length) entries' events') :
    Projects R journalId n (entries ++ entries') (events ++ events') := by
  induction entries generalizing n events with
  | nil =>
    cases events with
    | nil => exact h'
    | cons event events => exact h.elim
  | cons entry entries ih =>
    cases events with
    | nil => exact h.elim
    | cons event events =>
      unfold Projects at h
      rw [List.length_cons, show n + (events.length + 1) = n + 1 + events.length by omega] at h'
      exact ⟨h.1, ih h.2 h'⟩

theorem governed_event {gate : ExportGate κ π} {journalId : String}
    {entry : Checkpoint.JournalEntry α} {sequence : ℕ} {observed : Option (List κ)}
    {event : LiveEvent}
    (h : (governedEntryEvent R gate journalId entry sequence observed).2 = some event) :
    event.journalId = journalId ∧ event.sequence = sequence := by
  unfold governedEntryEvent at h
  dsimp only at h
  split at h
  · obtain rfl := Option.some.inj h
    exact ⟨rfl, rfl⟩
  · dsimp only at h
    split at h
    · obtain rfl := Option.some.inj h
      exact ⟨rfl, rfl⟩
    · unfold entryEvent at h
      split at h
      · cases h
      · obtain ⟨payload, -, rfl⟩ := Option.map_eq_some_iff.mp h
        exact ⟨rfl, rfl⟩

theorem Projects.events {journalId : String} {n : ℕ} {entries : List (Checkpoint.JournalEntry α)}
    {events : List LiveEvent} (h : Projects R journalId n entries events) :
    events.map (·.sequence) = List.range' n events.length ∧
      ∀ event ∈ events, event.journalId = journalId := by
  induction entries generalizing n events with
  | nil =>
    cases events with
    | nil => exact ⟨rfl, fun _ hmem => absurd hmem List.not_mem_nil⟩
    | cons event events => exact h.elim
  | cons entry entries ih =>
    cases events with
    | nil => exact h.elim
    | cons event events =>
      unfold Projects at h
      obtain ⟨⟨gate, observed, hevent⟩, hrest⟩ := h
      obtain ⟨hjournal, hsequence⟩ := governed_event hevent
      obtain ⟨hsequences, hjournals⟩ := ih hrest
      refine ⟨?_, fun other hmem => ?_⟩
      · rw [List.map_cons, hsequences, hsequence, List.length_cons, List.range'_succ]
      · rcases List.mem_cons.mp hmem with rfl | hmem
        · exact hjournal
        · exact hjournals other hmem

/-! ## Sessions that grow -/

/-- A session has more of a journal, and is otherwise the same. -/
structure Grows (R : Governance α κ π) (session session' : LiveSession κ π)
    (entries : List (Checkpoint.JournalEntry α)) (events : List LiveEvent) : Prop where
  key : session'.key = session.key
  source : session'.source = session.source
  journalId : session'.journalId = session.journalId
  openEvent : session'.openEvent = session.openEvent
  subscribers : session'.subscribers = session.subscribers
  published : session'.published = session.published ++ events
  lastSequence : session'.lastSequence = session.lastSequence + events.length
  projects : Projects R session.journalId (session.lastSequence + 1) entries events

namespace Grows

variable {entries entries' : List (Checkpoint.JournalEntry α)} {events events' : List LiveEvent}

theorem trans (h : Grows R session session' entries events)
    (h' : Grows R session' session'' entries' events') :
    Grows R session session'' (entries ++ entries') (events ++ events') := by
  refine ⟨h'.key.trans h.key, h'.source.trans h.source, h'.journalId.trans h.journalId,
    h'.openEvent.trans h.openEvent, h'.subscribers.trans h.subscribers, ?_, ?_, ?_⟩
  · rw [h'.published, h.published, List.append_assoc]
  · rw [h'.lastSequence, h.lastSequence, List.length_append]
    omega
  · have hprojects := h'.projects
    rw [h.journalId, h.lastSequence,
      show session.lastSequence + events.length + 1 =
        session.lastSequence + 1 + events.length by omega] at hprojects
    exact h.projects.append hprojects

theorem of_below (h : session.Below session') : Grows R session session' [] [] := by
  refine ⟨?_, h.source, h.journalId, h.openEvent, h.subscribers, ?_, h.lastSequence, trivial⟩
  · unfold LiveSession.key
    rw [h.projectId, h.sessionId]
  · rw [h.published, List.append_nil]

theorem of_delivered (h : Delivered C session session' events)
    (hprojects : Projects R session.journalId (session.lastSequence + 1) entries events) :
    Grows R session session' entries events := by
  refine ⟨?_, h.source, h.journalId, h.openEvent, h.subscribers, h.published, ?_, hprojects⟩
  · unfold LiveSession.key
    rw [h.projectId, h.sessionId]
  · rw [h.lastSequence, hprojects.events.1, foldl_max_range']

/-- A session whose log is a writer's grows by the entries that come next. -/
theorem follows {i : ι} (h : Grows R session session' entries events)
    (hfollows : Follows R J i session)
    (hentries : entries = ((J.entries i).drop (session.lastSequence - 1)).take events.length) :
    Follows R J i session' := by
  obtain ⟨log, hlog, hlast, hprojects⟩ := hfollows.log
  refine ⟨h.journalId.trans hfollows.journalId, ?_, log ++ events, ?_, ?_, ?_⟩
  · rw [h.openEvent, h.journalId]
    exact hfollows.opened
  · rw [h.published, hlog, h.openEvent, List.cons_append]
  · rw [h.lastSequence, hlast, List.length_append]
    omega
  · have hmore := h.projects
    rw [hlast, show log.length + 1 + 1 = 2 + log.length by omega, hentries, hlast,
      Nat.add_sub_cancel] at hmore
    rw [h.journalId, List.length_append, List.take_add]
    exact hprojects.append hmore

end Grows

/-! ## Registries -/

namespace OneJournal

variable {origin origin' : String × String → Option ι}
variable {joined : ℕ → Option ((String × String) × String)} {left : List ℕ}
variable {entries : List (Checkpoint.JournalEntry α)} {events : List LiveEvent}

/-- Whose journal a session holds matters where there is a session. -/
theorem of_origin (h : OneJournal R J r origin joined left)
    (horigin : ∀ key session, r.sessions.find? key = some session → origin' key = origin key) :
    OneJournal R J r origin' joined left := by
  refine ⟨fun key session hsession => ?_, h.subscribed, h.offered, h.told⟩
  obtain ⟨i, hi, hfollows⟩ := h.follows key session hsession
  exact ⟨i, (horigin key session hsession).trans hi, hfollows⟩

/-- A session takes more of its journal, and its subscribers are offered of
it. -/
theorem grow (h : OneJournal R J r origin joined left) {more : List (ℕ × LiveEvent)}
    (hheld : r.sessions.find? session.key = some session)
    (hgrows : Grows R session session' entries events)
    (hentries : ∀ i, origin session.key = some i →
      entries = ((J.entries i).drop (session.lastSequence - 1)).take events.length)
    (hmore : ∀ p ∈ more, p.1 ∈ session.subscribers ∧ p.2 ∈ events) :
    OneJournal R J ⟨r.sessions.put session', r.offered ++ more⟩ origin joined left := by
  have hfind (key : String × String) : (r.sessions.put session').find? key =
      if session.key = key then some session' else r.sessions.find? key := by
    rw [Table.find?_put, hgrows.key]
  refine ⟨fun key other hother => ?_, fun key other hother => ?_, fun subscriber event hmem => ?_,
    fun subscriber key journalId hjoined => ?_⟩
  · rw [hfind] at hother
    split at hother
    · next heq =>
      obtain rfl := Option.some.inj hother
      obtain ⟨i, hi, hfollows⟩ := h.follows key session (heq ▸ hheld)
      exact ⟨i, hi, hgrows.follows hfollows (hentries i (heq ▸ hi))⟩
    · exact h.follows key other hother
  · rw [hfind] at hother
    split at hother
    · next heq =>
      obtain rfl := Option.some.inj hother
      rw [hgrows.subscribers, hgrows.journalId]
      exact h.subscribed key session (heq ▸ hheld)
    · exact h.subscribed key other hother
  · rcases List.mem_append.mp hmem with hold | hnew
    · exact h.offered subscriber event hold
    · obtain ⟨hsubscriber, hevent⟩ := hmore _ hnew
      refine ⟨session.key, ?_⟩
      rw [h.subscribed session.key session hheld subscriber hsubscriber,
        hgrows.projects.events.2 event hevent]
  · rcases h.told subscriber key journalId hjoined with ⟨other, hother, hjournal, hsub⟩ |
      ⟨journalId', hreset⟩ | hleft
    · left
      by_cases heq : session.key = key
      · obtain rfl : session = other := Option.some.inj (hheld.symm.trans (heq ▸ hother))
        refine ⟨session', ?_, hgrows.journalId.trans hjournal, ?_⟩
        · rw [hfind, if_pos heq]
        · rw [hgrows.subscribers]
          exact hsub
      · refine ⟨other, ?_, hjournal, hsub⟩
        rw [hfind, if_neg heq]
        exact hother
    · exact .inr (.inl ⟨journalId', List.mem_append_left _ hreset⟩)
    · exact .inr (.inr hleft)

/-- A session begins where there is none. -/
theorem begin (h : OneJournal R J r origin joined left) {i : ι}
    (hnone : r.sessions.find? session.key = none) (horigin : origin session.key = some i)
    (hfollows : Follows R J i session) (hsubscribers : session.subscribers = []) :
    OneJournal R J ⟨r.sessions.put session, r.offered⟩ origin joined left := by
  refine ⟨fun key other hother => ?_, fun key other hother => ?_, h.offered,
    fun subscriber key journalId hjoined => ?_⟩
  · rw [Table.find?_put] at hother
    split at hother
    · next heq =>
      obtain rfl := Option.some.inj hother
      exact ⟨i, heq ▸ horigin, hfollows⟩
    · exact h.follows key other hother
  · rw [Table.find?_put] at hother
    split at hother
    · obtain rfl := Option.some.inj hother
      rw [hsubscribers]
      exact fun _ hmem => absurd hmem List.not_mem_nil
    · exact h.subscribed key other hother
  · rcases h.told subscriber key journalId hjoined with ⟨other, hother, hrest⟩ | htold
    · left
      refine ⟨other, ?_, hrest⟩
      rw [Table.find?_put, if_neg]
      · exact hother
      · rintro rfl
        rw [hnone] at hother
        cases hother
    · exact .inr htold

omit [DecidableEq κ] in
/-- A session is gone. -/
theorem find?_delete_key (key other : String × String) :
    (r.sessions.delete fun session => decide (session.key = key)).find? other =
      if other = key then none else r.sessions.find? other := by
  split
  · next heq =>
    rw [Table.find?_delete, heq]
    cases hheld : r.sessions.find? key with
    | none => rfl
    | some session =>
      have hkey : session.key = key := Table.key_of_find? hheld
      simp [Option.filter, hkey]
  · next hne =>
    refine Table.find?_delete_of_ne fun session _ hother => decide_eq_false fun h => hne ?_
    rw [← hother, h]

/-- Another journal replaces a session's, and its subscribers are told. -/
theorem reset (h : OneJournal R J r origin joined left)
    (hheld : r.sessions.find? session.key = some session) (journalId : String) :
    OneJournal R J (r.resetSession session journalId) origin joined left := by
  have hfind (key : String × String) := find?_delete_key (r := r) session.key key
  refine ⟨fun key other hother => ?_, fun key other hother => ?_, fun subscriber event hmem => ?_,
    fun subscriber key previous hjoined => ?_⟩
  · unfold Registry.resetSession at hother
    dsimp only at hother
    rw [hfind] at hother
    split at hother
    · cases hother
    · exact h.follows key other hother
  · unfold Registry.resetSession at hother
    dsimp only at hother
    rw [hfind] at hother
    split at hother
    · cases hother
    · exact h.subscribed key other hother
  · unfold Registry.resetSession at hmem
    rcases List.mem_append.mp hmem with hold | hnew
    · exact h.offered subscriber event hold
    · obtain ⟨other, hother, hnew⟩ := List.mem_flatMap.mp hnew
      have hjoined := h.subscribed session.key session hheld other hother
      rcases List.mem_cons.mp hnew with heq | hnew
      · obtain ⟨rfl, rfl⟩ := Prod.mk.inj heq
        exact ⟨session.key, hjoined⟩
      · obtain ⟨rfl, rfl⟩ := Prod.mk.inj (List.mem_singleton.mp hnew)
        exact ⟨session.key, hjoined⟩
  · rcases h.told subscriber key previous hjoined with ⟨other, hother, hjournal, hsub⟩ |
      ⟨journalId', hreset⟩ | hleft
    · by_cases heq : key = session.key
      · -- the subscriber is one of those that are told
        obtain rfl : session = other := Option.some.inj (hheld.symm.trans (heq ▸ hother))
        refine .inr (.inl ⟨journalId, List.mem_append_right _ (List.mem_flatMap.mpr
          ⟨subscriber, hsub, ?_⟩)⟩)
        rw [← hjournal]
        exact List.mem_cons_self
      · left
        refine ⟨other, ?_, hjournal, hsub⟩
        unfold Registry.resetSession
        dsimp only
        rw [hfind, if_neg heq]
        exact hother
    · exact .inr (.inl ⟨journalId', List.mem_append_left _ hreset⟩)
    · exact .inr (.inr hleft)

/-- A session is dropped, and its subscribers leave. -/
theorem drop (h : OneJournal R J r origin joined left)
    (hheld : r.sessions.find? session.key = some session) :
    OneJournal R J ⟨r.sessions.delete fun other => decide (other.key = session.key), r.offered⟩
      origin joined (left ++ session.subscribers) := by
  have hfind (key : String × String) := find?_delete_key (r := r) session.key key
  refine ⟨fun key other hother => ?_, fun key other hother => ?_, h.offered,
    fun subscriber key journalId hjoined => ?_⟩
  · rw [hfind] at hother
    split at hother
    · cases hother
    · exact h.follows key other hother
  · rw [hfind] at hother
    split at hother
    · cases hother
    · exact h.subscribed key other hother
  · rcases h.told subscriber key journalId hjoined with ⟨other, hother, hjournal, hsub⟩ |
      hreset | hleft
    · by_cases heq : key = session.key
      · obtain rfl : session = other := Option.some.inj (hheld.symm.trans (heq ▸ hother))
        exact .inr (.inr (List.mem_append_right _ hsub))
      · left
        refine ⟨other, ?_, hjournal, hsub⟩
        rw [hfind, if_neg heq]
        exact hother
    · exact .inr (.inl hreset)
    · exact .inr (.inr (List.mem_append_left _ hleft))

/-- Subscribers join a session, or leave it. -/
theorem resubscribe (h : OneJournal R J r origin joined left)
    {joined' : ℕ → Option ((String × String) × String)} {left' subscribers : List ℕ}
    (hheld : r.sessions.find? session.key = some session)
    (hjoined : ∀ other place, joined other = some place → joined' other = some place)
    (hsubscribers : ∀ other ∈ subscribers,
      joined' other = some (session.key, session.journalId))
    (hnew : ∀ other key journalId, joined' other = some (key, journalId) →
      joined other = some (key, journalId) ∨
        key = session.key ∧ journalId = session.journalId ∧ other ∈ subscribers)
    (hkept : ∀ other ∈ session.subscribers, other ∈ subscribers ∨ other ∈ left')
    (hleft : ∀ other ∈ left, other ∈ left') :
    OneJournal R J
      ⟨r.sessions.put { session with subscribers := subscribers }, r.offered⟩ origin joined'
      left' := by
  have hfind (key : String × String) :
      (r.sessions.put { session with subscribers := subscribers }).find? key =
        if session.key = key then some { session with subscribers := subscribers }
        else r.sessions.find? key := Table.find?_put
  refine ⟨fun key found hfound => ?_, fun key found hfound => ?_, fun other event hmem => ?_,
    fun other key journalId hplace => ?_⟩
  · rw [hfind] at hfound
    split at hfound
    · next heq =>
      obtain rfl := Option.some.inj hfound
      obtain ⟨i, hi, hfollows⟩ := h.follows key session (heq ▸ hheld)
      exact ⟨i, hi, hfollows.journalId, hfollows.opened, hfollows.log⟩
    · exact h.follows key found hfound
  · rw [hfind] at hfound
    split at hfound
    · next heq =>
      obtain rfl := Option.some.inj hfound
      exact heq ▸ hsubscribers
    · exact fun other hmem => hjoined other _ (h.subscribed key found hfound other hmem)
  · obtain ⟨key, hplace⟩ := h.offered other event hmem
    exact ⟨key, hjoined other _ hplace⟩
  · have hthere (hmem : other ∈ subscribers) (hkey : key = session.key)
        (hjournal : journalId = session.journalId) :
        ∃ found, (r.sessions.put { session with subscribers := subscribers }).find? key =
          some found ∧ found.journalId = journalId ∧ other ∈ found.subscribers :=
      ⟨{ session with subscribers := subscribers }, by rw [hfind, if_pos hkey.symm],
        hjournal.symm, hmem⟩
    rcases hnew other key journalId hplace with hold | ⟨hkey, hjournal, hmem⟩
    · rcases h.told other key journalId hold with ⟨found, hfound, hjournal, hsub⟩ | hreset | hgone
      · by_cases heq : session.key = key
        · obtain rfl : session = found := Option.some.inj (hheld.symm.trans (heq ▸ hfound))
          exact (hkept other hsub).imp (fun hmem => hthere hmem heq.symm hjournal.symm) .inr
        · refine .inl ⟨found, ?_, hjournal, hsub⟩
          rw [hfind, if_neg heq]
          exact hfound
      · exact .inr (.inl hreset)
      · exact .inr (.inr (hleft other hgone))
    · exact .inl (hthere hmem hkey hjournal)

end OneJournal

/-! ## What the loops publish -/

/-- The loop of an upload. -/
theorem feed_projects (fresh : List (Decoded α × List κ)) (session : LiveSession κ π) (n : ℕ)
    {events : List LiveEvent} (h : (feed R C session fresh).2 = some events)
    (hsequences : fresh.map (fun item => item.1.sequence) = List.range' n fresh.length) :
    Projects R session.journalId (max n 2) ((fresh.map fun item => item.1.entry).drop (2 - n))
      events := by
  induction fresh generalizing session n events with
  | nil =>
    obtain rfl := Option.some.inj h
    rw [List.map_nil, List.drop_nil]
    exact trivial
  | cons item rest ih =>
    obtain ⟨decoded, classes⟩ := item
    rw [List.map_cons, List.length_cons, List.range'_succ] at hsequences
    obtain ⟨hsequence, hrest⟩ := List.cons.inj hsequences
    dsimp only at hsequence
    rw [feed_cons, feedFrame_eq] at h
    by_cases hone : 1 < decoded.sequence
    · rw [if_pos hone] at h
      cases hevent : (eventOf R session.exportGate session.journalId decoded classes).2 with
      | none =>
        rw [hevent] at h
        cases h
      | some event =>
        rw [hevent] at h
        obtain ⟨tail, htail, rfl⟩ := Option.map_eq_some_iff.mp h
        have hprojects := ih _ (n + 1) htail hrest
        rw [LiveSession.absorb_journalId] at hprojects
        dsimp only at hprojects
        rw [LiveSession.keepFrame_journalId, show 2 - (n + 1) = 0 by omega,
          show max (n + 1) 2 = n + 1 by omega, List.drop_zero] at hprojects
        rw [show 2 - n = 0 by omega, show max n 2 = n by omega, List.drop_zero, List.map_cons]
        refine ⟨⟨session.exportGate, some classes, ?_⟩, hprojects⟩
        rw [← hsequence]
        exact hevent
    · -- the header is no fact
      rw [if_neg hone] at h
      have hprojects := ih _ (n + 1) h hrest
      rw [LiveSession.keepFrame_journalId, show max (n + 1) 2 = max n 2 by omega] at hprojects
      rw [List.map_cons, show 2 - n = 2 - (n + 1) + 1 by omega, List.drop_succ_cons]
      exact hprojects

/-- The loop of a file. -/
theorem publishEach_spec (entries : List (Checkpoint.JournalEntry α))
    (session : LiveSession κ π) (n : ℕ) :
    session.Below (publishEach R session n entries).1 ∧
      ∀ events, (publishEach R session n entries).2 = some events →
        Projects R session.journalId n (entries.take events.length) events := by
  induction entries generalizing session n with
  | nil =>
    refine ⟨.refl session, fun events h => ?_⟩
    obtain rfl := Option.some.inj h
    exact trivial
  | cons entry rest ih =>
    have hgate := LiveSession.Below.withGate (ExportGate.Below.governed (R := R)
      session.exportGate session.journalId entry n none)
    unfold publishEach
    split
    · refine ⟨.refl session, fun events h => ?_⟩
      obtain rfl := Option.some.inj h
      exact trivial
    · split
      · exact ⟨.refl session, fun events h => by cases h⟩
      · split
        · next gate hevent =>
          rw [hevent] at hgate
          exact ⟨hgate, fun events h => by cases h⟩
        · next gate event hevent =>
          rw [hevent] at hgate
          have habsorbed := hgate.trans (.absorb _ entry)
          obtain ⟨hbelow, hprojects⟩ :=
            ih (LiveSession.absorb { session with exportGate := gate } entry) (n + 1)
          refine ⟨habsorbed.trans hbelow, fun events h => ?_⟩
          obtain ⟨tail, htail, rfl⟩ := Option.map_eq_some_iff.mp h
          have htail := hprojects tail htail
          rw [habsorbed.journalId] at htail
          exact ⟨⟨session.exportGate, none, by rw [hevent]⟩, htail⟩

/-- The loop of a call's append, which may stop before its end. -/
theorem appendEach_spec (fresh : List (Decoded α × List κ)) (session : LiveSession κ π) :
    ∃ appended, Grows R session (appendEach R C session fresh).1
        ((fresh.map fun item => item.1.entry).take appended.length) appended ∧
      ∀ events, (appendEach R C session fresh).2 = some events → events = appended := by
  induction fresh generalizing session with
  | nil =>
    refine ⟨[], .of_below (.refl session), fun events h => (Option.some.inj h).symm⟩
  | cons item rest ih =>
    obtain ⟨decoded, classes⟩ := item
    have hkeep := LiveSession.Below.keepFrame (C := C) session
      { decoded with sequence := session.lastSequence + 1 }
    unfold appendEach
    dsimp only
    generalize session.keepFrame C { decoded with sequence := session.lastSequence + 1 } = kept
      at hkeep ⊢
    have hgate := LiveSession.Below.withGate (ExportGate.Below.governed (R := R)
      kept.exportGate kept.journalId decoded.entry (session.lastSequence + 1) (some classes))
    split
    · next gate hevent =>
      rw [hevent] at hgate
      exact ⟨[], .of_below (hkeep.trans hgate), fun events h => by cases h⟩
    · next gate event hevent =>
      rw [hevent] at hgate
      have hgated := hkeep.trans hgate
      -- one entry is appended, and absorbed
      have hprojects : Projects R ({ kept with exportGate := gate } : LiveSession κ π).journalId
          (({ kept with exportGate := gate } : LiveSession κ π).lastSequence + 1)
          [decoded.entry] [event] := by
        rw [hgated.lastSequence]
        exact ⟨⟨_, _, by rw [hevent]⟩, trivial⟩
      have happended := Grows.of_delivered (deliver_delivered (C := C) [event] _) hprojects
      have hone := ((Grows.of_below (R := R) hgated).trans happended).trans
        (.of_below (.absorb _ decoded.entry))
      obtain ⟨appended, hgrows, hevents⟩ := ih (LiveSession.absorb (LiveSession.append C
        { kept with exportGate := gate } event) decoded.entry)
      refine ⟨event :: appended, hone.trans hgrows, fun events h => ?_⟩
      obtain ⟨tail, htail, rfl⟩ := Option.map_eq_some_iff.mp h
      rw [hevents tail htail]

/-! ## Batches of a file -/

theorem take_of_prefix {β : Type} {l l' : List β} {m : ℕ} (h : l <+: l') (hm : m ≤ l.length) :
    l.take m = l'.take m := by
  obtain ⟨rest, rfl⟩ := h
  rw [List.take_append_of_le_length hm]

namespace OneJournal

variable {origin : String × String → Option ι}
variable {joined : ℕ → Option ((String × String) × String)} {left : List ℕ}

/-- A session takes more of its journal, and nobody is offered it. -/
theorem grow_silent {entries : List (Checkpoint.JournalEntry α)} {events : List LiveEvent}
    (h : OneJournal R J r origin joined left)
    (hheld : r.sessions.find? session.key = some session)
    (hgrows : Grows R session session' entries events)
    (hentries : ∀ i, origin session.key = some i →
      entries = ((J.entries i).drop (session.lastSequence - 1)).take events.length) :
    OneJournal R J { r with sessions := r.sessions.put session' } origin joined left := by
  have hnone (p : ℕ × LiveEvent) (hmem : p ∈ ([] : List (ℕ × LiveEvent))) :
      p.1 ∈ session.subscribers ∧ p.2 ∈ events := absurd hmem List.not_mem_nil
  have hgrown := h.grow hheld hgrows hentries hnone
  rw [List.append_nil] at hgrown
  exact hgrown

/-- A session that publishes nothing. -/
theorem touch (h : OneJournal R J r origin joined left)
    (hheld : r.sessions.find? session.key = some session)
    (hgrows : Grows R session session' [] []) :
    OneJournal R J { r with sessions := r.sessions.put session' } origin joined left :=
  h.grow_silent hheld hgrows fun _ _ => rfl

/-- What is offered of a delivery is what was delivered, to subscribers. -/
theorem mem_offers {subscribers : List ℕ} {events : List LiveEvent} (p : ℕ × LiveEvent)
    (hmem : p ∈ subscribers.flatMap fun subscriber => events.map fun event =>
      (subscriber, event)) : p.1 ∈ subscribers ∧ p.2 ∈ events := by
  obtain ⟨subscriber, hsubscriber, hmem⟩ := List.mem_flatMap.mp hmem
  obtain ⟨event, hevent, rfl⟩ := List.mem_map.mp hmem
  exact ⟨hsubscriber, hevent⟩

end OneJournal

theorem publishEach_closed (h : session.closeObserved = true) (n : ℕ)
    (entries : List (Checkpoint.JournalEntry α)) :
    publishEach R session n entries = (session, some []) := by
  cases entries with
  | nil => rfl
  | cons entry rest =>
    unfold publishEach
    rw [if_pos h]

/-- **A slice of a file** goes to the session that follows it. -/
theorem publishSlice_oneJournal {origin : String × String → Option ι}
    {joined : ℕ → Option ((String × String) × String)} {left : List ℕ} {now : ℕ}
    {tracked : TrackedFile} {file : JournalFile α} (h : OneJournal R J r origin joined left)
    (hheld : r.sessions.find? session.key = some session)
    (hcoherent : session.closeObserved = false →
      resumeAfter tracked session ≤ file.entries.length →
      ∃ i, origin session.key = some i ∧ file.entries <+: J.entries i ∧
        tracked.lastSequence ≤ session.lastSequence) :
    OneJournal R J (publishSlice R C r now tracked session file).registry origin joined left := by
  obtain ⟨i, hi, hfollows⟩ := h.follows _ session hheld
  obtain ⟨log, -, hlast, -⟩ := hfollows.log
  unfold publishSlice
  dsimp only
  generalize hobserved : ({ session with
    observedThroughSequence :=
      max session.observedThroughSequence (file.entries.length + 1) } : LiveSession κ π) = observed
  have hsame : Grows R session observed [] [] := by
    rw [← hobserved]
    exact ⟨rfl, rfl, rfl, rfl, rfl, (List.append_nil _).symm, rfl, trivial⟩
  have hclosed : observed.closeObserved = session.closeObserved := by rw [← hobserved]
  have hresume : resumeAfter tracked observed = resumeAfter tracked session := by
    rw [← hobserved]
    rfl
  rw [hresume]
  split
  · exact h.touch hheld hsame
  · next hroom =>
    obtain ⟨hbelow, hprojects⟩ := publishEach_spec (R := R)
      ((file.entries.drop (resumeAfter tracked session - 1)).take REPLAY_BATCH_SIZE) observed
      (resumeAfter tracked session + 1)
    split
    · next published heq =>
      rw [heq] at hbelow
      exact h.touch hheld (hsame.trans (.of_below hbelow))
    · next published heq =>
      rw [heq] at hbelow
      exact h.touch hheld (hsame.trans (.of_below hbelow))
    · next published events hsome heq =>
      rw [heq] at hbelow hprojects
      have hprojects := hprojects events rfl
      by_cases hclose : session.closeObserved = true
      · rw [publishEach_closed (hclosed.trans hclose)] at heq
        exact absurd (Option.some.inj (Prod.mk.inj heq).2).symm (hsome · )
      · obtain ⟨j, hj, hfile, htracked⟩ := hcoherent (eq_false_of_ne_true hclose) (by omega)
        obtain rfl : i = j := Option.some.inj (hi.symm.trans hj)
        have hafter : resumeAfter tracked session = session.lastSequence := by
          unfold resumeAfter
          omega
        rw [hafter] at hprojects
        have hlength := hprojects.length
        rw [List.length_take] at hlength
        have hdelivered := deliver_delivered (C := C) events
          ({ published with lastAppendUnixNano := now } : LiveSession κ π)
        have hgrown : Grows R session published [] [] := hsame.trans (.of_below hbelow)
        rw [hsame.journalId, ← hgrown.journalId] at hprojects
        have hlast : published.lastSequence = session.lastSequence := hgrown.lastSequence
        have hnext : Projects R published.journalId (published.lastSequence + 1)
            (((file.entries.drop (session.lastSequence - 1)).take REPLAY_BATCH_SIZE).take
              events.length) events := by
          rw [hlast]
          exact hprojects
        have hgrows := Grows.of_delivered hdelivered hnext
        have hstamped : Grows R session { published with lastAppendUnixNano := now } [] [] :=
          hgrown.trans ⟨rfl, rfl, rfl, rfl, rfl, (List.append_nil _).symm, rfl, trivial⟩
        refine h.grow hheld (hstamped.trans hgrows) (fun k hk => ?_) fun p hp => ?_
        · obtain rfl : i = k := Option.some.inj (hi.symm.trans hk)
          rw [List.nil_append, List.nil_append]
          refine take_of_prefix ((List.take_prefix _ _).trans ?_) (by omega)
          exact hfile.drop _
        · rw [List.nil_append, ← hgrown.subscribers]
          exact OneJournal.mem_offers p hp

/-- A session as it begins. -/
theorem follows_begun {i : ι} {header : JournalOpen α} {now : ℕ} {sessionId projectId : String}
    {source : Source} {retainFrames : Bool} (hheader : header = J.header i)
    (hbelow : (Registry.newSession R now sessionId projectId source header retainFrames).Below
      session) :
    Follows R J i (session.append C session.openEvent) := by
  have hdelivered := deliver_delivered (C := C) [session.openEvent] session
  have hsession : [session.openEvent].foldl (LiveSession.append C) session =
      session.append C session.openEvent := rfl
  rw [hsession] at hdelivered
  refine ⟨?_, ?_, [], ?_, ?_, trivial⟩
  · rw [hdelivered.journalId, hbelow.journalId, ← hheader]
    rfl
  · rw [hdelivered.openEvent, hdelivered.journalId, hbelow.openEvent, hbelow.journalId]
    exact ⟨rfl, rfl, rfl⟩
  · rw [hdelivered.published, hdelivered.openEvent, hbelow.published]
    rfl
  · rw [hdelivered.lastSequence, hbelow.lastSequence, hbelow.openEvent]
    rfl

/-- A session begins in a registry that has none of its key. -/
theorem OneJournal.begun {origin : String × String → Option ι}
    {joined : ℕ → Option ((String × String) × String)} {left : List ℕ} {i : ι}
    {header : JournalOpen α} {now : ℕ} {sessionId projectId : String} {source : Source}
    {retainFrames : Bool} (h : OneJournal R J r origin joined left)
    (hnone : r.sessions.find? (projectId, sessionId) = none)
    (horigin : origin (projectId, sessionId) = some i) (hheader : header = J.header i)
    (hbelow : (Registry.newSession R now sessionId projectId source header retainFrames).Below
      session) :
    OneJournal R J (r.deliver C session [session.openEvent]) origin joined left ∧
      (r.deliver C session [session.openEvent]).sessions.find? (projectId, sessionId) =
        some (session.append C session.openEvent) ∧
      (session.append C session.openEvent).key = (projectId, sessionId) ∧
      (session.append C session.openEvent).lastSequence = 1 := by
  have hkey : (session.append C session.openEvent).key = (projectId, sessionId) := by
    show (session.projectId, session.sessionId) = _
    rw [hbelow.projectId, hbelow.sessionId]
    rfl
  have hfollows := follows_begun (C := C) hheader hbelow
  have hnobody : session.subscribers = [] := hbelow.subscribers
  have hdeliver : r.deliver C session [session.openEvent] =
      ⟨r.sessions.put (session.append C session.openEvent), r.offered⟩ := by
    unfold Registry.deliver
    rw [hnobody, List.flatMap_nil, List.append_nil]
    rfl
  rw [hdeliver]
  refine ⟨h.begin (hkey ▸ hnone) (hkey ▸ horigin) hfollows hnobody, ?_, hkey, ?_⟩
  · rw [Table.find?_put, if_pos hkey]
  · obtain ⟨log, hlog, hlast, -⟩ := hfollows.log
    have hpublished : (session.append C session.openEvent).published =
        session.published ++ [session.openEvent] := rfl
    rw [hpublished, hbelow.published] at hlog
    have hlength := congrArg List.length hlog
    rw [hlast]
    exact hlength.symm

theorem publishNew_oneJournal {origin : String × String → Option ι}
    {joined : ℕ → Option ((String × String) × String)} {left : List ℕ} {projectId : String}
    {now : ℕ} {tracked : TrackedFile} {file : JournalFile α} {i : ι}
    (h : OneJournal R J r origin joined left)
    (hnone : r.sessions.find? (projectId, file.header.sessionId) = none)
    (horigin : origin (projectId, file.header.sessionId) = some i)
    (hheader : file.header = J.header i) (hentries : file.entries <+: J.entries i) :
    OneJournal R J (publishNew R C projectId r now tracked file).registry origin joined left := by
  unfold publishNew
  split
  · exact h
  · obtain ⟨hbegun, hfind, hkey, hlast⟩ := h.begun (C := C) hnone horigin hheader
      (.refl (followSession R projectId now file.header))
    refine publishSlice_oneJournal hbegun (hkey ▸ hfind) fun _ _ => ⟨i, hkey ▸ horigin, hentries, ?_⟩
    rw [hlast]

/-- **A batch of a file** keeps each session one journal. -/
theorem publish_oneJournal {sys : System ι κ π} (h : sys.OneJournal R J) (now : ℕ)
    (hcoherent : ∀ replay tracked, sys.replay = some replay →
      sys.tracked replay.path = some tracked → ReplayCoherent J sys replay tracked) :
    (sys.publish R C J now).OneJournal R J := by
  unfold System.publish
  split
  · exact h
  · next replay hreplay =>
    split
    · exact h
    · next tracked htracked =>
      have hcoherent := hcoherent replay tracked hreplay htracked
      unfold ReplayCoherent at hcoherent
      unfold System.OneJournal at h ⊢
      dsimp only
      unfold publishReplayBatch System.registers
      dsimp only
      generalize hheld : sys.registry.sessions.find?
        (sys.projectId, (System.fileOf J replay).header.sessionId) = held
      have hupdated (key : String × String) (hkey : (sys.projectId,
          (System.fileOf J replay).header.sessionId) ≠ key) :
          Function.update sys.origin (sys.projectId, (System.fileOf J replay).header.sessionId)
            (some replay.origin) key = sys.origin key :=
        Function.update_of_ne (Ne.symm hkey) _ _
      cases hsuperseded : supersededBy held (System.fileOf J replay).header with
      | some session =>
        obtain ⟨rfl, hdiffers⟩ := Option.filter_eq_some_iff.mp hsuperseded
        dsimp only
        cases hfirst : replay.first with
        | false =>
          simp only [Bool.not_false, if_true, Bool.false_eq_true, if_false]
          exact h
        | true =>
          simp only [Bool.not_true, Bool.false_eq_true, if_false, if_true]
          have hkey := Table.key_of_find? hheld
          have hreset := h.reset (hkey ▸ hheld) (System.fileOf J replay).header.journalId
          have hnone (key : String × String) := OneJournal.find?_delete_key
            (r := sys.registry) session.key key
          refine publishNew_oneJournal (i := replay.origin) (hreset.of_origin ?_) ?_ ?_ rfl
            (List.take_prefix _ _)
          · intro key other hother
            refine hupdated key ?_
            rintro rfl
            unfold Registry.resetSession at hother
            dsimp only at hother
            rw [hnone, if_pos hkey.symm] at hother
            cases hother
          · unfold Registry.resetSession
            dsimp only
            rw [hnone, if_pos hkey.symm]
          · exact Function.update_self _ _ _
      | none =>
        dsimp only
        cases held with
        | none =>
          simp only [Option.isNone_none, if_true]
          refine publishNew_oneJournal (i := replay.origin) (h.of_origin ?_) hheld ?_ rfl
            (List.take_prefix _ _)
          · intro key other hother
            refine hupdated key ?_
            rintro rfl
            rw [hheld] at hother
            cases hother
          · exact Function.update_self _ _ _
        | some session =>
          simp only [Option.isNone_some, Bool.false_eq_true, if_false]
          have hkey := Table.key_of_find? hheld
          refine publishSlice_oneJournal h (hkey ▸ hheld) fun hopen hroom => ?_
          have hsame : session.journalId = (J.header replay.origin).journalId := by
            by_contra hdiffers
            unfold supersededBy at hsuperseded
            rw [Option.filter_some] at hsuperseded
            split at hsuperseded
            · cases hsuperseded
            · next hnot => exact hnot (decide_eq_true hdiffers)
          obtain ⟨horigin, hle⟩ := hcoherent session hheld hsame hopen hroom
          exact ⟨replay.origin, hkey ▸ horigin, List.take_prefix _ _, hle⟩

/-! ## Uploads -/

theorem openingHeader_some {upload : Upload} {decoded : List (Decoded α)}
    {header : JournalOpen α} (h : openingHeader upload decoded = .ok (some header)) :
    header.sessionId = upload.sessionId ∧
      ∃ first rest, decoded = first :: rest ∧ first.entry = .opened header := by
  unfold openingHeader at h
  split at h
  · split at h
    · split at h
      · cases h
      · split at h
        · cases h
        · next hsession =>
          obtain rfl := Option.some.inj (Except.ok.inj h)
          exact ⟨not_not.mp hsession, _, _, rfl, rfl⟩
    · cases h
  · cases Except.ok.inj h

omit [DecidableEq κ] in
/-- Frames of a writer's journal that are numbered from a sequence on. -/
theorem genuine_prefix {i : ι} (fresh : List (Decoded α × List κ)) (n : ℕ)
    (hsequences : fresh.map (fun item => item.1.sequence) = List.range' (n + 2) fresh.length)
    (hgenuine : ∀ item ∈ fresh, (J.all i)[item.1.sequence - 1]? = some item.1.entry) :
    (fresh.map fun item => item.1.entry) <+: (J.entries i).drop n := by
  induction fresh generalizing n with
  | nil => exact List.nil_prefix
  | cons item rest ih =>
    rw [List.map_cons, List.length_cons, List.range'_succ] at hsequences
    obtain ⟨hsequence, hrest⟩ := List.cons.inj hsequences
    have hentry := hgenuine item List.mem_cons_self
    unfold Journals.all at hentry
    rw [hsequence, show n + 2 - 1 = n + 1 by omega, List.getElem?_cons_succ] at hentry
    obtain ⟨hlt, hget⟩ := List.getElem?_eq_some_iff.mp hentry
    rw [List.map_cons, List.drop_eq_getElem_cons hlt, hget, List.cons_prefix_cons]
    exact ⟨rfl, ih (n + 1) hrest fun other hother =>
      hgenuine other (List.mem_cons_of_mem _ hother)⟩

/-- **The frames that are new** go to the session they continue. -/
theorem commit_oneJournal {origin : String × String → Option ι}
    {joined : ℕ → Option ((String × String) × String)} {left : List ℕ} {now n : ℕ}
    {fresh : List (Decoded α × List κ)} (h : OneJournal R J r origin joined left)
    (hheld : r.sessions.find? session.key = some session)
    (hsequences : fresh.map (fun item => item.1.sequence) = List.range' n fresh.length)
    (hnext : max n 2 = session.lastSequence + 1)
    (hentries : (feed R C session fresh).2 ≠ none → ∀ i, origin session.key = some i →
      (fresh.map fun item => item.1.entry).drop (2 - n) <+:
        (J.entries i).drop (session.lastSequence - 1)) :
    OneJournal R J (commit R C r now session fresh).2 origin joined left := by
  have hbelow := LiveSession.Below.feed (R := R) (C := C) fresh session
  unfold commit
  split
  · next fed heq =>
    rw [heq] at hbelow
    exact h.touch hheld (.of_below hbelow)
  · next fed heq =>
    rw [heq] at hbelow
    exact h.touch hheld ((Grows.of_below hbelow).trans
      ⟨rfl, rfl, rfl, rfl, rfl, (List.append_nil _).symm, rfl, trivial⟩)
  · next fed events hsome heq =>
    rw [heq] at hbelow
    have hfeed : (feed R C session fresh).2 = some events := by rw [heq]
    have hprojects := feed_projects fresh session n hfeed hsequences
    rw [hnext] at hprojects
    have hlength := hprojects.length
    have hstamped : Grows R session
        (({ fed with lastAppendUnixNano := now } : LiveSession κ π).record fresh) [] [] :=
      (Grows.of_below hbelow).trans
        ⟨rfl, rfl, rfl, rfl, rfl, (List.append_nil _).symm, rfl, trivial⟩
    have hgrows := Grows.of_delivered (R := R) (deliver_delivered (C := C) events
      (({ fed with lastAppendUnixNano := now } : LiveSession κ π).record fresh)) (by
        rw [hstamped.journalId, hstamped.lastSequence]
        exact hprojects)
    refine h.grow hheld (hstamped.trans hgrows) (fun i hi => ?_) fun p hp => ?_
    · rw [List.nil_append, List.nil_append, ← hlength]
      exact List.prefix_iff_eq_take.mp (hentries (by rw [hfeed]; simp) i hi)
    · rw [List.nil_append, ← hstamped.subscribers]
      exact OneJournal.mem_offers p hp

omit [DecidableEq κ] in
/-- The frames a session lacks that lie past the header are entries of the
writer's journal. -/
theorem Planned.genuine {r : Registry κ π} {sent : Sent R C J} {p : Plan α κ π}
    (hp : Planned R C r sent.upload p) :
    ∀ item ∈ p.fresh, 1 ≤ item.1.sequence →
      (J.all sent.origin)[item.1.sequence - 1]? = some item.1.entry := by
  intro item hitem hpos
  have hmem : item.1 ∈ newFrames p.session p.decoded := hp.fresh ▸ List.mem_map_of_mem hitem
  exact sent.genuine p.decoded hp.decodes item.1 (List.mem_filter.mp hmem).1 hpos

omit [DecidableEq κ] in
/-- The frames a kept session lacks are numbered from the one after its last. -/
theorem Planned.fresh_sequences {r : Registry κ π} {upload : Upload} {p : Plan α κ π}
    (hp : Planned R C r upload p) (hsession : p.session = some session) :
    p.fresh.map (fun item => item.1.sequence) =
      List.range' (session.lastSequence + 1) p.fresh.length := by
  have hfresh := hp.fresh
  rw [hsession] at hfresh
  have hnew : p.fresh.map (fun item => item.1.sequence) =
      List.range' (session.lastSequence + 1)
        (upload.firstSequence + p.decoded.length - (session.lastSequence + 1)) := by
    rw [← filter_range' _ _ _ (hp.first session hsession), ← hp.sequences, ← map_newFrames,
      ← hfresh, List.map_map]
    rfl
  have hlength := congrArg List.length hnew
  rw [List.length_map, List.length_range'] at hlength
  rw [hnew, hlength]

/-- A session that is kept grows by the frames it lacks. -/
theorem upload_kept_oneJournal {sys : System ι κ π} (h : sys.OneJournal R J) (sent : Sent R C J)
    {p : Plan α κ π} (hplan : plan R C sys.registry sent.upload = .ok p)
    (hsession : p.session = some session)
    (hadds : p.fresh = [] ∨ ¬ Rendered R session.journalId session.exportGate p.fresh ∨
      sys.origin sent.upload.key = some sent.origin) :
    (sys.upload R C J sent).OneJournal R J := by
  have hp := plan_planned hplan
  unfold System.OneJournal at h ⊢
  unfold System.upload acceptFrames
  simp only [hplan, hsession]
  rw [if_neg (by simp)]
  have hheld := hp.kept session hsession
  have hkey : session.key = sent.upload.key := Table.key_of_find? hheld
  obtain ⟨i, hi, hfollows⟩ := h.follows _ session hheld
  obtain ⟨log, -, hlast, -⟩ := hfollows.log
  have hsequences := hp.fresh_sequences hsession
  refine commit_oneJournal h (hkey ▸ hheld) hsequences (by omega) fun hfed j hj => ?_
  rw [show 2 - (session.lastSequence + 1) = 0 by omega, List.drop_zero]
  rcases hadds with hnone | hunrendered | horigin
  · rw [hnone]
    exact List.nil_prefix
  · exact absurd ((feed_rendered p.fresh session).mp hfed) hunrendered
  · obtain rfl : sent.origin = j :=
      Option.some.inj (horigin.symm.trans (hkey ▸ hj))
    refine genuine_prefix p.fresh (session.lastSequence - 1) ?_ fun item hitem => ?_
    · rw [hsequences, show session.lastSequence - 1 + 2 = session.lastSequence + 1 by omega]
    · refine hp.genuine item hitem ?_
      have hmem : item.1.sequence ∈ p.fresh.map fun item => item.1.sequence :=
        List.mem_map_of_mem hitem
      rw [hsequences] at hmem
      have := (List.mem_range'_1.mp hmem).1
      omega

/-- One that is not begins anew, with the header of the writer's journal. -/
theorem upload_begun_oneJournal {sys : System ι κ π} (h : sys.OneJournal R J) (sent : Sent R C J)
    {p : Plan α κ π} (hplan : plan R C sys.registry sent.upload = .ok p)
    (hsession : p.session = none) :
    (sys.upload R C J sent).OneJournal R J := by
  have hp := plan_planned hplan
  unfold System.OneJournal at h ⊢
  unfold System.upload acceptFrames
  simp only [hplan, hsession, Option.isNone_none, if_true]
  obtain ⟨hheld, hone, hsome⟩ := hp.begun hsession
  cases hheader : p.header with
  | none => exact absurd hheader hsome
  | some header =>
    dsimp only
    have hopening := (plan_planned hplan).header
    rw [hheader] at hopening
    obtain ⟨hsessionId, first, rest, hdecoded, hfirst⟩ := openingHeader_some hopening
    have hwithout (key : String × String) :
        (sys.registry.without p.replaced header).sessions.find? key =
          if key = sent.upload.key then none else sys.registry.sessions.find? key :=
      find?_without hheld key
    have hreset : OneJournal R J (sys.registry.without p.replaced header) sys.origin
        sys.joined sys.left := by
      unfold Registry.without
      split
      · next session hreplaced =>
        have hkey : session.key = sent.upload.key := Table.key_of_find? (hheld.trans hreplaced)
        exact h.reset (hkey ▸ hheld.trans hreplaced) header.journalId
      · exact h
    have hbefore : OneJournal R J (sys.registry.without p.replaced header)
        (Function.update sys.origin sent.upload.key (some sent.origin)) sys.joined
        sys.left := by
      refine hreset.of_origin fun key other hother => Function.update_of_ne ?_ _ _
      rintro rfl
      rw [hwithout, if_pos rfl] at hother
      cases hother
    split
    · exact hbefore
    · -- the batch begins with the header of the writer's journal
      have hfresh := hp.fresh
      rw [hsession, newFrames_none] at hfresh
      have hmapped : p.fresh.map (fun item => item.1.sequence) =
          p.decoded.map (·.sequence) := by
        rw [← hfresh, List.map_map]
        rfl
      have hlength : p.fresh.length = p.decoded.length := by
        rw [← hfresh, List.length_map]
      have hsequences : p.fresh.map (fun item => item.1.sequence) =
          List.range' 1 p.fresh.length := by
        rw [hmapped, hp.sequences, hone, hlength]
      have horigin : header = J.header sent.origin := by
        have hnumber : first.sequence = 1 := by
          have hsequences := hp.sequences
          rw [hdecoded, List.map_cons, List.length_cons, List.range'_succ, hone] at hsequences
          exact (List.cons.inj hsequences).1
        have hentry := sent.genuine p.decoded hp.decodes first
          (hdecoded ▸ List.mem_cons_self) (by omega)
        rw [hnumber, hfirst] at hentry
        unfold Journals.all at hentry
        exact (Checkpoint.JournalEntry.opened.inj (Option.some.inj hentry)).symm
      have hnone : (sys.registry.without p.replaced header).sessions.find?
          (sent.upload.projectId, sent.upload.sessionId) = none := by
        rw [show (sent.upload.projectId, sent.upload.sessionId) = sent.upload.key from rfl,
          hwithout, if_pos rfl]
      obtain ⟨hbegun, hfind, hkey, hlast⟩ := hbefore.begun (C := C) hnone
        (Function.update_self _ _ _) horigin
        (.refl (Registry.newSession R sent.upload.now sent.upload.sessionId
          sent.upload.projectId .checkpoint header true))
      refine commit_oneJournal hbegun (hkey ▸ hfind) hsequences (by rw [hlast]; rfl)
        fun _ j hj => ?_
      rw [hkey] at hj
      have hown : Function.update sys.origin sent.upload.key (some sent.origin)
          (sent.upload.projectId, sent.upload.sessionId) = some sent.origin :=
        Function.update_self _ _ _
      obtain rfl : sent.origin = j := Option.some.inj (hown.symm.trans hj)
      rw [hlast]
      cases hitems : p.fresh with
      | nil => exact List.nil_prefix
      | cons item items =>
        rw [hitems, List.map_cons, List.length_cons, List.range'_succ] at hsequences
        obtain ⟨-, hrest⟩ := List.cons.inj hsequences
        refine genuine_prefix items 0 hrest fun other hother => ?_
        refine hp.genuine other (hitems ▸ List.mem_cons_of_mem _ hother) ?_
        have hmem : other.1.sequence ∈ items.map fun item => item.1.sequence :=
          List.mem_map_of_mem hother
        rw [hrest] at hmem
        have := (List.mem_range'_1.mp hmem).1
        omega

/-- **An upload** keeps each session one journal. -/
theorem upload_oneJournal {sys : System ι κ π} (h : sys.OneJournal R J) (sent : Sent R C J)
    (hcoherent : UploadCoherent J sys sent) : (sys.upload R C J sent).OneJournal R J := by
  cases hplan : plan R C sys.registry sent.upload with
  | error e =>
    unfold System.upload acceptFrames
    rw [hplan]
    exact h
  | ok p =>
    cases hsession : p.session with
    | some session =>
      exact upload_kept_oneJournal h sent hplan hsession
        ((hcoherent p hplan).1 session hsession)
    | none => exact upload_begun_oneJournal h sent hplan hsession

/-! ## Capture appends -/

omit [DecidableEq κ] in
theorem preflightEntries_map {policy : π} {allowOpen : Bool}
    {entries : List (Checkpoint.JournalEntry α)}
    {checked : List (Checkpoint.JournalEntry α × List κ)}
    (h : preflightEntries R policy allowOpen entries = some checked) :
    checked.map Prod.fst = entries := by
  induction entries generalizing allowOpen checked with
  | nil =>
    obtain rfl := Option.some.inj h
    rfl
  | cons entry rest ih =>
    unfold preflightEntries at h
    split at h
    · cases h
    · obtain ⟨tail, htail, rfl⟩ := Option.map_eq_some_iff.mp h
      rw [List.map_cons, ih htail]

omit [DecidableEq κ] in
theorem encodeEntries_map {sequence : ℕ} {checked : List (Checkpoint.JournalEntry α × List κ)}
    {fresh : List (Decoded α × List κ)}
    (h : encodeEntries C encode sequence checked = some fresh) :
    (fresh.map fun item => item.1.entry) = checked.map Prod.fst := by
  induction checked generalizing sequence fresh with
  | nil =>
    obtain rfl := Option.some.inj h
    rfl
  | cons item rest ih =>
    obtain ⟨entry, classes⟩ := item
    unfold encodeEntries at h
    split at h
    · cases h
    · split at h
      · cases h
      · obtain ⟨tail, htail, rfl⟩ := Option.map_eq_some_iff.mp h
        rw [List.map_cons, List.map_cons, ih htail]

/-- **The entries a call appends** go to the session it continues. -/
theorem appendRecords_oneJournal {origin : String × String → Option ι}
    {joined : ℕ → Option ((String × String) × String)} {left : List ℕ} {now : ℕ}
    {fresh : List (Decoded α × List κ)} (h : OneJournal R J r origin joined left)
    (hheld : r.sessions.find? session.key = some session)
    (hentries : ∀ i, origin session.key = some i →
      (fresh.map fun item => item.1.entry) <+: (J.entries i).drop (session.lastSequence - 1)) :
    OneJournal R J (appendRecords R C r now session fresh) origin joined left := by
  obtain ⟨appended, hgrows, hevents⟩ := appendEach_spec (R := R) (C := C) fresh session
  have hlength := hgrows.projects.length
  rw [List.length_take] at hlength
  have hnext (i : ι) (hi : origin session.key = some i) :
      (fresh.map fun item => item.1.entry).take appended.length =
        ((J.entries i).drop (session.lastSequence - 1)).take appended.length :=
    take_of_prefix (hentries i hi) (by omega)
  unfold appendRecords
  split
  · next appending heq =>
    rw [heq] at hgrows
    exact h.grow_silent hheld hgrows hnext
  · next appending heq =>
    rw [heq] at hgrows
    exact h.grow_silent hheld hgrows hnext
  · next appending events hsome heq =>
    rw [heq] at hgrows hevents
    obtain rfl := hevents events rfl
    have hstamped : Grows R session { appending with lastAppendUnixNano := now }
        ((fresh.map fun item => item.1.entry).take events.length) events :=
      ⟨hgrows.key, hgrows.source, hgrows.journalId, hgrows.openEvent, hgrows.subscribers,
        hgrows.published, hgrows.lastSequence, hgrows.projects⟩
    refine h.grow hheld hstamped hnext fun p hp => ?_
    rw [← hgrows.subscribers]
    exact OneJournal.mem_offers p hp

/-- A journal's header is at its beginning. -/
theorem leadingHeader_drop {i : ι} {skip count : ℕ} {header : JournalOpen α}
    (h : leadingHeader (((J.all i).drop skip).take count) = some header) :
    header = J.header i ∧
      ((((J.all i).drop skip).take count).tail <+: J.entries i) := by
  cases skip with
  | zero =>
    rw [List.drop_zero] at h ⊢
    cases count with
    | zero => cases h
    | succ count =>
      unfold Journals.all at h ⊢
      rw [List.take_succ_cons] at h ⊢
      exact ⟨(Option.some.inj h).symm, List.take_prefix _ _⟩
  | succ skip =>
    -- no later entry is a header
    unfold Journals.all leadingHeader at h
    rw [List.drop_succ_cons] at h
    split at h
    · next opened rest heq =>
      have hmem : Checkpoint.JournalEntry.opened opened ∈ J.entries i := by
        refine List.mem_of_mem_drop (List.mem_of_mem_take (heq ▸ List.mem_cons_self : _ ∈ _))
      exact absurd (J.plain i _ hmem) (by simp [Checkpoint.JournalEntry.isOpened])
    · cases h

/-- **A call's append** keeps each session one journal. -/
theorem capture_oneJournal {sys : System ι κ π} (h : sys.OneJournal R J) (i : ι)
    (projectId : String) (skip count now : ℕ)
    (hcoherent : AppendCoherent encode sys R C i skip
      (System.nextAppend J i projectId skip count now)) :
    (sys.capture R C encode i (System.nextAppend J i projectId skip count now)).OneJournal
      R J := by
  unfold AppendCoherent at hcoherent
  generalize happend : System.nextAppend J i projectId skip count now = append at hcoherent ⊢
  have hentries : append.entries = ((J.all i).drop skip).take count := by rw [← happend]; rfl
  unfold System.OneJournal at h ⊢
  unfold System.capture acceptRecords
  dsimp only
  cases hheld : sys.registry.sessions.find? append.key with
  | none =>
    simp only [Option.isNone_none, if_true]
    have hbefore : OneJournal R J sys.registry
        (Function.update sys.origin append.key (some i)) sys.joined sys.left := by
      refine h.of_origin fun key other hother => Function.update_of_ne ?_ _ _
      rintro rfl
      rw [hheld] at hother
      cases hother
    split
    · exact hbefore
    · next checked hchecked =>
      unfold registerRecords
      split
      · exact hbefore
      · next header hheader =>
        rw [hentries] at hheader
        obtain ⟨hown, hprefix⟩ := leadingHeader_drop hheader
        split
        · exact hbefore
        · split
          · next frame fresh hframe hfresh =>
            split
            · exact hbefore
            · have horigin : Function.update sys.origin append.key (some i)
                  (append.projectId, append.sessionId) = some i := Function.update_self _ _ _
              obtain ⟨hbegun, hfind, hkey, hlast⟩ := hbefore.begun (C := C) hheld horigin hown
                (.keepFrame (Registry.newSession R append.now append.sessionId append.projectId
                  .capture header true) ⟨1, .opened header, frame⟩)
              refine appendRecords_oneJournal hbegun (hkey ▸ hfind) fun j hj => ?_
              rw [hkey] at hj
              obtain rfl : i = j := Option.some.inj (horigin.symm.trans hj)
              rw [hlast, encodeEntries_map hfresh, List.map_tail, preflightEntries_map hchecked,
                hentries]
              exact hprefix
          · exact hbefore
  | some session =>
    simp only [Option.isNone_some, Bool.false_eq_true, if_false]
    have hkey : session.key = append.key := Table.key_of_find? hheld
    obtain ⟨j, hj, hfollows⟩ := h.follows _ session hheld
    obtain ⟨log, -, hlast, -⟩ := hfollows.log
    split
    · exact h
    · next checked hchecked =>
      split
      · exact h
      · next hopen =>
        split
        · exact h
        · next fresh hfresh =>
          refine appendRecords_oneJournal h (hkey ▸ hheld) fun k hk => ?_
          rw [encodeEntries_map hfresh, preflightEntries_map hchecked]
          rcases hcoherent session hheld with hnone | hclosed | hrefused | ⟨horigin, hskip⟩
          · rw [hnone]
            exact List.nil_prefix
          · exact absurd hclosed hopen
          · unfold Append.admitted at hrefused
            rw [hchecked] at hrefused
            dsimp only [Option.any] at hrefused
            rw [hfresh] at hrefused
            cases hrefused
          · obtain rfl : i = k := Option.some.inj (horigin.symm.trans (hkey ▸ hk))
            rw [hentries, hskip]
            unfold Journals.all
            rw [show session.lastSequence = session.lastSequence - 1 + 1 by omega,
              List.drop_succ_cons, Nat.add_sub_cancel]
            exact List.take_prefix _ _

/-! ## Subscribers -/

namespace System

variable {sys : System ι κ π}

theorem detach_oneJournal (h : sys.OneJournal R J) (key : String × String) :
    (sys.detach key).OneJournal R J := by
  unfold detach
  split
  · exact h
  · next session hheld =>
    have hkey : session.key = key := Table.key_of_find? hheld
    have hdropped := OneJournal.drop h (hkey ▸ hheld)
    rw [hkey] at hdropped
    exact hdropped

theorem removed_oneJournal (h : sys.OneJournal R J) (path : String) :
    (sys.removed path).OneJournal R J := by
  unfold removed
  split
  · exact h
  · dsimp only
    split
    · exact h
    · next sessionId _ =>
      have hpopped : ({ sys with tracked := Function.update sys.tracked path none } :
          System ι κ π).OneJournal R J := h
      exact detach_oneJournal hpopped (sys.projectId, sessionId)

theorem join_oneJournal (h : sys.OneJournal R J) (subscriber : ℕ) (key : String × String) :
    (sys.join subscriber key).OneJournal R J := by
  unfold join
  split
  · next session hfree hheld =>
    have hkey : session.key = key := Table.key_of_find? hheld
    have hother (other : ℕ) (place : (String × String) × String)
        (hjoined : sys.joined other = some place) :
        Function.update sys.joined subscriber (some (key, session.journalId)) other =
          some place := by
      rw [Function.update_of_ne, hjoined]
      rintro rfl
      rw [hfree] at hjoined
      cases hjoined
    refine OneJournal.resubscribe h (hkey ▸ hheld) hother (fun other hmem => ?_)
      (fun other key' journalId hjoined => ?_)
      (fun other hmem => .inl (List.mem_append_left _ hmem)) fun _ hmem => hmem
    · rcases List.mem_append.mp hmem with hold | hnew
      · exact hother other _ (h.subscribed _ session (hkey ▸ hheld) other hold)
      · obtain rfl := List.mem_singleton.mp hnew
        dsimp only
        rw [Function.update_self, hkey]
    · dsimp only at hjoined
      by_cases hself : other = subscriber
      · rw [hself, Function.update_self] at hjoined
        obtain ⟨rfl, rfl⟩ := Prod.mk.inj (Option.some.inj hjoined)
        exact .inr ⟨hkey.symm, rfl, hself ▸ List.mem_append_right _ (List.mem_singleton_self _)⟩
      · rw [Function.update_of_ne hself] at hjoined
        exact .inl hjoined
  · exact h

theorem leave_oneJournal (h : sys.OneJournal R J) (subscriber : ℕ) (key : String × String) :
    (sys.leave subscriber key).OneJournal R J := by
  unfold leave
  split
  · exact h
  · next session hheld =>
    have hkey : session.key = key := Table.key_of_find? hheld
    refine OneJournal.resubscribe h (hkey ▸ hheld) (fun _ _ hjoined => hjoined)
      (fun other hmem => ?_) (fun _ _ _ hjoined => .inl hjoined) (fun other hmem => ?_)
      fun other hmem => List.mem_append_left _ hmem
    · exact h.subscribed _ session (hkey ▸ hheld) other (List.mem_filter.mp hmem).1
    · by_cases hself : other = subscriber
      · rw [hself]
        exact .inr (List.mem_append_right _ (List.mem_singleton_self _))
      · exact .inl (List.mem_filter.mpr ⟨hmem, decide_eq_true hself⟩)

/-- **One step keeps each session one journal.** -/
theorem step_oneJournal (h : sys.OneJournal R J) (op : SystemOp R C J)
    (hcoherent : Coherent encode sys op) : (sys.step R C J encode op).OneJournal R J := by
  cases op with
  | read path origin count =>
    unfold step
    dsimp only
    split
    · exact h
    · exact h
  | publish now => exact publish_oneJournal h now hcoherent
  | removed path =>
    unfold step
    dsimp only
    split
    · exact h
    · exact removed_oneJournal h path
  | upload sent => exact upload_oneJournal h sent hcoherent
  | capture origin projectId skip count now =>
    exact capture_oneJournal h origin projectId skip count now hcoherent
  | drop key => exact detach_oneJournal h key
  | join subscriber key => exact join_oneJournal h subscriber key
  | leave subscriber key => exact leave_oneJournal h subscriber key

theorem init_oneJournal (projectId : String) :
    (System.init projectId : System ι κ π).OneJournal R J :=
  ⟨fun key session h => (by cases h), fun key session h => (by cases h),
    fun subscriber event h => absurd h List.not_mem_nil, fun subscriber key journalId h => (by cases h)⟩

/-- **A whole run keeps each session one journal.** -/
theorem oneJournal_run {ops : List (SystemOp R C J)} (h : sys.OneJournal R J)
    (hcoherent : ∀ pre op post, ops = pre ++ op :: post →
      Coherent encode (sys.run R C J encode pre) op) :
    (sys.run R C J encode ops).OneJournal R J := by
  induction ops generalizing sys with
  | nil => exact h
  | cons op ops ih =>
    refine ih (step_oneJournal h op (hcoherent [] op ops rfl)) fun pre op' post hops => ?_
    exact hcoherent (op :: pre) op' post (by rw [hops]; rfl)

end System

/-! ## Nothing is displaced -/

/-- The session of a key keeps its log. -/
def KeptAt (r r' : Registry κ π) (key : String × String) : Prop :=
  ∀ session, r.sessions.find? key = some session →
    ∃ session', r'.sessions.find? key = some session' ∧
      session'.journalId = session.journalId ∧ session.published <+: session'.published

namespace KeptAt

variable {r'' : Registry κ π} {key : String × String}

omit [DecidableEq κ] in
theorem of_find (h : r'.sessions.find? key = r.sessions.find? key) : KeptAt r r' key :=
  fun session hsession => ⟨session, h.trans hsession, rfl, List.prefix_refl _⟩

omit [DecidableEq κ] in
theorem trans (h : KeptAt r r' key) (h' : KeptAt r' r'' key) : KeptAt r r'' key := by
  intro session hsession
  obtain ⟨session', hsession', hjournal, hpublished⟩ := h session hsession
  obtain ⟨session'', hsession'', hjournal', hpublished'⟩ := h' session' hsession'
  exact ⟨session'', hsession'', hjournal'.trans hjournal, hpublished.trans hpublished'⟩

theorem of_grows {entries : List (Checkpoint.JournalEntry α)} {events : List LiveEvent}
    (hheld : r.sessions.find? session.key = some session)
    (hgrows : Grows R session session' entries events)
    (hput : r'.sessions = r.sessions.put session') : KeptAt r r' key := by
  intro found hfound
  rw [hput, Table.find?_put, hgrows.key]
  split
  · next heq =>
    obtain rfl : session = found := Option.some.inj (hheld.symm.trans (heq ▸ hfound))
    exact ⟨session', rfl, hgrows.journalId, hgrows.published ▸ List.prefix_append _ _⟩
  · exact ⟨found, hfound, rfl, List.prefix_refl _⟩

omit [DecidableEq κ] in
theorem of_begun (hnone : r.sessions.find? session.key = none)
    (hput : r'.sessions = r.sessions.put session) : KeptAt r r' key := by
  intro found hfound
  rw [hput, Table.find?_put, if_neg]
  · exact ⟨found, hfound, rfl, List.prefix_refl _⟩
  · rintro rfl
    rw [hnone] at hfound
    cases hfound

end KeptAt

theorem commit_keptAt {now : ℕ} {fresh : List (Decoded α × List κ)} {key : String × String}
    (hheld : r.sessions.find? session.key = some session) :
    KeptAt r (commit R C r now session fresh).2 key := by
  have hbelow := LiveSession.Below.feed (R := R) (C := C) fresh session
  cases hfeed : (feed R C session fresh).2 with
  | none =>
    rw [commit_raises hfeed]
    exact .of_grows hheld (Grows.of_below (R := R) hbelow) rfl
  | some events =>
    obtain ⟨r', session', unixNano, hcommit, hput, hdelivered⟩ := commit_ok (r := r) now hfeed
    rw [hcommit]
    intro found hfound
    have hkey : session'.key = session.key := by
      unfold LiveSession.key
      rw [hdelivered.projectId, hdelivered.sessionId]
      exact (Grows.of_below (R := R) hbelow).key
    rw [hput, Table.find?_put, hkey]
    split
    · next heq =>
      obtain rfl : session = found := Option.some.inj (hheld.symm.trans (heq ▸ hfound))
      refine ⟨session', rfl, hdelivered.journalId.trans hbelow.journalId, ?_⟩
      rw [hdelivered.published, ← hbelow.published]
      exact List.prefix_append _ _
    · exact ⟨found, hfound, rfl, List.prefix_refl _⟩

theorem appendRecords_keptAt {now : ℕ} {fresh : List (Decoded α × List κ)}
    {key : String × String} (hheld : r.sessions.find? session.key = some session) :
    KeptAt r (appendRecords R C r now session fresh) key := by
  obtain ⟨appended, hgrows, -⟩ := appendEach_spec (R := R) (C := C) fresh session
  unfold appendRecords
  split
  · next appending heq =>
    rw [heq] at hgrows
    exact .of_grows hheld hgrows rfl
  · next appending heq =>
    rw [heq] at hgrows
    exact .of_grows hheld hgrows rfl
  · next appending events _ heq =>
    rw [heq] at hgrows
    have hstamped : Grows R session { appending with lastAppendUnixNano := now } _ _ :=
      ⟨hgrows.key, hgrows.source, hgrows.journalId, hgrows.openEvent, hgrows.subscribers,
        hgrows.published, hgrows.lastSequence, hgrows.projects⟩
    exact .of_grows hheld hstamped rfl

omit [DecidableEq κ] in
/-- A session that begins leaves the others. -/
theorem deliver_keptAt {key : String × String} (hnone : r.sessions.find? session.key = none) :
    KeptAt r (r.deliver C session [session.openEvent]) key ∧
      (r.deliver C session [session.openEvent]).sessions.find? session.key =
        some (session.append C session.openEvent) := by
  have hkey : (session.append C session.openEvent).key = session.key := rfl
  refine ⟨.of_begun (hkey ▸ hnone) rfl, ?_⟩
  unfold Registry.deliver
  rw [Table.find?_put]
  exact if_pos rfl

/-- **No step from another source displaces** a session that follows a
file. -/
theorem step_undisplaced {sys : System ι κ π} (op : SystemOp R C J)
    (hcoherent : Coherent encode sys op) : Undisplaced sys (sys.step R C J encode op) op := by
  cases op with
  | upload sent =>
    intro key session hsession hsource
    refine (?_ : KeptAt sys.registry (acceptFrames R C sys.registry sent.upload).2 key) session
      hsession
    unfold acceptFrames
    cases hplan : plan R C sys.registry sent.upload with
    | error e => exact .of_find rfl
    | ok p =>
      have hp := plan_planned hplan
      obtain ⟨-, hreplaced⟩ := hcoherent p hplan
      dsimp only
      cases hkept : p.session with
      | some held =>
        have hheld := hp.kept held hkept
        have hkey : held.key = sent.upload.key := Table.key_of_find? hheld
        exact commit_keptAt (hkey ▸ hheld)
      | none =>
        obtain ⟨hheld, -, hsome⟩ := hp.begun hkept
        cases hheader : p.header with
        | none => exact absurd hheader hsome
        | some header =>
          dsimp only
          have hne : key ≠ sent.upload.key := by
            rintro rfl
            exact hreplaced session (hheld.symm.trans hsession) hsource
          have hwithout (key : String × String) :
              (sys.registry.without p.replaced header).sessions.find? key =
                if key = sent.upload.key then none else sys.registry.sessions.find? key :=
            find?_without hheld key
          have hspared : KeptAt sys.registry (sys.registry.without p.replaced header) key := by
            refine .of_find ?_
            rw [hwithout, if_neg hne]
          split
          · exact hspared
          · have hnone : (sys.registry.without p.replaced header).sessions.find?
                (Registry.newSession R sent.upload.now sent.upload.sessionId
                  sent.upload.projectId .checkpoint header true).key = none := by
              rw [hwithout]
              exact if_pos rfl
            obtain ⟨hdelivered, hfind⟩ := deliver_keptAt (C := C) hnone
            exact (hspared.trans hdelivered).trans (commit_keptAt hfind)
  | capture origin projectId skip count now =>
    intro key session hsession hsource
    suffices hkept : ∀ append, KeptAt sys.registry
        (acceptRecords R C encode sys.registry append) key from hkept _ session hsession
    intro append
    unfold acceptRecords
    dsimp only
    split
    · exact .of_find rfl
    · next checked hchecked =>
      cases hheld : sys.registry.sessions.find? append.key with
      | none =>
        dsimp only
        unfold registerRecords
        split
        · exact .of_find rfl
        · next header hheader =>
          split
          · exact .of_find rfl
          · split
            · next frame fresh hframe hfresh =>
              split
              · exact .of_find rfl
              · have hbelow := LiveSession.Below.keepFrame (C := C)
                  (Registry.newSession R append.now append.sessionId append.projectId .capture
                    header true) ⟨1, .opened header, frame⟩
                have hkey := (Grows.of_below (R := R) hbelow).key
                have hnone := hheld
                rw [show append.key = (Registry.newSession R append.now append.sessionId
                  append.projectId .capture header true).key from rfl, ← hkey] at hnone
                obtain ⟨hdelivered, hfind⟩ := deliver_keptAt (C := C) hnone
                exact hdelivered.trans (appendRecords_keptAt hfind)
            · exact .of_find rfl
      | some held =>
        have hkey : held.key = append.key := Table.key_of_find? hheld
        dsimp only
        split
        · exact .of_find rfl
        · split
          · exact .of_find rfl
          · exact appendRecords_keptAt (hkey ▸ hheld)
  | _ => trivial

/-- **A session is one journal**: in every run whose batches, uploads and
appends go to the session of their own writer's journal, no further on than it
is, each session's log is the first entries of one journal, no subscriber is
offered another's, and no session that follows a file is displaced. -/
theorem run_oneJournal (R : Governance α κ π) (C : LiveConfig) (J : Journals ι α)
    (encode : ℕ → Checkpoint.JournalEntry α → Option Bytes) (projectId : String)
    (ops : List (SystemOp R C J))
    (hcoherent : ∀ pre op post, ops = pre ++ op :: post →
      Coherent encode ((System.init projectId : System ι κ π).run R C J encode pre) op) :
    (∀ pre, pre <+: ops →
      ((System.init projectId : System ι κ π).run R C J encode pre).OneJournal R J) ∧
      ∀ pre op post, ops = pre ++ op :: post →
        Undisplaced ((System.init projectId : System ι κ π).run R C J encode pre)
          (((System.init projectId : System ι κ π).run R C J encode pre).step R C J encode op)
          op := by
  constructor
  · rintro pre ⟨rest, rfl⟩
    refine System.oneJournal_run (System.init_oneJournal projectId) fun first op last hpre => ?_
    exact hcoherent first op (last ++ rest) (by rw [hpre, List.append_assoc]; rfl)
  · exact fun pre op post hops => step_undisplaced op (hcoherent pre op post hops)

/-! ## A frame of another writer's journal -/

/-- Two writers of one session: a file that has its header only, and another
journal's entry. -/
def twoJournals : Journals Bool Unit where
  header second := sampleHeader (if second then "second" else "first") "session"
  entries second := if second then [.record ()] else []
  plain := by decide

def pairGovernance : Governance Unit Unit Unit :=
  { sampleGovernance with
    decodeEntry := fun
      | [3] => some (.record ())
      | _ => none }

/-- The second frame of the other journal, without its header. -/
def strayFrame : Sent pairGovernance smallConfig twoJournals where
  origin := true
  upload :=
    { projectId := "project"
      sessionId := "session"
      payload := Frame.bytes ⟨2, [3]⟩
      now := 0 }
  genuine := by
    intro decoded hdecoded d hd _
    have hfirst : Upload.firstSequence ⟨"project", "session", Frame.bytes ⟨2, [3]⟩, 0⟩ = 2 := by
      decide +kernel
    have hframes : (scanFrames smallConfig.maxFrameBytes 2 (Frame.bytes ⟨2, [3]⟩)).frames =
        [⟨2, [3]⟩] := by decide +kernel
    rw [hfirst, hframes] at hdecoded
    obtain rfl := Option.some.inj hdecoded
    obtain rfl := List.mem_singleton.mp hd
    rfl

/-- A file is followed, and somebody joins its session. -/
theorem run_oneJournal_joined :
    ((System.init "project").run pairGovernance smallConfig twoJournals (fun _ _ => none)
      [.read "journal" true 1, .publish 0, .join 7 ("project", "session")]).OneJournal
        pairGovernance twoJournals := by
  refine (run_oneJournal pairGovernance smallConfig twoJournals (fun _ _ => none) "project"
    [.read "journal" true 1, .publish 0, .join 7 ("project", "session")]
    fun pre op post hops => ?_).1 _ (List.prefix_refl _)
  rcases pre with _ | ⟨first, _ | ⟨second, _ | ⟨third, pre⟩⟩⟩
  · obtain ⟨rfl, -⟩ := List.cons.inj hops
    exact trivial
  · obtain ⟨rfl, hrest⟩ := List.cons.inj hops
    obtain ⟨rfl, -⟩ := List.cons.inj hrest
    -- no session is held yet
    intro replay tracked _ _ session hsession
    cases hsession
  · obtain ⟨rfl, hrest⟩ := List.cons.inj hops
    obtain ⟨rfl, hlast⟩ := List.cons.inj hrest
    obtain ⟨rfl, -⟩ := List.cons.inj hlast
    exact trivial
  · simp at hops

/-- **A frame without a header** goes to the session of a file whose journal
it is not part of. -/
theorem not_oneJournal_stray :
    ¬ ((System.init "project").run pairGovernance smallConfig twoJournals (fun _ _ => none)
      [.read "journal" false 0, .publish 0, .upload strayFrame]).OneJournal
        pairGovernance twoJournals := by
  intro h
  have hlength : ((((System.init "project").run pairGovernance smallConfig twoJournals
      (fun _ _ => none) [.read "journal" false 0, .publish 0,
        .upload strayFrame]).registry.sessions.find? ("project", "session")).map
        fun session => session.published.length) = some 2 := by decide +kernel
  have horigin : ((System.init "project").run pairGovernance smallConfig twoJournals
      (fun _ _ => none) [.read "journal" false 0, .publish 0,
        .upload strayFrame]).origin ("project", "session") = some false := by decide +kernel
  obtain ⟨session, hsession, hpublished⟩ := Option.map_eq_some_iff.mp hlength
  obtain ⟨i, hi, hfollows⟩ := h.follows _ session hsession
  obtain rfl : false = i := Option.some.inj (horigin.symm.trans hi)
  obtain ⟨events, hevents, -, hprojects⟩ := hfollows.log
  rw [hevents, List.length_cons] at hpublished
  have hnone := hprojects.length
  have hempty : twoJournals.entries false = [] := rfl
  rw [hempty, List.take_nil, List.length_nil] at hnone
  omega

end Live

end Earshot
