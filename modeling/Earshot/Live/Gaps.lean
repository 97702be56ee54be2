import Earshot.Live.Tail
import Earshot.Live.Accepting
import Mathlib.Algebra.BigOperators.Group.List.Basic
import Mathlib.Algebra.Order.Ring.Nat
import Mathlib.Data.List.Sort
/-!
# A tail hides no gap

Whatever is published, taken and marked, a connection is shown consecutive
facts, and what it is not shown is counted before the first of them or comes
after the stream has stopped (`honest_iff`): unless the session itself passed
facts over, or the connection asked for a position past the next fact, since
what is published before that position is passed over in silence.
-/

namespace Earshot

namespace Live

variable {κ π : Type} {C : TailConfig} {session session₀ : LiveSession κ π} {tail : Tail κ π}
variable {request : Request}

/-! ## What a connection accounts for -/

/-- The sequences of the facts among some events. -/
def factsOf (events : List LiveEvent) : List ℕ :=
  (events.map (·.sequence)).filter fun sequence => decide (2 ≤ sequence)

/-- What a connection was shown or has yet to take. -/
def Subscription.shown (sub : Subscription) : List LiveEvent :=
  sub.taken ++ (sub.backlog ++ sub.queue)

/-- The first fact a request is owed. -/
def Request.base (session : LiveSession κ π) (request : Request) : ℕ :=
  if (request.cursor session).isSome then request.start session else 2

/-- A fact is among those a `replayTruncated` event counts, ahead of any fact
that is shown. -/
def Announced (session₀ : LiveSession κ π) (request : Request) (sub : Subscription)
    (sequence : ℕ) : Prop :=
  ∃ before event after reason, sub.shown = before ++ event :: after ∧ factsOf before = [] ∧
    event.name = .replayTruncated ∧
    event.payload = truncatedPayload reason (request.start session₀)
      (firstShown session₀ (request.start session₀))
      (withheldRecords session₀ (request.cursor session₀).isSome (request.start session₀)) ∧
    request.base session₀ ≤ sequence ∧
    sequence < request.base session₀ +
      withheldRecords session₀ (request.cursor session₀).isSome (request.start session₀)

/-- The `Last-Event-ID` that `overflow` names. -/
def resumeWith (journalId : String) (cursor : ℕ) : LastEventId :=
  .parts journalId (if cursor < 10 ^ 20 then some cursor else none)

/-- **The connection hides nothing.** -/
structure Honest (C : TailConfig) (session₀ : LiveSession κ π) (request : Request)
    (tail : Tail κ π) : Prop where
  /-- The facts taken are consecutive. -/
  contiguous : ∃ first n, factsOf tail.sub.taken = List.range' first n
  /-- A fact is shown, or counted, or past everything shown by a stream that
  has stopped, and past the cursor of one that has overflowed. -/
  gapless : ∀ sequence, request.base session₀ ≤ sequence →
    sequence ≤ tail.session.lastSequence →
    sequence ∈ factsOf tail.sub.shown ∨ Announced session₀ request tail.sub sequence ∨
      tail.sub.stopped = true ∧ (∀ shown ∈ factsOf tail.sub.shown, shown < sequence) ∧
        (tail.sub.overflowed = true → tail.sub.lastDeliveredSequence < sequence)
  queueRecords : tail.sub.queue.length ≤ C.maxQueueRecords
  queueBytes : (tail.sub.queue.map LiveEvent.sizeBytes).sum ≤ C.maxQueueBytes
  /-- Whatever is still retained was taken, or counted, or is replayed from
  the cursor that `overflow` names. -/
  resumes : ∀ cursor fromSpec connections projectConnections sub',
    tail.sub.overflowCursor = some cursor →
    subscribe C connections projectConnections tail.session
      ⟨fromSpec, some (resumeWith tail.session.journalId cursor)⟩ = .ok sub' →
    ∀ event ∈ tail.session.events, 2 ≤ event.sequence →
      request.base session₀ ≤ event.sequence →
      event.sequence ∈ factsOf tail.sub.taken ∨
        Announced session₀ request tail.sub event.sequence ∨ event ∈ sub'.backlog

/-! ## The condition -/

/-- The session keeps every fact from the first one shown on. -/
def Complete (session : LiveSession κ π) (request : Request) : Prop :=
  ∀ sequence ∈ List.range' (max session.availableFrom (request.start session))
      (session.lastSequence + 1 - max session.availableFrom (request.start session)),
    sequence ∈ session.events.map (·.sequence)

instance : Decidable (Complete session request) :=
  inferInstanceAs (Decidable (∀ sequence ∈ _, _))

/-- **What is published to an open connection comes next**: nothing is owed
before the position asked for, and no number that is owed is passed over, unless
the queue has no room for the fact after it. -/
def FairAt (C : TailConfig) (session₀ : LiveSession κ π) (request : Request)
    (tail : Tail κ π) : TailOp → Prop
  | .publish passedOver (fact :: _) => tail.sub.stopped = true ∨
      request.start session₀ ≤ max (tail.session.lastSequence + 1) (request.base session₀) ∧
        (tail.session.lastSequence + 1 + passedOver ≤
            max (tail.session.lastSequence + 1) (request.base session₀) ∨
          tail.sub.Full C ⟨fact.1, tail.session.journalId,
            tail.session.lastSequence + 1 + passedOver, fact.2⟩)
  | _ => True

instance : (op : TailOp) → Decidable (FairAt C session₀ request tail op)
  | .publish _ (_ :: _) => inferInstanceAs (Decidable (_ ∨ _ ∧ (_ ∨ _)))
  | .publish _ [] | .observe _ | .supersede _ | .nextEvent | .markDelivered _ | .finish _
  | .close => .isTrue trivial

/-- Each publication of the run is fair when it is made. -/
def FairRun (C : TailConfig) (session₀ : LiveSession κ π) (request : Request) :
    Tail κ π → List TailOp → Prop
  | _, [] => True
  | tail, op :: ops => FairAt C session₀ request tail op ∧
      FairRun C session₀ request (tail.step C op) ops

instance FairRun.decidable : (tail : Tail κ π) → (ops : List TailOp) →
    Decidable (FairRun C session₀ request tail ops)
  | _, [] => .isTrue trivial
  | tail, op :: ops => @instDecidableAnd _ _ _ (FairRun.decidable (tail.step C op) ops)

/-! ## Sessions -/

/-- **A session's history**: it begins with its header, and each event that is
appended is numbered past the last one, though not always next to it. -/
inductive History (C : LiveConfig) : LiveSession κ π → Prop where
  | registered {α : Type} (R : Governance α κ π) (now : ℕ) (sessionId projectId : String)
      (source : Source) (header : Checkpoint.JournalOpen α) (retainFrames : Bool) :
      History C ((Registry.newSession R now sessionId projectId source header
        retainFrames).append C (Registry.newSession R now sessionId projectId source header
          retainFrames).openEvent)
  | appended {session : LiveSession κ π} {event : LiveEvent} (h : History C session)
      (hnext : session.lastSequence < event.sequence) : History C (session.append C event)
  /-- What is no event of the session's may change. -/
  | aside {session session' : LiveSession κ π} (h : History C session)
      (hevents : session'.events = session.events)
      (hlast : session'.lastSequence = session.lastSequence)
      (hopen : session'.openEvent = session.openEvent) : History C session'

/-- A session's events are numbered upwards, and the last one kept is its last. -/
structure Ordered (session : LiveSession κ π) : Prop where
  ascending : (session.events.map (·.sequence)).Pairwise (· < ·)
  last : (session.events.map (·.sequence)).getLast? = some session.lastSequence
  positive : ∀ sequence ∈ session.events.map (·.sequence), 1 ≤ sequence
  opened : session.openEvent.sequence = 1

theorem Ordered.bounds (h : Ordered session) : 1 ≤ session.availableFrom ∧
    session.availableFrom ≤ session.lastSequence ∧
    ∀ sequence ∈ session.events.map (·.sequence),
      session.availableFrom ≤ sequence ∧ sequence ≤ session.lastSequence := by
  obtain ⟨front, hfront⟩ := List.getLast?_eq_some_iff.mp h.last
  cases hsession : session.events with
  | nil =>
    rw [hsession] at hfront
    cases front <;> cases hfront
  | cons event rest =>
    have havailable : session.availableFrom = event.sequence := by
      unfold LiveSession.availableFrom
      rw [hsession]
    have hmem : event.sequence ∈ session.events.map (·.sequence) := by
      rw [hsession]
      exact List.mem_cons_self
    have hupper : ∀ sequence ∈ session.events.map (·.sequence),
        sequence ≤ session.lastSequence := fun sequence hsequence => by
      have hascending := h.ascending
      rw [hfront] at hascending hsequence
      rcases List.mem_append.mp hsequence with hold | hlast
      · exact ((List.pairwise_append.mp hascending).2.2 sequence hold _
          (List.mem_singleton_self _)).le
      · exact (List.mem_singleton.mp hlast).le
    rw [havailable, ← hsession]
    refine ⟨h.positive _ hmem, hupper _ hmem, fun sequence hsequence =>
      ⟨?_, hupper sequence hsequence⟩⟩
    have hascending := h.ascending
    rw [hsession, List.map_cons] at hascending hsequence
    rcases List.mem_cons.mp hsequence with rfl | hrest
    · exact Nat.le_refl _
    · exact ((List.pairwise_cons.mp hascending).1 sequence hrest).le

theorem evict_ne_nil {config : LiveConfig} (events : List LiveEvent) (bytes : ℕ)
    (h : events ≠ []) : (LiveSession.evict config events bytes).1 ≠ [] := by
  induction events generalizing bytes with
  | nil => exact absurd rfl h
  | cons event rest ih =>
    cases rest with
    | nil => exact h
    | cons next rest =>
      unfold LiveSession.evict
      split
      · exact ih _ (by simp)
      · simp

/-- An event that is appended is the last one. -/
theorem Ordered.append {config : LiveConfig} (h : Ordered session) {event : LiveEvent}
    (hnext : session.lastSequence < event.sequence) : Ordered (session.append config event) ∧
      (session.append config event).lastSequence = event.sequence := by
  have hlast : (session.append config event).lastSequence = event.sequence :=
    Nat.max_eq_right hnext.le
  obtain ⟨dropped, hdropped⟩ := evict_suffix (C := config) (session.events ++ [event])
    (session.retainedBytes + event.sizeBytes)
  have hkept : dropped ++ (session.append config event).events = session.events ++ [event] :=
    hdropped
  have hne : (session.append config event).events ≠ [] := evict_ne_nil _ _ (by simp)
  have hmap := congrArg (List.map LiveEvent.sequence) hkept
  rw [List.map_append, List.map_append, List.map_singleton] at hmap
  have hwhole : (session.events.map (·.sequence) ++ [event.sequence]).Pairwise (· < ·) := by
    refine List.pairwise_append.mpr ⟨h.ascending, List.pairwise_singleton _ _, ?_⟩
    intro sequence hsequence other hother
    rw [List.mem_singleton.mp hother]
    exact Nat.lt_of_le_of_lt (h.bounds.2.2 sequence hsequence).2 hnext
  refine ⟨⟨?_, ?_, ?_, h.opened⟩, hlast⟩
  · rw [← hmap] at hwhole
    exact (List.pairwise_append.mp hwhole).2.1
  · rw [hlast]
    have hend := congrArg List.getLast? hmap
    rw [List.getLast?_append, List.getLast?_append_of_ne_nil _ (by simp)] at hend
    cases hkeptLast : ((session.append config event).events.map LiveEvent.sequence).getLast? with
    | none => exact absurd (List.map_eq_nil_iff.mp (List.getLast?_eq_none_iff.mp hkeptLast)) hne
    | some sequence =>
      rw [hkeptLast] at hend
      exact hend
  · intro sequence hsequence
    have hmem : sequence ∈ session.events.map (·.sequence) ++ [event.sequence] :=
      hmap ▸ List.mem_append_right _ hsequence
    rcases List.mem_append.mp hmem with hold | hnew
    · exact h.positive sequence hold
    · rw [List.mem_singleton.mp hnew]
      omega

theorem History.ordered (h : History C.toLiveConfig session) : Ordered session := by
  induction h with
  | registered =>
    exact ⟨List.pairwise_singleton _ _, rfl, fun sequence hsequence =>
      (List.mem_singleton.mp hsequence).ge, rfl⟩
  | appended _ hnext ih => exact (ih.append hnext).1
  | aside _ hevents hlast hopen ih =>
    exact ⟨hevents ▸ ih.ascending, by rw [hevents, hlast]; exact ih.last,
      hevents ▸ ih.positive, by rw [hopen]; exact ih.opened⟩

/-- Publishing keeps a session in order. -/
theorem Ordered.publish (journalId : String) (facts : List (EventName × String)) {first : ℕ}
    (h : Ordered session) (hfirst : session.lastSequence < first) :
    Ordered ((numberFacts journalId first facts).foldl
        (LiveSession.append C.toLiveConfig) session) ∧
      ((numberFacts journalId first facts).foldl
        (LiveSession.append C.toLiveConfig) session).lastSequence =
          if facts = [] then session.lastSequence else first + facts.length - 1 := by
  induction facts generalizing first session with
  | nil => exact ⟨h, rfl⟩
  | cons fact rest ih =>
    let event : LiveEvent := ⟨fact.1, journalId, first, fact.2⟩
    obtain ⟨hordered, hlast⟩ : Ordered (session.append C.toLiveConfig event) ∧
        (session.append C.toLiveConfig event).lastSequence = first := h.append hfirst
    have hrest := @ih _ (first + 1) hordered (by rw [hlast]; omega)
    unfold numberFacts
    rw [List.foldl_cons]
    refine ⟨hrest.1, hrest.2.trans ?_⟩
    rw [if_neg (List.cons_ne_nil _ _), hlast, List.length_cons]
    split
    · next hnil =>
      rw [hnil, List.length_nil, Nat.zero_add, Nat.add_sub_cancel]
    · omega

/-! ## Facts -/

theorem factsOf_append (events events' : List LiveEvent) :
    factsOf (events ++ events') = factsOf events ++ factsOf events' := by
  unfold factsOf
  rw [List.map_append, List.filter_append]

theorem factsOf_control (event : LiveEvent) (h : event.sequence < 2) : factsOf [event] = [] := by
  unfold factsOf
  rw [List.map_cons, List.filter_cons_of_neg (by simpa using h)]
  rfl

theorem factsOf_fact {event : LiveEvent} (h : 2 ≤ event.sequence) :
    factsOf [event] = [event.sequence] := by
  unfold factsOf
  rw [List.map_cons, List.filter_cons_of_pos (by simpa using h)]
  rfl

theorem mem_factsOf {event : LiveEvent} {events : List LiveEvent} (hmem : event ∈ events)
    (h : 2 ≤ event.sequence) : event.sequence ∈ factsOf events := by
  unfold factsOf
  exact List.mem_filter.mpr ⟨List.mem_map_of_mem hmem, by simpa using h⟩

/-- Consecutive facts in two parts. -/
theorem factsOf_split {events events' : List LiveEvent} {first n : ℕ}
    (h : factsOf (events ++ events') = List.range' first n) :
    ∃ k ≤ n, factsOf events = List.range' first k := by
  rw [factsOf_append] at h
  obtain ⟨k, hk, hevents, -⟩ := List.range'_eq_append_iff.mp h.symm
  exact ⟨k, hk, hevents⟩

/-! ## Offers -/

/-- The queue is within its bounds. -/
structure Subscription.Bounded (C : TailConfig) (sub : Subscription) : Prop where
  records : sub.queue.length ≤ C.maxQueueRecords
  queued : sub.queuedBytes = (sub.queue.map LiveEvent.sizeBytes).sum
  bytes : sub.queuedBytes ≤ C.maxQueueBytes

/-- What an offer leaves of a connection. -/
structure Offered (C : TailConfig) (sub sub' : Subscription) : Prop where
  same : sub' = { sub with
    queue := sub'.queue, queuedBytes := sub'.queuedBytes, overflowed := sub'.overflowed }
  queue : sub.queue <+: sub'.queue
  bounded : sub.Bounded C → sub'.Bounded C

theorem Offered.shown {sub sub' : Subscription} (h : Offered C sub sub') :
    sub.shown <+: sub'.shown := by
  obtain ⟨more, hmore⟩ := h.queue
  refine ⟨more, ?_⟩
  unfold Subscription.shown
  rw [h.same, ← hmore]
  simp only [List.append_assoc]

theorem offerEach_offered (events : List LiveEvent) (sub : Subscription) :
    Offered C sub (Subscription.offerEach C events sub) := by
  induction events generalizing sub with
  | nil => exact ⟨rfl, List.prefix_refl _, id⟩
  | cons event rest ih =>
    unfold Subscription.offerEach
    split
    · exact ih sub
    · split
      · exact ⟨rfl, List.prefix_refl _, fun h => ⟨h.records, h.queued, h.bytes⟩⟩
      · next hroom =>
        have hrest := ih { sub with
          queue := sub.queue ++ [event]
          queuedBytes := sub.queuedBytes + event.sizeBytes }
        refine ⟨hrest.same, (List.prefix_append _ _).trans hrest.queue, fun h => hrest.bounded ?_⟩
        unfold Subscription.Full at hroom
        rw [not_or] at hroom
        refine ⟨?_, ?_, ?_⟩
        · show (sub.queue ++ [event]).length ≤ _
          rw [List.length_append, List.length_singleton]
          omega
        · show sub.queuedBytes + event.sizeBytes = ((sub.queue ++ [event]).map _).sum
          rw [List.map_append, List.sum_append, ← h.queued]
          simp
        · show sub.queuedBytes + event.sizeBytes ≤ _
          omega

theorem offer_offered (events : List LiveEvent) (sub : Subscription) :
    Offered C sub (sub.offer C events) := by
  unfold Subscription.offer
  split
  · exact ⟨rfl, List.prefix_refl _, id⟩
  · exact offerEach_offered events sub

/-- A fact that is shown was shown before, or is one of those offered and past
the cursor. -/
theorem mem_offerEach_facts {sequence : ℕ} (journalId : String)
    (facts : List (EventName × String)) (start : ℕ) (sub : Subscription)
    (hmem : sequence ∈ factsOf
      (Subscription.offerEach C (numberFacts journalId start facts) sub).shown) :
    sequence ∈ factsOf sub.shown ∨ start ≤ sequence ∧ sub.lastDeliveredSequence < sequence := by
  induction facts generalizing start sub with
  | nil => exact .inl hmem
  | cons fact rest ih =>
    unfold numberFacts Subscription.offerEach at hmem
    split at hmem
    · exact (ih _ _ hmem).imp_right fun hnew => ⟨by omega, hnew.2⟩
    · next hskip =>
      split at hmem
      · exact .inl hmem
      · rcases ih _ _ hmem with hold | hnew
        · have happend : Subscription.shown { sub with
              queue := sub.queue ++ [⟨fact.1, journalId, start, fact.2⟩]
              queuedBytes := sub.queuedBytes +
                LiveEvent.sizeBytes ⟨fact.1, journalId, start, fact.2⟩ } =
              sub.shown ++ [⟨fact.1, journalId, start, fact.2⟩] := by
            unfold Subscription.shown
            simp only [List.append_assoc]
          rw [happend, factsOf_append] at hold
          refine (List.mem_append.mp hold).imp_right fun hfact => ?_
          obtain ⟨hfact, htwo⟩ := List.mem_filter.mp hfact
          obtain rfl := List.mem_singleton.mp hfact
          simp only [decide_eq_true_eq] at htwo
          dsimp only at hskip htwo ⊢
          omega
        · exact .inr ⟨by omega, hnew.2⟩

/-- The first fact that is offered is shown, if there is room for it. -/
theorem mem_offerEach_first (journalId : String) (fact : EventName × String)
    (rest : List (EventName × String)) (start : ℕ) (sub : Subscription) (hstart : 2 ≤ start)
    (hnew : sub.lastDeliveredSequence < start)
    (hroom : ¬ sub.Full C ⟨fact.1, journalId, start, fact.2⟩) :
    start ∈ factsOf
      (Subscription.offerEach C (numberFacts journalId start (fact :: rest)) sub).shown := by
  let event : LiveEvent := ⟨fact.1, journalId, start, fact.2⟩
  unfold numberFacts Subscription.offerEach
  rw [if_neg (by dsimp only; omega), if_neg hroom]
  obtain ⟨more, hmore⟩ := (offerEach_offered (C := C) (numberFacts journalId (start + 1) rest)
    { sub with
      queue := sub.queue ++ [event]
      queuedBytes := sub.queuedBytes + event.sizeBytes }).shown
  rw [← hmore]
  exact @mem_factsOf event _ (List.mem_append_left _
    (List.mem_append_right _ (List.mem_append_right _ (List.mem_append_right _
      (List.mem_singleton_self _))))) hstart

/-- **Facts that are offered** are shown from `b` on, until the queue is
full. -/
theorem offerEach_facts {b : ℕ} (journalId : String) (facts : List (EventName × String))
    (start n : ℕ) (sub : Subscription) (hstart : 2 ≤ start)
    (hshown : factsOf sub.shown = List.range' b n) (hnext : b + n = max b start)
    (hahead : b ≤ start ∨ b ≤ sub.lastDeliveredSequence + 1)
    (hcursor : sub.lastDeliveredSequence < b + n) (hopen : sub.overflowed = false) :
    ∃ n', factsOf (Subscription.offerEach C (numberFacts journalId start facts) sub).shown =
        List.range' b n' ∧ b + n' ≤ max b (start + facts.length) ∧
      ((Subscription.offerEach C (numberFacts journalId start facts) sub).overflowed = false →
        b + n' = max b (start + facts.length)) := by
  induction facts generalizing start n sub with
  | nil => exact ⟨n, hshown, by rw [hnext]; simp, fun _ => hnext⟩
  | cons fact rest ih =>
    unfold numberFacts Subscription.offerEach
    rw [List.length_cons]
    by_cases hskip : start ≤ sub.lastDeliveredSequence
    · -- the connection was told to begin past this fact
      rw [if_pos ⟨by dsimp only; omega, hskip⟩]
      obtain ⟨n', hfacts, hle, heq⟩ := ih (start + 1) n sub (by omega) hshown (by omega)
        (by omega) hcursor hopen
      exact ⟨n', hfacts, by omega, fun h => by have := heq h; omega⟩
    · rw [if_neg (by dsimp only; omega)]
      split
      · exact ⟨n, hshown, by omega, fun h => absurd h (by simp)⟩
      · have hqueued : factsOf (Subscription.shown { sub with
            queue := sub.queue ++ [⟨fact.1, journalId, start, fact.2⟩]
            queuedBytes := sub.queuedBytes +
              LiveEvent.sizeBytes ⟨fact.1, journalId, start, fact.2⟩ }) =
            List.range' b (n + 1) := by
          have happend : Subscription.shown { sub with
              queue := sub.queue ++ [⟨fact.1, journalId, start, fact.2⟩]
              queuedBytes := sub.queuedBytes +
                LiveEvent.sizeBytes ⟨fact.1, journalId, start, fact.2⟩ } =
              sub.shown ++ [⟨fact.1, journalId, start, fact.2⟩] := by
            unfold Subscription.shown
            simp only [List.append_assoc]
          rw [happend, factsOf_append, hshown, factsOf_fact hstart, List.range'_1_concat]
          congr 2
          dsimp only
          omega
        obtain ⟨n', hfacts, hle, heq⟩ := ih (start + 1) (n + 1) _ (by omega) hqueued (by omega)
          (.inl (by omega)) (by dsimp only; omega) hopen
        exact ⟨n', hfacts, by omega, fun h => by have := heq h; omega⟩

/-! ## The invariant -/

/-- What holds of a connection that is shown facts from `b` on. -/
structure Tail.Kept (C : TailConfig) (session₀ : LiveSession κ π) (request : Request) (b : ℕ)
    (tail : Tail κ π) : Prop where
  control : factsOf (request.preamble session₀) = []
  ordered : Ordered tail.session
  grown : session₀.lastSequence ≤ tail.session.lastSequence
  facts : ∃ n, factsOf tail.sub.shown = List.range' b n ∧
    b + n ≤ max b (tail.session.lastSequence + 1) ∧
    (tail.sub.stopped = false → b + n = max b (tail.session.lastSequence + 1))
  ahead : b ≤ tail.session.lastSequence + 1 ∨ b ≤ tail.sub.lastDeliveredSequence + 1
  positive : 1 ≤ tail.sub.lastDeliveredSequence
  resumed : request.start session₀ ≤ tail.sub.lastDeliveredSequence + 1
  cursor : tail.sub.lastDeliveredSequence < b ∨
    tail.sub.lastDeliveredSequence ∈ factsOf tail.sub.taken
  preamble : request.preamble session₀ <+: tail.sub.shown ∨
    tail.sub.endReason.isSome = true ∧ tail.sub.overflowed = false ∧ factsOf tail.sub.shown = []
  bounded : tail.sub.Bounded C
  superseded : tail.superseded = true → tail.sub.endReason.isSome = true

namespace Tail.Kept

variable {b : ℕ}

theorem stopped_of_end {sub : Subscription} (h : sub.endReason.isSome = true) :
    sub.stopped = true := by
  unfold Subscription.stopped
  rw [h, Bool.or_true]

/-- What is offered comes after the preamble, or not at all. -/
theorem preamble_offer (h : tail.Kept C session₀ request b) (events : List LiveEvent) :
    request.preamble session₀ <+: (tail.sub.offer C events).shown ∨
      (tail.sub.offer C events).endReason.isSome = true ∧
        (tail.sub.offer C events).overflowed = false ∧
        factsOf (tail.sub.offer C events).shown = [] := by
  rcases h.preamble with hpreamble | ⟨hended, hnot, hnone⟩
  · exact .inl (hpreamble.trans (offer_offered events tail.sub).shown)
  · right
    unfold Subscription.offer
    rw [if_pos (stopped_of_end hended)]
    exact ⟨hended, hnot, hnone⟩

/-- The cursor is behind what is to be shown. -/
theorem cursor_lt {n : ℕ} (h : tail.Kept C session₀ request b)
    (hfacts : factsOf tail.sub.shown = List.range' b n) :
    tail.sub.lastDeliveredSequence < b + n := by
  rcases h.cursor with hlt | hmem
  · omega
  · have hshown : tail.sub.lastDeliveredSequence ∈ factsOf tail.sub.shown := by
      unfold Subscription.shown
      rw [factsOf_append]
      exact List.mem_append_left _ hmem
    rw [hfacts] at hshown
    exact (List.mem_range'_1.mp hshown).2

/-- What a fair publication leaves of the facts shown. -/
theorem offered_facts {passedOver n : ℕ} {facts : List (EventName × String)}
    (h : tail.Kept C session₀ request b) (hbase : request.base session₀ ≤ b)
    (hfacts : factsOf tail.sub.shown = List.range' b n)
    (hopen : b + n = max b (tail.session.lastSequence + 1))
    (hover : tail.sub.overflowed = false) (hstopped : tail.sub.stopped = false)
    (hfair : FairAt C session₀ request tail (.publish passedOver facts)) :
    ∃ n', factsOf (Subscription.offerEach C (numberFacts tail.session.journalId
        (tail.session.lastSequence + 1 + passedOver) facts) tail.sub).shown = List.range' b n' ∧
      b + n' ≤ max b (if facts = [] then tail.session.lastSequence + 1
        else tail.session.lastSequence + 1 + passedOver + facts.length) ∧
      ((Subscription.offerEach C (numberFacts tail.session.journalId
          (tail.session.lastSequence + 1 + passedOver) facts) tail.sub).overflowed = false →
        b + n' = max b (if facts = [] then tail.session.lastSequence + 1
          else tail.session.lastSequence + 1 + passedOver + facts.length)) := by
  have hone := h.ordered.bounds
  have hcursor := h.cursor_lt hfacts
  cases facts with
  | nil => exact ⟨n, hfacts, hopen.le, fun _ => hopen⟩
  | cons fact rest =>
    rw [if_neg (List.cons_ne_nil _ _)]
    by_cases hnext : tail.session.lastSequence + 1 + passedOver ≤
        max b (tail.session.lastSequence + 1)
    · have hahead : b ≤ tail.session.lastSequence + 1 + passedOver ∨
          b ≤ tail.sub.lastDeliveredSequence + 1 := h.ahead.imp_left fun hle => by omega
      exact offerEach_facts tail.session.journalId (fact :: rest) _ n tail.sub (by omega) hfacts
        (by omega) hahead hcursor hover
    · -- the queue has no room for a fact that others are passed over for
      rcases hfair with hstop | ⟨-, hle | hfull⟩
      · rw [hstopped] at hstop
        cases hstop
      · omega
      · unfold numberFacts Subscription.offerEach
        rw [if_neg (by dsimp only; omega), if_pos hfull]
        exact ⟨n, hfacts, by omega, fun hnot => absurd hnot (by simp)⟩

theorem publish {passedOver : ℕ} {facts : List (EventName × String)}
    (h : tail.Kept C session₀ request b) (hbase : request.base session₀ ≤ b)
    (hfair : FairAt C session₀ request tail (.publish passedOver facts)) :
    (tail.step C (.publish passedOver facts)).Kept C session₀ request b := by
  unfold Tail.step
  dsimp only
  split
  · exact h
  · next hsuperseded =>
    obtain ⟨hordered, hlast⟩ := h.ordered.publish (C := C) tail.session.journalId facts
      (show tail.session.lastSequence < tail.session.lastSequence + 1 + passedOver by omega)
    have hoffered := offer_offered (C := C) (numberFacts tail.session.journalId
      (tail.session.lastSequence + 1 + passedOver) facts) tail.sub
    have hsame : (tail.sub.offer C (numberFacts tail.session.journalId
        (tail.session.lastSequence + 1 + passedOver) facts)).lastDeliveredSequence =
          tail.sub.lastDeliveredSequence := by rw [hoffered.same]
    have htaken : (tail.sub.offer C (numberFacts tail.session.journalId
        (tail.session.lastSequence + 1 + passedOver) facts)).taken = tail.sub.taken := by
      rw [hoffered.same]
    have hgrows : tail.session.lastSequence + 1 ≤ (if facts = [] then
        tail.session.lastSequence + 1
      else tail.session.lastSequence + 1 + passedOver + facts.length) := by
      split <;> omega
    have hnext : ((numberFacts tail.session.journalId
        (tail.session.lastSequence + 1 + passedOver) facts).foldl
          (LiveSession.append C.toLiveConfig) tail.session).lastSequence + 1 =
        if facts = [] then tail.session.lastSequence + 1
        else tail.session.lastSequence + 1 + passedOver + facts.length := by
      rw [hlast]
      split
      · rfl
      · next hne =>
        have := List.length_pos_iff.mpr hne
        omega
    obtain ⟨n, hfacts, hle, hopen⟩ := h.facts
    refine ⟨h.control, hordered, ?_, ?_, ?_, ?_, ?_, ?_, ?_, hoffered.bounded h.bounded, ?_⟩
    · have hgrown := h.grown
      dsimp only
      omega
    · dsimp only
      rw [hnext]
      unfold Subscription.offer
      split
      · next hstopped =>
        refine ⟨n, hfacts, by omega, fun hnot => ?_⟩
        rw [hstopped] at hnot
        cases hnot
      · next hstopped =>
        have hstopped := eq_false_of_ne_true hstopped
        have hoverflowed : tail.sub.overflowed = false := by
          unfold Subscription.stopped at hstopped
          rw [Bool.or_assoc, Bool.or_eq_false_iff] at hstopped
          exact hstopped.1
        obtain ⟨n', hfacts', hle', hopen'⟩ :=
          h.offered_facts hbase hfacts (hopen hstopped) hoverflowed hstopped hfair
        refine ⟨n', hfacts', hle', fun hnot => hopen' ?_⟩
        unfold Subscription.stopped at hnot
        rw [Bool.or_assoc, Bool.or_eq_false_iff] at hnot
        exact hnot.1
    · dsimp only
      rw [hnext, hsame]
      exact h.ahead.imp_left fun hahead => hahead.trans hgrows
    · dsimp only
      rw [hsame]
      exact h.positive
    · dsimp only
      rw [hsame]
      exact h.resumed
    · dsimp only
      rw [hsame, htaken]
      exact h.cursor
    · exact h.preamble_offer _
    · intro hnot
      exact absurd hnot hsuperseded

/-- What the end of a stream leaves. -/
theorem finish (h : tail.Kept C session₀ request b) (reason : EndReason) :
    Tail.Kept C session₀ request b { tail with sub := tail.sub.finish reason } := by
  obtain ⟨n, hfacts, hle, hopen⟩ := h.facts
  unfold Subscription.finish
  split
  · -- what was pending is withdrawn
    have hshown : Subscription.shown { tail.sub with
        endReason := some reason
        backlog := []
        queue := []
        queuedBytes := 0
        overflowed := false } = tail.sub.taken := by
      unfold Subscription.shown
      dsimp only
      rw [List.append_nil, List.append_nil]
    have hsplit : tail.sub.shown = tail.sub.taken ++ (tail.sub.backlog ++ tail.sub.queue) := rfl
    rw [hsplit] at hfacts
    obtain ⟨k, hk, htaken⟩ := factsOf_split hfacts
    refine ⟨h.control, h.ordered, h.grown, ⟨k, ?_, by dsimp only; omega, fun hnot => ?_⟩, h.ahead,
      h.positive, h.resumed, h.cursor, ?_, ?_, fun _ => rfl⟩
    · dsimp only
      rw [hshown, htaken]
    · have hstopped : Subscription.stopped { tail.sub with
          endReason := some reason
          backlog := []
          queue := []
          queuedBytes := 0
          overflowed := false } = true := stopped_of_end rfl
      dsimp only at hnot
      rw [hstopped] at hnot
      cases hnot
    · dsimp only
      rw [hshown]
      rcases h.preamble with hpreamble | ⟨-, -, hnone⟩
      · rw [hsplit] at hpreamble
        rcases List.prefix_or_prefix_of_prefix hpreamble
          (List.prefix_append tail.sub.taken _) with hfirst | ⟨more, hmore⟩
        · exact .inl hfirst
        · refine .inr ⟨rfl, rfl, ?_⟩
          have hcontrol := h.control
          rw [← hmore, factsOf_append] at hcontrol
          exact (List.append_eq_nil_iff.mp hcontrol).1
      · refine .inr ⟨rfl, rfl, ?_⟩
        rw [hsplit, factsOf_append] at hnone
        exact (List.append_eq_nil_iff.mp hnone).1
    · exact ⟨Nat.zero_le _, rfl, Nat.zero_le _⟩
  · split
    · refine ⟨h.control, h.ordered, h.grown, ⟨n, hfacts, hle, fun hnot => ?_⟩, h.ahead, h.positive,
        h.resumed, h.cursor, ?_, ⟨h.bounded.records, h.bounded.queued, h.bounded.bytes⟩, fun _ =>
          rfl⟩
      · have hstopped : Subscription.stopped { tail.sub with endReason := some reason } = true :=
          stopped_of_end rfl
        dsimp only at hnot
        rw [hstopped] at hnot
        cases hnot
      · rcases h.preamble with hpreamble | ⟨-, hnot, hnone⟩
        · exact .inl hpreamble
        · exact .inr ⟨rfl, hnot, hnone⟩
    · exact h

/-- The rest of a step keeps what is shown. -/
theorem of_shown {sub : Subscription} (h : tail.Kept C session₀ request b)
    (hshown : sub.shown = tail.sub.shown) (hstopped : sub.stopped = false →
      tail.sub.stopped = false) (hend : sub.endReason = tail.sub.endReason)
    (hoverflowed : sub.overflowed = tail.sub.overflowed)
    (hlast : tail.sub.lastDeliveredSequence ≤ sub.lastDeliveredSequence)
    (hcursor : sub.lastDeliveredSequence < b ∨ sub.lastDeliveredSequence ∈ factsOf sub.taken)
    (hbounded : sub.Bounded C) :
    Tail.Kept C session₀ request b { tail with sub := sub } := by
  obtain ⟨n, hfacts, hle, hopen⟩ := h.facts
  refine ⟨h.control, h.ordered, h.grown, ⟨n, ?_, hle, fun hnot => hopen (hstopped hnot)⟩, ?_,
    h.positive.trans hlast, ?_, hcursor, ?_, hbounded, ?_⟩
  · dsimp only
    rw [hshown, hfacts]
  · have hahead := h.ahead
    dsimp only
    omega
  · have hresumed := h.resumed
    dsimp only
    omega
  · dsimp only
    rw [hshown, hend, hoverflowed]
    exact h.preamble
  · dsimp only
    rw [hend]
    exact h.superseded

theorem nextEvent (h : tail.Kept C session₀ request b) :
    Tail.Kept C session₀ request b { tail with sub := tail.sub.nextEvent } := by
  have hmem (events : List LiveEvent) (hcursor : tail.sub.lastDeliveredSequence < b ∨
      tail.sub.lastDeliveredSequence ∈ factsOf tail.sub.taken) :
      tail.sub.lastDeliveredSequence < b ∨
        tail.sub.lastDeliveredSequence ∈ factsOf (tail.sub.taken ++ events) := by
    rw [factsOf_append]
    exact hcursor.imp_right fun hmem => List.mem_append_left _ hmem
  cases hbacklog : tail.sub.backlog with
  | cons event backlog =>
    have hnext : tail.sub.nextEvent =
        { tail.sub with backlog := backlog, taken := tail.sub.taken ++ [event] } := by
      unfold Subscription.nextEvent
      rw [hbacklog]
    rw [hnext]
    refine h.of_shown ?_ id rfl rfl (Nat.le_refl _) (hmem [event] h.cursor)
      ⟨h.bounded.records, h.bounded.queued, h.bounded.bytes⟩
    unfold Subscription.shown
    rw [hbacklog]
    simp
  | nil =>
    cases hqueue : tail.sub.queue with
    | nil =>
      have hnext : tail.sub.nextEvent = tail.sub := by
        unfold Subscription.nextEvent
        rw [hbacklog, hqueue]
      rw [hnext]
      exact h
    | cons event queue =>
      have hnext : tail.sub.nextEvent =
          { tail.sub with
            queue := queue
            queuedBytes := tail.sub.queuedBytes - event.sizeBytes
            taken := tail.sub.taken ++ [event] } := by
        unfold Subscription.nextEvent
        simp only [hbacklog, hqueue]
      have hrecords := h.bounded.records
      have hqueued := h.bounded.queued
      have hbytes := h.bounded.bytes
      rw [hqueue] at hrecords hqueued
      rw [List.length_cons] at hrecords
      rw [List.map_cons, List.sum_cons] at hqueued
      rw [hnext]
      refine h.of_shown ?_ id rfl rfl (Nat.le_refl _) (hmem [event] h.cursor)
        ⟨by dsimp only; omega, by dsimp only; omega, by dsimp only; omega⟩
      unfold Subscription.shown
      rw [hbacklog, hqueue]
      simp

theorem markDelivered (h : tail.Kept C session₀ request b) {event : LiveEvent}
    (hevent : event ∈ tail.sub.taken) :
    Tail.Kept C session₀ request b { tail with sub := tail.sub.markDelivered event } := by
  unfold Subscription.markDelivered
  split
  · exact h
  · refine h.of_shown rfl id rfl rfl (Nat.le_max_left _ _) ?_
      ⟨h.bounded.records, h.bounded.queued, h.bounded.bytes⟩
    dsimp only
    by_cases hle : event.sequence ≤ tail.sub.lastDeliveredSequence
    · rw [Nat.max_eq_left hle]
      exact h.cursor
    · have hpositive := h.positive
      rw [Nat.max_eq_right (by omega)]
      exact .inr (mem_factsOf hevent (by omega))

theorem close (h : tail.Kept C session₀ request b) :
    Tail.Kept C session₀ request b { tail with sub := { tail.sub with closed := true } } := by
  refine h.of_shown rfl (fun hnot => ?_) rfl rfl (Nat.le_refl _) h.cursor
    ⟨h.bounded.records, h.bounded.queued, h.bounded.bytes⟩
  unfold Subscription.stopped at hnot
  simp at hnot

/-- A control event that is offered is no fact. -/
theorem factsOf_offerControl (sub : Subscription) {event : LiveEvent}
    (hevent : event.sequence = 0) :
    factsOf (sub.offer C [event]).shown = factsOf sub.shown := by
  unfold Subscription.offer
  split
  · rfl
  · unfold Subscription.offerEach
    rw [if_neg (by omega)]
    split
    · rfl
    · unfold Subscription.offerEach Subscription.shown
      dsimp only
      simp only [factsOf_append, factsOf_control event (by omega), List.append_nil]

theorem offerControl (h : tail.Kept C session₀ request b) (event : LiveEvent)
    (hevent : event.sequence = 0) :
    Tail.Kept C session₀ request b { tail with sub := tail.sub.offer C [event] } := by
  have hoffered := offer_offered (C := C) [event] tail.sub
  obtain ⟨n, hfacts, hle, hopen⟩ := h.facts
  have hshown := factsOf_offerControl (C := C) tail.sub hevent
  have hsame : (tail.sub.offer C [event]).lastDeliveredSequence =
      tail.sub.lastDeliveredSequence := by rw [hoffered.same]
  have htaken : (tail.sub.offer C [event]).taken = tail.sub.taken := by rw [hoffered.same]
  have hend : (tail.sub.offer C [event]).endReason = tail.sub.endReason := by rw [hoffered.same]
  refine ⟨h.control, h.ordered, h.grown, ⟨n, ?_, hle, fun hnot => hopen ?_⟩, ?_, ?_, ?_, ?_,
    ?_, hoffered.bounded h.bounded, ?_⟩
  · dsimp only
    rw [hshown, hfacts]
  · by_contra hstopped
    have hstopped := eq_true_of_ne_false hstopped
    unfold Subscription.offer at hnot
    dsimp only at hnot
    rw [if_pos hstopped, hstopped] at hnot
    cases hnot
  · dsimp only
    rw [hsame]
    exact h.ahead
  · dsimp only
    rw [hsame]
    exact h.positive
  · dsimp only
    rw [hsame]
    exact h.resumed
  · dsimp only
    rw [hsame, htaken]
    exact h.cursor
  · exact h.preamble_offer _
  · dsimp only
    rw [hend]
    exact h.superseded

theorem isSome_finish {sub : Subscription} (reason : String) :
    (sub.finish (.other reason)).endReason.isSome = true := by
  unfold Subscription.finish
  rw [if_neg (by simp)]
  split
  · rfl
  · next hend =>
    cases hreason : sub.endReason with
    | none => simp [hreason] at hend
    | some reason => rfl

/-- **A fair step keeps the invariant.** -/
theorem step (h : tail.Kept C session₀ request b) (hbase : request.base session₀ ≤ b)
    (op : TailOp) (hfair : FairAt C session₀ request tail op) :
    (tail.step C op).Kept C session₀ request b := by
  cases op with
  | publish passedOver facts => exact h.publish hbase hfair
  | observe through =>
    exact ⟨h.control, ⟨h.ordered.ascending, h.ordered.last, h.ordered.positive, h.ordered.opened⟩,
      h.grown, h.facts, h.ahead, h.positive, h.resumed, h.cursor, h.preamble, h.bounded,
      h.superseded⟩
  | supersede journalId =>
    have hoffered := h.offerControl ⟨.reset, tail.session.journalId, 0, journalId⟩ rfl
    have hfinished := hoffered.finish (.other "session_superseded")
    exact ⟨hfinished.control, hfinished.ordered, hfinished.grown, hfinished.facts,
      hfinished.ahead, hfinished.positive, hfinished.resumed, hfinished.cursor, hfinished.preamble,
      hfinished.bounded, fun _ => isSome_finish _⟩
  | nextEvent => exact h.nextEvent
  | markDelivered index =>
    unfold Tail.step
    cases hevent : tail.sub.taken[index]? with
    | none =>
      dsimp only
      rw [hevent]
      exact h
    | some event =>
      dsimp only
      rw [hevent]
      exact h.markDelivered (List.mem_of_getElem? hevent)
  | finish reason => exact h.finish reason
  | close => exact h.close

end Tail.Kept

/-! ## Subscribing -/

theorem Request.two_le_start (h : Ordered session) (request : Request) :
    2 ≤ request.start session := by
  have hevents := h.bounds
  unfold Request.start
  split
  · split
    · next id cursor hresume =>
      unfold LastEventId.resume at hresume
      split at hresume
      · cases hresume
      · split at hresume
        · cases hresume
        · split at hresume
          · cases hresume
          · split at hresume
            · cases hresume
            · split at hresume
              · cases hresume
              · obtain rfl := Except.ok.inj hresume
                omega
    · omega
  · split
    · omega
    · omega
    · omega

theorem factsOf_preamble (h : Ordered session) (request : Request) :
    factsOf (request.preamble session) = [] := by
  have hopened := h.opened
  unfold Request.preamble
  dsimp only
  rw [factsOf_append, factsOf_append]
  have hreset : factsOf (request.resetEvents session) = [] := by
    unfold Request.resetEvents
    split
    · exact factsOf_control _ Nat.zero_lt_two
    · rfl
  have hopen : factsOf (if (request.cursor session).isSome = true then []
      else [session.openEvent]) = [] := by
    split
    · rfl
    · exact factsOf_control _ (by omega)
  rw [hreset, hopen, List.nil_append, List.nil_append]
  split
  · exact factsOf_control _ Nat.zero_lt_two
  · rfl

/-- The first fact a connection is shown. -/
def firstFact (session : LiveSession κ π) (request : Request) : ℕ :=
  max session.availableFrom (request.start session)

/-- The facts asked for, where none of them is missing. -/
theorem factsOf_backlog (h : Ordered session) (hcomplete : Complete session request) :
    factsOf (session.events.filter fun event =>
        decide (max (request.start session) 2 ≤ event.sequence)) =
      List.range' (firstFact session request)
        (session.lastSequence + 1 - firstFact session request) := by
  have hstart := Request.two_le_start h request
  have hmap : (session.events.filter fun event =>
      decide (max (request.start session) 2 ≤ event.sequence)).map (·.sequence) =
        (session.events.map (·.sequence)).filter fun sequence =>
          decide (max (request.start session) 2 ≤ sequence) := by
    rw [List.filter_map]
    rfl
  unfold factsOf
  rw [hmap]
  refine ((h.ascending.filter _).filter _).eq_of_mem_iff
    (List.pairwise_lt_range' 1 Nat.zero_lt_one) fun sequence => ?_
  constructor
  · intro hmem
    obtain ⟨hmem, -⟩ := List.mem_filter.mp hmem
    obtain ⟨hmem, hfrom⟩ := List.mem_filter.mp hmem
    have hbounds := h.bounds.2.2 sequence hmem
    have hfrom : max (request.start session) 2 ≤ sequence := by simpa using hfrom
    exact List.mem_range'_1.mpr (by unfold firstFact; omega)
  · intro hmem
    have hrange := List.mem_range'_1.mp hmem
    unfold firstFact at hrange
    have hfrom : max (request.start session) 2 ≤ sequence := by omega
    refine List.mem_filter.mpr ⟨List.mem_filter.mpr ⟨hcomplete sequence hmem, ?_⟩, ?_⟩
    · simpa using hfrom
    · simp only [decide_eq_true_eq]
      omega

/-- What a connection begins with, where nothing it asks for is missing. -/
theorem subscribe_kept {connections projectConnections : ℕ} {sub : Subscription}
    (h : Ordered session₀) (hcomplete : Complete session₀ request)
    (hsub : subscribe C connections projectConnections session₀ request = .ok sub) :
    Tail.Kept C session₀ request (firstFact session₀ request) ⟨session₀, sub, false⟩ := by
  have hstart := Request.two_le_start h request
  have hcontrol := factsOf_preamble h request
  have hbacklog := factsOf_backlog h hcomplete
  obtain ⟨hpos, hle, -⟩ := h.bounds
  unfold subscribe at hsub
  split at hsub
  · cases hsub
  · split at hsub
    · cases hsub
    · split at hsub
      · cases hsub
      · obtain rfl := Except.ok.inj hsub
        refine ⟨hcontrol, h, Nat.le_refl _, ⟨session₀.lastSequence + 1 -
          firstFact session₀ request, ?_, by dsimp only; omega, fun _ => by dsimp only; omega⟩,
          ?_, ?_, ?_, ?_, ?_, ?_, fun hnot => absurd hnot Bool.false_ne_true⟩
        · unfold Subscription.shown
          dsimp only
          rw [List.nil_append, List.append_nil, factsOf_append, hcontrol, hbacklog,
            List.nil_append]
        · unfold firstFact
          dsimp only
          omega
        · dsimp only
          omega
        · dsimp only
          omega
        · left
          unfold firstFact
          dsimp only
          omega
        · left
          unfold Subscription.shown
          dsimp only
          rw [List.nil_append, List.append_nil]
          exact List.prefix_append _ _
        · exact ⟨Nat.zero_le _, rfl, Nat.zero_le _⟩

/-! ## What is counted -/

/-- A fact below the first that is shown is counted. -/
theorem announced_of_lt {sub : Subscription} {sequence : ℕ} (h : Ordered session₀)
    (hpreamble : request.preamble session₀ <+: sub.shown)
    (hbase : request.base session₀ ≤ sequence) (hlast : sequence ≤ session₀.lastSequence)
    (hlt : sequence < firstFact session₀ request) : Announced session₀ request sub sequence := by
  have hstart := Request.two_le_start h request
  obtain ⟨hpos, hle, -⟩ := h.bounds
  have hcontrol := factsOf_preamble h request
  have hcounted : sequence < request.base session₀ + withheldRecords session₀
      (request.cursor session₀).isSome (request.start session₀) := by
    unfold Request.base firstFact at *
    unfold withheldRecords firstShown
    split
    · next hresumed =>
      rw [if_pos hresumed] at hbase
      omega
    · next hresumed =>
      rw [if_neg hresumed] at hbase
      omega
  have hwithheld : 0 < withheldRecords session₀ (request.cursor session₀).isSome
      (request.start session₀) := by omega
  obtain ⟨more, hmore⟩ := hpreamble
  unfold Request.preamble at hmore hcontrol
  dsimp only at hmore hcontrol
  rw [if_pos hwithheld] at hmore hcontrol
  rw [factsOf_append] at hcontrol
  rw [List.append_assoc] at hmore
  exact ⟨_, _, more, _, hmore.symm, (List.append_eq_nil_iff.mp hcontrol).1, rfl, rfl, hbase,
    hcounted⟩

/-- The request asks for a position past the next fact. -/
def Request.beyond (session : LiveSession κ π) (request : Request) : Prop :=
  request.cursor session = none ∧ session.lastSequence + 1 < request.start session

theorem Request.base_of_beyond (h : request.beyond session) : request.base session = 2 := by
  unfold Request.base
  rw [h.1]
  rfl

theorem Request.base_le_firstFact (h : Ordered session) (request : Request) :
    request.base session ≤ firstFact session request := by
  have hstart := Request.two_le_start h request
  unfold Request.base firstFact
  split <;> omega

/-- What a connection that asked for too far a position is left with, if
nothing is published to it. -/
structure Silent (session₀ : LiveSession κ π) (tail : Tail κ π) : Prop where
  facts : factsOf tail.sub.shown = []
  still : tail.session.lastSequence = session₀.lastSequence ∨
    tail.sub.stopped = true ∧ tail.sub.overflowed = false
  overflowed : tail.sub.overflowed = true → tail.superseded = true

/-! ## Silence -/

namespace Silent

theorem offer_nil (sub : Subscription) : sub.offer C [] = sub := by
  unfold Subscription.offer Subscription.offerEach
  exact ite_self _

theorem offer_stopped {sub : Subscription} (h : sub.stopped = true) (events : List LiveEvent) :
    sub.offer C events = sub := by
  unfold Subscription.offer
  rw [if_pos h]

theorem shown_nextEvent (sub : Subscription) : sub.nextEvent.shown = sub.shown := by
  unfold Subscription.nextEvent
  split
  · next event backlog hbacklog =>
    unfold Subscription.shown
    simp [hbacklog]
  · next event queue hbacklog hqueue =>
    unfold Subscription.shown
    simp [hbacklog, hqueue]
  · rfl

/-- What is shown, and how the stream stands, decide the rest. -/
theorem of_same {sub : Subscription} (h : Silent session₀ tail)
    (hshown : factsOf sub.shown = factsOf tail.sub.shown)
    (hoverflowed : sub.overflowed = true → tail.sub.overflowed = true)
    (hstopped : tail.sub.stopped = true → sub.stopped = true) :
    Silent session₀ { tail with sub := sub } := by
  refine ⟨hshown.trans h.facts, h.still.imp_right fun ⟨hstop, hnot⟩ => ⟨hstopped hstop, ?_⟩,
    fun hover => h.overflowed (hoverflowed hover)⟩
  by_contra hover
  rw [hoverflowed (eq_true_of_ne_false hover)] at hnot
  exact Bool.false_ne_true hnot.symm

theorem finish (h : Silent session₀ tail) (reason : EndReason) :
    Silent session₀ { tail with sub := tail.sub.finish reason } := by
  have hfacts := h.facts
  unfold Subscription.shown at hfacts
  rw [factsOf_append] at hfacts
  unfold Subscription.finish
  split
  · refine h.of_same ?_ (fun hover => absurd hover Bool.false_ne_true)
      fun _ => Tail.Kept.stopped_of_end rfl
    -- what was pending is withdrawn, and none of it was a fact
    rw [h.facts]
    unfold Subscription.shown
    dsimp only
    rw [List.append_nil, List.append_nil]
    exact (List.append_eq_nil_iff.mp hfacts).1
  · split
    · exact h.of_same rfl id fun _ => Tail.Kept.stopped_of_end rfl
    · exact h

theorem markDelivered (h : Silent session₀ tail) (event : LiveEvent) :
    Silent session₀ { tail with sub := tail.sub.markDelivered event } := by
  unfold Subscription.markDelivered
  split
  · exact h
  · exact h.of_same rfl id id

/-- **A fair step keeps the silence.** -/
theorem step (h : Silent session₀ tail) (h₀ : Ordered session₀) (hbeyond : request.beyond session₀)
    (op : TailOp) (hfair : FairAt C session₀ request tail op) :
    Silent session₀ (tail.step C op) := by
  cases op with
  | publish passedOver facts =>
    unfold Tail.step
    dsimp only
    split
    · exact h
    · next hsuperseded =>
      by_cases hstopped : tail.sub.stopped = true
      · rw [offer_stopped hstopped]
        refine ⟨h.facts, .inr ⟨hstopped, ?_⟩, h.overflowed⟩
        by_contra hover
        exact hsuperseded (h.overflowed (eq_true_of_ne_false hover))
      · have hstill : tail.session.lastSequence = session₀.lastSequence :=
          h.still.resolve_right fun hstop => hstopped hstop.1
        cases facts with
        | nil =>
          show Silent session₀ { tail with sub := tail.sub.offer C [] }
          rw [offer_nil]
          exact h
        | cons fact rest =>
          -- an open connection is published nothing before its position
          rcases hfair with hstop | ⟨hstart, -⟩
          · exact absurd hstop hstopped
          · have hbase := Request.base_of_beyond hbeyond
            have hposition := hbeyond.2
            have hpositive := h₀.bounds
            omega
  | observe through => exact ⟨h.facts, h.still, h.overflowed⟩
  | supersede journalId =>
    by_cases hstopped : tail.sub.stopped = true
    · unfold Tail.step
      dsimp only
      rw [offer_stopped hstopped]
      have hfinished := h.finish (.other "session_superseded")
      exact ⟨hfinished.facts, hfinished.still, fun _ => rfl⟩
    · have hstill : tail.session.lastSequence = session₀.lastSequence :=
        h.still.resolve_right fun hstop => hstopped hstop.1
      refine ⟨?_, .inl hstill, fun _ => rfl⟩
      unfold Tail.step Subscription.finish
      dsimp only
      let reset : LiveEvent := ⟨.reset, tail.session.journalId, 0, journalId⟩
      have hreset : reset.sequence = 0 := rfl
      have hnone := h.facts
      rw [← Tail.Kept.factsOf_offerControl (C := C) tail.sub hreset] at hnone
      rw [if_neg (by simp)]
      split
      · exact hnone
      · exact hnone
  | nextEvent =>
    refine h.of_same (congrArg factsOf (shown_nextEvent _)) ?_ ?_
    · unfold Subscription.nextEvent
      split <;> exact id
    · unfold Subscription.nextEvent
      split <;> exact id
  | markDelivered index =>
    unfold Tail.step
    cases hevent : tail.sub.taken[index]? with
    | none =>
      simp only [hevent]
      exact h
    | some event =>
      simp only [hevent]
      exact h.markDelivered event
  | finish reason => exact h.finish reason
  | close =>
    refine h.of_same rfl id fun _ => ?_
    unfold Subscription.stopped
    simp

end Silent

/-- **A fact below the first that is shown** is counted, or was withdrawn with
all the others. -/
theorem Tail.Kept.below {sequence : ℕ} (h₀ : Ordered session₀)
    (h : tail.Kept C session₀ request (firstFact session₀ request))
    (hquiet : request.beyond session₀ → Silent session₀ tail)
    (hbase : request.base session₀ ≤ sequence) (hlast : sequence ≤ tail.session.lastSequence)
    (hlt : sequence < firstFact session₀ request) :
    Announced session₀ request tail.sub sequence ∨
      tail.sub.stopped = true ∧ tail.sub.overflowed = false ∧ factsOf tail.sub.shown = [] := by
  obtain ⟨-, hle, -⟩ := h₀.bounds
  rcases h.preamble with hpreamble | ⟨hended, hnot, hnone⟩
  · by_cases hold : sequence ≤ session₀.lastSequence
    · exact .inl (announced_of_lt h₀ hpreamble hbase hold hlt)
    · -- it was published since, before the position asked for
      have hbeyond : request.beyond session₀ := by
        unfold firstFact at hlt
        refine ⟨?_, by omega⟩
        unfold Request.base at hbase
        cases hcursor : request.cursor session₀ with
        | none => rfl
        | some cursor =>
          rw [hcursor, if_pos (Option.isSome_some)] at hbase
          omega
      have hsilent := hquiet hbeyond
      rcases hsilent.still with heq | ⟨hstopped, hnot⟩
      · omega
      · exact .inr ⟨hstopped, hnot, hsilent.facts⟩
  · exact .inr ⟨Tail.Kept.stopped_of_end hended, hnot, hnone⟩

/-! ## Nothing is hidden -/

theorem Tail.Kept.gapless {sequence : ℕ} (h₀ : Ordered session₀)
    (h : tail.Kept C session₀ request (firstFact session₀ request))
    (hquiet : request.beyond session₀ → Silent session₀ tail)
    (hbase : request.base session₀ ≤ sequence) (hlast : sequence ≤ tail.session.lastSequence) :
    sequence ∈ factsOf tail.sub.shown ∨ Announced session₀ request tail.sub sequence ∨
      tail.sub.stopped = true ∧ (∀ shown ∈ factsOf tail.sub.shown, shown < sequence) ∧
        (tail.sub.overflowed = true → tail.sub.lastDeliveredSequence < sequence) := by
  by_cases hlt : sequence < firstFact session₀ request
  · rcases h.below h₀ hquiet hbase hlast hlt with hannounced | ⟨hstopped, hnot, hnone⟩
    · exact .inr (.inl hannounced)
    · refine .inr (.inr ⟨hstopped, ?_, fun hover => ?_⟩)
      · rw [hnone]
        exact fun _ hmem => absurd hmem List.not_mem_nil
      · rw [hnot] at hover
        exact absurd hover Bool.false_ne_true
  · obtain ⟨n, hfacts, -, hopen⟩ := h.facts
    have hcursor := h.cursor_lt hfacts
    rw [hfacts]
    by_cases hshown : sequence < firstFact session₀ request + n
    · exact .inl (List.mem_range'_1.mpr ⟨by omega, hshown⟩)
    · refine .inr (.inr ⟨?_, fun shown hmem => ?_, fun _ => by omega⟩)
      · by_contra hstopped
        have hall := hopen (eq_false_of_ne_true hstopped)
        omega
      · have := (List.mem_range'_1.mp hmem).2
        omega

/-- Where a cursor of the session's own is resumed from. -/
theorem start_resumeWith (session : LiveSession κ π) (fromSpec : FromSpec) (cursor : ℕ) :
    (Request.mk fromSpec (some (resumeWith session.journalId cursor))).start session = 2 ∨
      (Request.mk fromSpec (some (resumeWith session.journalId cursor))).start session =
        cursor + 1 := by
  unfold Request.start
  dsimp only
  split
  · next resumed hresume =>
    right
    unfold LastEventId.resume resumeWith at hresume
    dsimp only at hresume
    rw [if_neg (fun hne => hne rfl)] at hresume
    split at hresume
    · cases hresume
    · next named hnamed =>
      split at hnamed
      · obtain rfl := Option.some.inj hnamed
        split at hresume
        · cases hresume
        · split at hresume
          · cases hresume
          · rw [Except.ok.inj hresume]
      · cases hnamed
  · exact .inl rfl

theorem mem_backlog {connections projectConnections : ℕ} {sub : Subscription} {event : LiveEvent}
    (hsub : subscribe C connections projectConnections session request = .ok sub)
    (hmem : event ∈ session.events) (hstart : max (request.start session) 2 ≤ event.sequence) :
    event ∈ sub.backlog := by
  unfold subscribe at hsub
  split at hsub
  · cases hsub
  · split at hsub
    · cases hsub
    · split at hsub
      · cases hsub
      · obtain rfl := Except.ok.inj hsub
        exact List.mem_append_right _ (List.mem_filter.mpr ⟨hmem, by simpa using hstart⟩)

theorem overflowCursor_eq_some {sub : Subscription} {cursor : ℕ}
    (h : sub.overflowCursor = some cursor) :
    sub.shown = sub.taken ∧ sub.overflowed = true ∧ cursor = sub.lastDeliveredSequence := by
  unfold Subscription.overflowCursor at h
  split at h
  · next hempty =>
    refine ⟨?_, hempty.2.2, (Option.some.inj h).symm⟩
    unfold Subscription.shown
    rw [hempty.1, hempty.2.1, List.append_nil, List.append_nil]
  · cases h

/-- **What is kept of a connection hides nothing.** -/
theorem Tail.Kept.honest (h₀ : Ordered session₀)
    (h : tail.Kept C session₀ request (firstFact session₀ request))
    (hquiet : request.beyond session₀ → Silent session₀ tail) :
    Honest C session₀ request tail := by
  have hbounded := h.bounded
  refine ⟨?_, fun sequence => h.gapless h₀ hquiet, hbounded.records, ?_, ?_⟩
  · obtain ⟨n, hfacts, -, -⟩ := h.facts
    obtain ⟨k, -, htaken⟩ := factsOf_split hfacts
    exact ⟨_, k, htaken⟩
  · have hqueued := hbounded.queued
    have hbytes := hbounded.bytes
    omega
  · intro cursor fromSpec connections projectConnections sub' hcursor hsub event hmem htwo hbase
    obtain ⟨hshown, hover, rfl⟩ := overflowCursor_eq_some hcursor
    have hlast : event.sequence ≤ tail.session.lastSequence := by
      exact (h.ordered.bounds.2.2 _ (List.mem_map_of_mem hmem)).2
    rcases h.gapless h₀ hquiet hbase hlast with hfact | hannounced | ⟨-, -, hpast⟩
    · rw [hshown] at hfact
      exact .inl hfact
    · exact .inr (.inl hannounced)
    · -- everything past the cursor is asked for again
      have hpast := hpast hover
      refine .inr (.inr (mem_backlog hsub hmem ?_))
      rcases start_resumeWith tail.session fromSpec tail.sub.lastDeliveredSequence with
        hstart | hstart <;> rw [hstart] <;> omega

theorem silent_subscribe {connections projectConnections : ℕ} {sub : Subscription}
    (h₀ : Ordered session₀) (hcomplete : Complete session₀ request)
    (hsub : subscribe C connections projectConnections session₀ request = .ok sub)
    (hbeyond : request.beyond session₀) : Silent session₀ ⟨session₀, sub, false⟩ := by
  have hkept := subscribe_kept h₀ hcomplete hsub
  obtain ⟨n, hfacts, hle, -⟩ := hkept.facts
  have hover : sub.overflowed = false := by
    unfold subscribe at hsub
    split at hsub
    · cases hsub
    · split at hsub
      · cases hsub
      · split at hsub
        · cases hsub
        · rw [← Except.ok.inj hsub]
  refine ⟨?_, .inl rfl, fun hnot => ?_⟩
  · have hn : n = 0 := by
      have hbeyond := hbeyond.2
      unfold firstFact at hle
      dsimp only at hle
      omega
    rw [hfacts, hn]
    rfl
  · rw [hover] at hnot
    exact absurd hnot Bool.false_ne_true

/-- No more is counted than the session had. -/
theorem Announced.lt {sub : Subscription} {sequence : ℕ}
    (h : Announced session₀ request sub sequence) :
    sequence < max (session₀.lastSequence + 1) (request.base session₀) := by
  obtain ⟨_, _, _, _, -, -, -, -, -, hcounted⟩ := h
  unfold withheldRecords firstShown at hcounted
  unfold Request.base at hcounted ⊢
  split at hcounted
  · next hresumed =>
    rw [if_pos hresumed]
    omega
  · next hresumed =>
    rw [if_neg hresumed]
    omega

/-- **A number that is owed, and neither shown nor counted, is hidden** from a
connection that is open, or that overflowed with the number behind it. -/
theorem not_honest_of_missing {sequence : ℕ} (hbase : request.base session₀ ≤ sequence)
    (hlast : sequence ≤ tail.session.lastSequence)
    (hpast : max (session₀.lastSequence + 1) (request.base session₀) ≤ sequence)
    (hshown : sequence ∉ factsOf tail.sub.shown)
    (hopen : tail.sub.stopped = true → tail.sub.overflowed = true ∧
        sequence ≤ tail.sub.lastDeliveredSequence ∨
      ∃ later ∈ factsOf tail.sub.shown, sequence ≤ later) :
    ¬ Honest C session₀ request tail := by
  intro h
  rcases h.gapless sequence hbase hlast with hmem | hannounced | ⟨hstopped, hall, hover⟩
  · exact hshown hmem
  · have := hannounced.lt
    omega
  · rcases hopen hstopped with ⟨hoverflowed, hcursor⟩ | ⟨later, hmem, hle⟩
    · have := hover hoverflowed
      omega
    · have := hall later hmem
      omega

/-- **An unfair publication hides a number** from the connection. -/
theorem Tail.Kept.not_honest (h₀ : Ordered session₀)
    (h : tail.Kept C session₀ request (firstFact session₀ request)) (op : TailOp)
    (hunfair : ¬ FairAt C session₀ request tail op) :
    ¬ Honest C session₀ request (tail.step C op) := by
  cases op with
  | publish passedOver facts =>
    cases facts with
    | nil => exact absurd trivial hunfair
    | cons fact rest =>
      obtain ⟨hopened, hunfair⟩ := not_or.mp hunfair
      have hstopped := eq_false_of_ne_true hopened
      have hsuperseded : ¬ tail.superseded = true := fun hsuperseded =>
        hopened (Tail.Kept.stopped_of_end (h.superseded hsuperseded))
      obtain ⟨hpos₀, hfirst₀, -⟩ := h₀.bounds
      have hpositive := h.ordered.bounds
      have hgrown := h.grown
      have hresumed := h.resumed
      have hstart := Request.two_le_start h₀ request
      have hbaseLe := Request.base_le_firstFact h₀ request
      obtain ⟨n, hfacts, -, hwhole⟩ := h.facts
      have hwhole := hwhole hstopped
      have hcursor := h.cursor_lt hfacts
      let events := numberFacts tail.session.journalId
        (tail.session.lastSequence + 1 + passedOver) (fact :: rest)
      have hstep : tail.step C (.publish passedOver (fact :: rest)) =
          { tail with
            session := events.foldl (LiveSession.append C.toLiveConfig) tail.session
            sub := Subscription.offerEach C events tail.sub } := by
        unfold Tail.step Subscription.offer
        dsimp only
        rw [if_neg hsuperseded, if_neg hopened]
      have hsame := (offerEach_offered (C := C) events tail.sub).same
      have hcursor' : (Subscription.offerEach C events tail.sub).lastDeliveredSequence =
          tail.sub.lastDeliveredSequence := by rw [hsame]
      have hlast := (h.ordered.publish (C := C) tail.session.journalId (fact :: rest)
        (show tail.session.lastSequence < tail.session.lastSequence + 1 + passedOver by omega)).2
      rw [if_neg (List.cons_ne_nil _ _), List.length_cons] at hlast
      have hreached : tail.session.lastSequence + 1 + passedOver ≤
          (events.foldl (LiveSession.append C.toLiveConfig) tail.session).lastSequence := by
        refine le_of_le_of_eq ?_ hlast.symm
        omega
      have hmem {sequence : ℕ} (hmem : sequence ∈
          factsOf (Subscription.offerEach C events tail.sub).shown) :
          sequence ∈ List.range' (firstFact session₀ request) n ∨
            tail.session.lastSequence + 1 + passedOver ≤ sequence ∧
              tail.sub.lastDeliveredSequence < sequence := by
        rw [← hfacts]
        exact mem_offerEach_facts _ _ _ _ hmem
      rw [hstep]
      by_cases hposition : request.start session₀ ≤
          max (tail.session.lastSequence + 1) (request.base session₀)
      · -- a number that is owed is passed over, and the next fact is shown
        obtain ⟨hover, hroom⟩ := not_or.mp (not_and.mp hunfair hposition)
        have hshown := mem_offerEach_first (C := C) tail.session.journalId fact rest
          (tail.session.lastSequence + 1 + passedOver) tail.sub (by omega) (by
            unfold firstFact at hcursor hwhole
            omega) hroom
        have hbase : request.base session₀ ≤
          max (tail.session.lastSequence + 1) (request.base session₀) := le_max_right _ _
        refine not_honest_of_missing hbase ?_ (by omega) ?_ fun _ => .inr ⟨_, hshown, by omega⟩
        · dsimp only
          omega
        · intro hnot
          rcases hmem hnot with hold | hnew
          · have := (List.mem_range'_1.mp hold).2
            unfold firstFact at this hwhole
            omega
          · omega
      · -- what is published before the position asked for is passed over in silence
        have hbase : request.base session₀ = 2 := by
          by_contra hbase
          have : request.base session₀ = request.start session₀ := by
            unfold Request.base at hbase ⊢
            split at hbase
            · next hsome => rw [if_pos hsome]
            · exact absurd rfl hbase
          omega
        have hbelow : request.base session₀ ≤ tail.session.lastSequence + 1 := by omega
        refine not_honest_of_missing hbelow ?_ (by omega) ?_ fun hstop => .inl ⟨?_, ?_⟩
        · dsimp only
          omega
        · intro hnot
          rcases hmem hnot with hold | hnew
          · have := (List.mem_range'_1.mp hold).1
            unfold firstFact at this
            omega
          · omega
        · dsimp only at hstop ⊢
          unfold Subscription.stopped at hstop hstopped
          rw [hsame] at hstop
          rw [Bool.or_assoc, Bool.or_eq_false_iff] at hstopped
          dsimp only at hstop
          rw [Bool.or_assoc, hstopped.2, Bool.or_false] at hstop
          exact hstop
        · dsimp only
          omega
  | _ => exact absurd trivial hunfair

/-- **A run hides nothing exactly when its publications are fair.** -/
theorem Tail.Kept.honest_run_iff (h₀ : Ordered session₀) (ops : List TailOp)
    (h : tail.Kept C session₀ request (firstFact session₀ request))
    (hsilent : request.beyond session₀ → Silent session₀ tail) :
    (∀ pre, pre <+: ops → Honest C session₀ request (tail.run C pre)) ↔
      FairRun C session₀ request tail ops := by
  have hbase := Request.base_le_firstFact h₀ request
  induction ops generalizing tail with
  | nil =>
    refine iff_of_true (fun pre hpre => ?_) trivial
    rw [List.prefix_nil.mp hpre]
    exact h.honest h₀ hsilent
  | cons op ops ih =>
    unfold FairRun
    constructor
    · intro hall
      have hfair : FairAt C session₀ request tail op := by
        by_contra hunfair
        exact h.not_honest h₀ op hunfair (hall [op] ⟨ops, rfl⟩)
      refine ⟨hfair, (ih (h.step hbase op hfair) fun hbeyond =>
        (hsilent hbeyond).step h₀ hbeyond op hfair).mp fun pre hpre => ?_⟩
      exact hall (op :: pre) (List.cons_prefix_cons.mpr ⟨rfl, hpre⟩)
    · rintro ⟨hfair, hrest⟩ pre hpre
      cases pre with
      | nil => exact h.honest h₀ hsilent
      | cons op' pre =>
        obtain ⟨rfl, hpost⟩ := List.cons_prefix_cons.mp hpre
        exact (ih (h.step hbase op' hfair) fun hbeyond =>
          (hsilent hbeyond).step h₀ hbeyond op' hfair).mpr hrest pre hpost

/-- A connection is hidden what the session lacks when it subscribes. -/
theorem complete_of_honest {connections projectConnections : ℕ} {sub : Subscription}
    (h₀ : Ordered session₀)
    (hsub : subscribe C connections projectConnections session₀ request = .ok sub)
    (h : Honest C session₀ request ⟨session₀, sub, false⟩) : Complete session₀ request := by
  have hstart := Request.two_le_start h₀ request
  have hbase := Request.base_le_firstFact h₀ request
  have hcontrol := factsOf_preamble h₀ request
  obtain ⟨hpos, hle, -⟩ := h₀.bounds
  unfold subscribe at hsub
  split at hsub
  · cases hsub
  · split at hsub
    · cases hsub
    · split at hsub
      · cases hsub
      · obtain rfl := Except.ok.inj hsub
        intro sequence hmem
        have hrange := List.mem_range'_1.mp hmem
        unfold firstFact at hbase
        rcases h.gapless sequence (by omega) (by dsimp only; omega) with
          hshown | hannounced | ⟨hstopped, -, -⟩
        · unfold Subscription.shown at hshown
          dsimp only at hshown
          rw [List.nil_append, List.append_nil, factsOf_append, hcontrol, List.nil_append] at hshown
          obtain ⟨event, hevent, rfl⟩ := List.mem_map.mp (List.mem_filter.mp hshown).1
          exact List.mem_map_of_mem (List.mem_filter.mp hevent).1
        · obtain ⟨_, _, _, _, -, -, -, -, -, hcounted⟩ := hannounced
          unfold withheldRecords firstShown Request.base at hcounted
          split at hcounted <;> omega
        · exact absurd hstopped Bool.false_ne_true

/-- **A tail hides no gap exactly when** its session keeps every fact from the
first one shown on, and what is published while it is open comes next. -/
theorem honest_iff {connections projectConnections : ℕ} {sub : Subscription}
    (hsession : History C.toLiveConfig session₀)
    (hsub : subscribe C connections projectConnections session₀ request = .ok sub)
    (ops : List TailOp) :
    (∀ pre, pre <+: ops → Honest C session₀ request
      (Tail.run C ⟨session₀, sub, false⟩ pre)) ↔
      Complete session₀ request ∧ FairRun C session₀ request ⟨session₀, sub, false⟩ ops := by
  have h₀ := hsession.ordered
  constructor
  · intro hall
    have hcomplete := complete_of_honest h₀ hsub (hall [] (List.nil_prefix))
    exact ⟨hcomplete, ((subscribe_kept h₀ hcomplete hsub).honest_run_iff h₀ ops
      (silent_subscribe h₀ hcomplete hsub)).mp hall⟩
  · rintro ⟨hcomplete, hfair⟩
    exact ((subscribe_kept h₀ hcomplete hsub).honest_run_iff h₀ ops
      (silent_subscribe h₀ hcomplete hsub)).mpr hfair

/-! ## A position past the next fact, and a number passed over -/

/-- A journal of which the header is published. -/
def openedSession : LiveSession Unit Unit :=
  let session := Registry.newSession sampleGovernance 0 "session" "project" .journal
    (sampleHeader "first" "session") false
  session.append smallConfig session.openEvent

def smallTail : TailConfig :=
  { smallConfig with
    maxConnections := 4
    maxConnectionsPerProject := 4
    maxSubscribersPerSession := 4
    maxQueueRecords := 4
    maxQueueBytes := 100 }

theorem history_openedSession : History smallTail.toLiveConfig openedSession :=
  .registered _ _ _ _ _ _ _

/-- Facts are taken, the queue fills, and a file goes on past three numbers the
session lacks: the connection has overflowed by then. -/
def fallenBehind : List TailOp :=
  [.publish 0 [(.record, "{}"), (.record, "{}")], .nextEvent, .nextEvent,
    .markDelivered 1, .publish 0 [(.record, "{}"), (.record, "{}"),
      (.record, "{}")], .publish 3 [(.record, "{}")], .nextEvent, .nextEvent]

/-- Asked for all of a journal, a tail that falls behind hides nothing. -/
theorem honest_from_start : ∃ sub,
    subscribe smallTail 0 0 openedSession ⟨.start, none⟩ = .ok sub ∧
      (Tail.run smallTail ⟨openedSession, sub, false⟩ fallenBehind).sub.overflowed = true ∧
      ∀ pre, pre <+: fallenBehind → Honest smallTail openedSession ⟨.start, none⟩
        (Tail.run smallTail ⟨openedSession, sub, false⟩ pre) := by
  obtain ⟨sub, hsub, hover, hfair⟩ : ∃ sub,
      subscribe smallTail 0 0 openedSession ⟨.start, none⟩ = .ok sub ∧
        (Tail.run smallTail ⟨openedSession, sub, false⟩ fallenBehind).sub.overflowed = true ∧
        FairRun smallTail openedSession ⟨.start, none⟩ ⟨openedSession, sub, false⟩
          fallenBehind := ⟨_, rfl, by decide, by decide⟩
  exact ⟨sub, hsub, hover, (honest_iff history_openedSession hsub _).mpr ⟨by decide, hfair⟩⟩

/-- **Asked for the fifth fact of a journal that has one**, a tail never says
that the second was withheld; and asked for all of a journal, it goes on from the
second fact to the fifth where a file does. -/
theorem not_honest_from_five :
    (∃ sub, subscribe smallTail 0 0 openedSession ⟨.position 5, none⟩ = .ok sub ∧
      ¬ Honest smallTail openedSession ⟨.position 5, none⟩
        (Tail.run smallTail ⟨openedSession, sub, false⟩ [.publish 0 [(.record, "{}")]])) ∧
    ∃ sub, subscribe smallTail 0 0 openedSession ⟨.start, none⟩ = .ok sub ∧
      ¬ Honest smallTail openedSession ⟨.start, none⟩
        (Tail.run smallTail ⟨openedSession, sub, false⟩
          [.publish 0 [(.record, "{}")], .publish 2 [(.record, "{}")]]) := by
  have hordered := history_openedSession.ordered
  constructor
  · obtain ⟨sub, hsub, hunfair⟩ : ∃ sub,
        subscribe smallTail 0 0 openedSession ⟨.position 5, none⟩ = .ok sub ∧
          ¬ FairAt smallTail openedSession ⟨.position 5, none⟩ ⟨openedSession, sub, false⟩
            (.publish 0 [(.record, "{}")]) := ⟨_, rfl, by decide⟩
    exact ⟨sub, hsub, (subscribe_kept hordered (by decide) hsub).not_honest hordered _ hunfair⟩
  · obtain ⟨sub, hsub, hfair, hunfair⟩ : ∃ sub,
        subscribe smallTail 0 0 openedSession ⟨.start, none⟩ = .ok sub ∧
          FairAt smallTail openedSession ⟨.start, none⟩ ⟨openedSession, sub, false⟩
            (.publish 0 [(.record, "{}")]) ∧
          ¬ FairAt smallTail openedSession ⟨.start, none⟩
            (Tail.step smallTail ⟨openedSession, sub, false⟩ (.publish 0 [(.record, "{}")]))
            (.publish 2 [(.record, "{}")]) := ⟨_, rfl, by decide, by decide⟩
    have hkept := (subscribe_kept hordered (by decide) hsub).step
      (Request.base_le_firstFact hordered _) _ hfair
    exact ⟨sub, hsub, hkept.not_honest hordered _ hunfair⟩

end Live

end Earshot
