import Earshot.Client.Lanes
import Earshot.Common.Run
/-!
# No undeclared gap

What the transport's history says of its requests. Each session's drains are
accepted in order; a posted drain declares, or an accepted one before it has
declared, every earlier drain that was not accepted, unless the loss was
reported as one that is not tracked; and nothing is declared lost that was
accepted or that is retained.

It is so while every drain is sent in an authorization context that is the
transport's (`declared_of_tracked`). `send` gives up a drain in any other
context without a trace, where the loop, which meets the same context later,
keeps one (`undeclared_after_a_refusal`).
-/

namespace Earshot.Client

open Relational Sender

/-! ## What a history says -/

namespace Entry

/-- The session's drain `m` was accepted. -/
def accepts (sessionId : String) (m : ℕ) : Entry → Bool
  | .accepted p => decide (p.number sessionId = some m)
  | _ => false

/-- An accepted drain of the session declared `m` lost. -/
def declares (sessionId : String) (m : ℕ) : Entry → Bool
  | .accepted p => (p.number sessionId).isSome && p.gap.any fun g => decide (m ∈ g)
  | _ => false

/-- The loss of the session's drain `m` was reported as not tracked. -/
def disowns (sessionId : String) (m : ℕ) : Entry → Bool
  | .failed p failure =>
      (failure.resyncTracked = some false || failure.retryRetained = some false) &&
        decide (p.number sessionId = some m)
  | _ => false

end Entry

/-- The drain `m` before `p` needs no further word. -/
def Accounted (pre : List Entry) (p : CapturePayload) (m : ℕ) : Prop :=
  (∃ entry ∈ pre, entry.accepts p.sessionId m = true) ∨
    (∃ g ∈ p.gap, m ∈ g) ∨
    (∃ entry ∈ pre, entry.declares p.sessionId m = true) ∨
    ∃ entry ∈ pre, entry.disowns p.sessionId m = true

/-- **No undeclared gap, and no gap declared that is none.** -/
structure Declared (history : List Entry) : Prop where
  increasing : ∀ sessionId,
    (history.filterMap (Entry.acceptedOf sessionId)).Pairwise fun later earlier =>
      earlier.1 < later.1
  covered : ∀ post p retained pre, history = post ++ .posted p retained :: pre →
    ∀ n, p.sequence = some n → ∀ m, 1 ≤ m → m < n → Accounted pre p m
  honest : ∀ p retained, .posted p retained ∈ history → p.sequence.isSome = true →
    ∀ g ∈ p.gap, ∀ m ∈ g, (∀ entry ∈ history, entry.accepts p.sessionId m = false) ∧
      ∀ q ∈ retained, q.number p.sessionId ≠ some m

instance (pre : List Entry) (p : CapturePayload) (m : ℕ) : Decidable (Accounted pre p m) :=
  inferInstanceAs (Decidable (_ ∨ _ ∨ _ ∨ _))

namespace Transport

variable {β : Type*}

/-- A drain comes in its session's order. -/
def InOrder (s : Transport β) (event : Event) : Prop :=
  ∀ p ∈ event.payload, ∀ n ∈ p.sequence,
    n = (s.sent.filterMap fun q => q.number p.sessionId).length + 1

/-- A drain is sent in the transport's own context, or after it was stopped, and
declares nothing itself. -/
def Tracked (s : Transport β) (event : Event) : Prop :=
  ∀ p ∈ event.payload, p.sequence.isSome = true →
    (s.authCurrent = true ∨ s.stopped = true) ∧ p.resync = none

instance (s : Transport β) (event : Event) : Decidable (s.InOrder event) :=
  inferInstanceAs (Decidable (∀ p ∈ event.payload, ∀ n ∈ p.sequence, _))

instance (s : Transport β) (event : Event) : Decidable (s.Tracked event) :=
  inferInstanceAs (Decidable (∀ p ∈ event.payload, _ → _))

/-! ## What the transport knows -/

/-- The requests of a history, and what each session's sender knows. -/
structure Books (s : Transport β) (d : Desk) : Prop where
  known : ∀ sessionId, Known (lane sessionId s d)
  plain : ∀ p ∈ d.held, p.sequence.isSome = true → p.resync = none
  reached : ∀ p retained, .posted p retained ∈ s.history → ∀ n, p.sequence = some n →
    (lane p.sessionId s d).Reached n ∧ ∀ g ∈ p.gap, g.last < n
  covered : ∀ post p retained pre, s.history = post ++ .posted p retained :: pre →
    ∀ n, p.sequence = some n → ∀ m, 1 ≤ m → m < n → Accounted pre p m
  honest : ∀ p retained, .posted p retained ∈ s.history → p.sequence.isSome = true →
    ∀ g ∈ p.gap, ∀ m ∈ g, (∀ entry ∈ s.history, entry.accepts p.sessionId m = false) ∧
      ∀ q ∈ retained, q.number p.sessionId ≠ some m

variable {s s' : Transport β} {d d' : Desk} {p : CapturePayload} {held : List CapturePayload}

theorem Books.declared (h : Books s d) : Declared s.history where
  increasing sessionId := (h.known sessionId).accepted_sorted
  covered := h.covered
  honest := h.honest

/-- A post is found behind an entry that is none. -/
theorem covered_cons {entry : Entry} {history : List Entry}
    (hentry : ∀ p retained, entry ≠ .posted p retained)
    (h : ∀ post p retained pre, history = post ++ .posted p retained :: pre →
      ∀ n, p.sequence = some n → ∀ m, 1 ≤ m → m < n → Accounted pre p m) :
    ∀ post p retained pre, entry :: history = post ++ .posted p retained :: pre →
      ∀ n, p.sequence = some n → ∀ m, 1 ≤ m → m < n → Accounted pre p m := by
  intro post p retained pre heq
  cases post with
  | nil => exact absurd (List.cons.inj heq).1 (hentry p retained)
  | cons first post => exact h post p retained pre (List.cons.inj heq).2

/-- **A move of every lane keeps the books**, whatever failure it reports. -/
theorem Books.moves (h : Books s d)
    (hmoves : ∀ sessionId, Moves (lane sessionId s d) (lane sessionId s' d'))
    (hheld : ∀ p ∈ d'.held, p ∈ d.held)
    (hhistory : s'.history = s.history ∨
      ∃ p failure, s'.history = .failed p failure :: s.history) : Books s' d' := by
  have hposted : ∀ p retained, .posted p retained ∈ s'.history →
      .posted p retained ∈ s.history := by
    intro p retained hmem
    rcases hhistory with heq | ⟨q, failure, heq⟩
    · exact heq ▸ hmem
    · rw [heq] at hmem
      exact (List.mem_cons.mp hmem).resolve_left fun hne => by cases hne
  exact {
    known := fun sessionId => (h.known sessionId).moves (hmoves sessionId)
    plain := fun p hp => h.plain p (hheld p hp)
    reached := fun p retained hmem n hn => by
      obtain ⟨hreached, hgap⟩ := h.reached p retained (hposted p retained hmem) n hn
      exact ⟨hreached.moves (hmoves p.sessionId), hgap⟩
    covered := by
      rcases hhistory with heq | ⟨q, failure, heq⟩
      · rw [heq]
        exact h.covered
      · rw [heq]
        exact covered_cons (fun p retained hne => by cases hne) h.covered
    honest := fun p retained hmem hp g hg m hm => by
      obtain ⟨haccepted, hretained⟩ := h.honest p retained (hposted p retained hmem) hp g hg m hm
      refine ⟨?_, hretained⟩
      rcases hhistory with heq | ⟨q, failure, heq⟩
      · rw [heq]
        exact haccepted
      · rw [heq]
        intro entry hentry
        rcases List.mem_cons.mp hentry with rfl | hentry
        · rfl
        · exact haccepted entry hentry }

theorem acceptedOf_eq_some {entry : Entry} {sessionId : String} {n : ℕ} {declared : Option Gap}
    (h : entry.acceptedOf sessionId = some (n, declared)) :
    ∃ q, entry = .accepted q ∧ q.number sessionId = some n ∧ q.gap = declared := by
  cases entry with
  | posted | failed => cases h
  | accepted q =>
      obtain ⟨x, hx, heq⟩ := Option.map_eq_some_iff.mp h
      obtain ⟨rfl, rfl⟩ := Prod.mk.inj heq
      exact ⟨q, rfl, hx, rfl⟩

theorem accepts_of_mem {sessionId : String} {n : ℕ} {declared : Option Gap}
    (h : (n, declared) ∈ (lane sessionId s d).accepted) :
    ∃ entry ∈ s.history, entry.accepts sessionId n = true := by
  obtain ⟨entry, hentry, heq⟩ := List.mem_filterMap.mp h
  obtain ⟨q, rfl, hn, -⟩ := acceptedOf_eq_some heq
  exact ⟨_, hentry, decide_eq_true hn⟩

/-- An accepted drain in its session's lane. -/
theorem mem_accepted_of_accepts {sessionId : String} {n : ℕ} {entry : Entry}
    (hentry : entry ∈ s.history) (h : entry.accepts sessionId n = true) :
    ∃ declared, (n, declared) ∈ (lane sessionId s d).accepted := by
  cases entry with
  | posted | failed => cases h
  | accepted q =>
      have hn : q.number sessionId = some n := of_decide_eq_true h
      refine ⟨q.gap, List.mem_filterMap.mpr ⟨_, hentry, ?_⟩⟩
      rw [Entry.acceptedOf, hn, Option.map_some]

/-- **What the sender accounts for the history does.** -/
theorem accounted_of_lane {m : ℕ} (h : (lane p.sessionId s d).Accounted m) :
    Accounted s.history p m := by
  rcases h with ⟨declared, h⟩ | ⟨⟨n, declared⟩, ha, g, hg, hm⟩ | h
  · exact Or.inl (accepts_of_mem h)
  · obtain ⟨entry, hentry, heq⟩ := List.mem_filterMap.mp ha
    obtain ⟨q, rfl, hn, rfl⟩ := acceptedOf_eq_some heq
    refine Or.inr (Or.inr (Or.inl ⟨_, hentry, ?_⟩))
    have hgap : q.gap = some g := hg
    rw [Entry.declares, hn, hgap, Option.any_some, decide_eq_true hm]
    rfl
  · obtain ⟨entry, hentry, heq⟩ := List.mem_filterMap.mp h
    refine Or.inr (Or.inr (Or.inr ⟨entry, hentry, ?_⟩))
    cases entry with
    | posted | accepted => cases heq
    | failed q failure =>
        rw [Entry.untrackedOf] at heq
        split at heq
        · next hreported =>
          rw [Entry.disowns, decide_eq_true heq, Bool.and_true]
          simpa using hreported
        · cases heq

theorem Books.post (h : Books s ⟨held, some p, none⟩) (hrows : s.Rows) (hoffered : s.Offered p) :
    Books
      { s with history := .posted p (s.pendingExactRetry.rows.map (·.payload)) :: s.history }
      ⟨held, some p, none⟩ := by
  have hlane : ∀ sessionId, lane sessionId
      { s with history := .posted p (s.pendingExactRetry.rows.map (·.payload)) :: s.history }
      ⟨held, some p, none⟩ = lane sessionId s ⟨held, some p, none⟩ := fun sessionId => rfl
  have hoffer := fun n (hn : p.sequence = some n) =>
    (h.known p.sessionId).offered n p.gap (lane_offered hoffered hn)
  exact {
    known := fun sessionId => by
      rw [hlane]
      exact h.known sessionId
    plain := h.plain
    reached := fun q retained hmem n hn => by
      rw [hlane]
      rcases List.mem_cons.mp hmem with heq | hmem
      · obtain ⟨rfl, rfl⟩ := Entry.posted.inj heq
        obtain ⟨-, hle, -, hwaiting, -, hgap, -⟩ := hoffer n hn
        refine ⟨⟨hle, hwaiting, fun m declared hm => ?_⟩, fun g hg => (hgap g hg).2.2.1⟩
        rw [lane_offered hoffered hn] at hm
        exact (Prod.mk.inj (Option.some.inj hm)).1.le
      · exact h.reached q retained hmem n hn
    covered := fun post q retained pre heq n hn m h1 hlt => by
      cases post with
      | nil =>
          obtain ⟨hentry, rfl⟩ := List.cons.inj heq
          obtain ⟨rfl, rfl⟩ := Entry.posted.inj hentry
          obtain ⟨-, -, -, -, -, -, hbelow⟩ := hoffer n hn
          rcases hbelow m h1 hlt with haccounted | hgap
          · exact accounted_of_lane haccounted
          · exact Or.inr (Or.inl hgap)
      | cons first post => exact h.covered post q retained pre (List.cons.inj heq).2 n hn m h1 hlt
    honest := fun q retained hmem hq g hg m hm => by
      rcases List.mem_cons.mp hmem with heq | hmem
      · obtain ⟨rfl, rfl⟩ := Entry.posted.inj heq
        obtain ⟨n, hn⟩ := Option.isSome_iff_exists.mp hq
        obtain ⟨-, -, -, -, -, hgap, -⟩ := hoffer n hn
        obtain ⟨-, -, hlast, habove⟩ := hgap g hg
        refine ⟨fun entry hentry => eq_false_of_ne_true fun haccepts => ?_, fun r hr hnumber => ?_⟩
        · rcases List.mem_cons.mp hentry with rfl | hentry
          · cases haccepts
          · obtain ⟨declared, ha⟩ := mem_accepted_of_accepts (d := ⟨held, some q, none⟩) hentry
              haccepts
            exact absurd (habove _ ha) (not_lt_of_ge hm.1)
        · -- the session retains at most the request that is posted
          obtain ⟨row, hrow, rfl⟩ := List.mem_map.mp hr
          obtain ⟨hsession, hm'⟩ := CapturePayload.sequence_of_number hnumber
          have hretry := exactRetryOf_of_mem hrows hrow
          rw [hsession] at hretry
          rcases hoffered with hnone | hsome
          · rw [hnone] at hretry
            cases hretry
          · rw [hsome] at hretry
            rw [← Option.some.inj hretry, hn] at hm'
            obtain rfl := Option.some.inj hm'
            exact absurd (lt_of_le_of_lt hm.2 hlast) (Nat.lt_irrefl _)
      · obtain ⟨haccepted, hretained⟩ := h.honest q retained hmem hq g hg m hm
        refine ⟨fun entry hentry => ?_, hretained⟩
        rcases List.mem_cons.mp hentry with rfl | hentry
        · rfl
        · exact haccepted entry hentry }

theorem Books.accept (h : Books s ⟨held, some p, none⟩) (hoffered : s.Offered p) :
    Books { s with history := .accepted p :: s.history } ⟨held, none, some p⟩ := by
  have hposted : ∀ q retained, .posted q retained ∈ .accepted p :: s.history →
      .posted q retained ∈ s.history := fun q retained hmem =>
    (List.mem_cons.mp hmem).resolve_left fun hne => by cases hne
  exact {
    known := fun sessionId => (h.known sessionId).moves (moves_accept hoffered sessionId)
    plain := h.plain
    reached := fun q retained hmem n hn => by
      obtain ⟨hreached, hgap⟩ := h.reached q retained (hposted q retained hmem) n hn
      exact ⟨hreached.moves (moves_accept hoffered q.sessionId), hgap⟩
    covered := covered_cons (fun q retained hne => by cases hne) h.covered
    honest := fun q retained hmem hq g hg m hm => by
      obtain ⟨haccepted, hretained⟩ := h.honest q retained (hposted q retained hmem) hq g hg m hm
      refine ⟨fun entry hentry => ?_, hretained⟩
      rcases List.mem_cons.mp hentry with rfl | hentry
      · -- what is offered is no earlier than what was posted
        refine eq_false_of_ne_true fun haccepts => ?_
        obtain ⟨hsession, hp⟩ := CapturePayload.sequence_of_number (of_decide_eq_true haccepts)
        obtain ⟨n, hn⟩ := Option.isSome_iff_exists.mp hq
        obtain ⟨hreached, hgap⟩ := h.reached q retained (hposted q retained hmem) n hn
        have hle := hreached.le_offered m p.gap (by
          rw [← hsession]
          exact lane_offered hoffered hp)
        exact absurd (lt_of_le_of_lt hm.2 (hgap g hg)) (not_lt_of_ge hle)
      · exact haccepted entry hentry }

/-! ## Every operation keeps the books -/

theorem giveUp_history (sink : β → CaptureCoverage → β) (o : TransportOptions) (cause : Cause)
    (attempts : ℕ) (retained : Option Bool) (track : Bool) :
    ∃ failure, (s.giveUp sink o p cause attempts retained track).history =
      .failed p failure :: s.history := by
  obtain ⟨_, _, hframe⟩ := rememberDroppedDrain_frame o s p
  unfold giveUp
  cases track with
  | false => exact ⟨_, rfl⟩
  | true =>
      dsimp only
      rw [if_pos rfl, hframe]
      exact ⟨_, rfl⟩

theorem retainExactRetry_history (sink : β → CaptureCoverage → β) (o : TransportOptions)
    (cause : Cause) (attempts : ℕ) :
    ∃ failure, (s.retainExactRetry sink o p cause attempts).history =
      .failed p failure :: s.history := by
  obtain ⟨_, _, hframe, -⟩ := rememberExactRetry_frame o s p
  unfold retainExactRetry
  dsimp only
  rw [hframe]
  split
  · exact ⟨_, rfl⟩
  · exact giveUp_history sink o _ attempts (some false) true

theorem clearResync_history (s : Transport β) (p : CapturePayload) :
    (s.clearResync p).history = s.history := by
  obtain ⟨_, hframe⟩ := clearResync_frame s p
  rw [hframe]

theorem booksRules (sink : β → CaptureCoverage → β) (o : TransportOptions) :
    Rules sink o (Books (β := β)) where
  frame h hresync hretry _ hhistory hsent := by
    refine h.moves (fun sessionId => ?_) (fun p hp => hp) (Or.inl hhistory)
    rw [lane_congr sessionId _ hresync hretry hhistory hsent]
  drop p cause attempts h := by
    refine h.moves (moves_drop (h.plain p (List.mem_append_right _ List.mem_cons_self)))
      (fun q hq => ?_) (Or.inr ⟨p, giveUp_history sink o cause attempts none true⟩)
    rcases List.mem_append.mp hq with hq | hq
    · exact List.mem_append_left _ hq
    · exact List.mem_append_right _ (List.mem_cons_of_mem _ hq)
  prepare h hnone :=
    h.moves (moves_prepare (h.plain _ List.mem_cons_self) hnone)
      (fun q hq => List.mem_cons_of_mem _ hq) (Or.inl rfl)
  again _ h hretry := by
    refine h.moves (fun sessionId => ?_) (fun q hq => hq) (Or.inl rfl)
    rw [lane_again hretry]
  post hrows h hoffered := h.post hrows hoffered
  retain cause attempts _ h hoffered hp :=
    h.moves (moves_retain hoffered hp) (fun q hq => hq)
      (Or.inr ⟨_, retainExactRetry_history sink o cause attempts⟩)
  lose cause attempts h hnone :=
    h.moves (moves_lose (h.known _) hnone) (fun q hq => hq)
      (Or.inr ⟨_, giveUp_history sink o cause attempts none true⟩)
  reject cause attempts hrows h hretry :=
    h.moves (moves_reject (h.known _) hrows hretry) (fun q hq => hq)
      (Or.inr ⟨_, giveUp_history sink o cause attempts none true⟩)
  accept _ h hoffered := h.accept hoffered
  settle h hnone :=
    h.moves (moves_settle hnone) (fun q hq => hq) (Or.inl (clearResync_history _ _))
  release _ h _ :=
    h.moves moves_release (fun q hq => hq) (Or.inl (clearResync_history _ _))

/-- **A drain taken in order.** -/
theorem Books.enter (h : Books s d)
    (horder : ∀ n, p.sequence = some n →
      n = (s.sent.filterMap fun q => q.number p.sessionId).length + 1)
    (hplain : p.sequence.isSome = true → p.resync = none) :
    Books { s with sent := p :: s.sent } ⟨d.held ++ [p], d.out, d.done⟩ := by
  have hmoves : ∀ sessionId, Moves (lane sessionId s d)
      (lane sessionId { s with sent := p :: s.sent } ⟨d.held ++ [p], d.out, d.done⟩) := by
    intro sessionId
    cases hnumber : p.number sessionId with
    | none =>
        have heq : lane sessionId { s with sent := p :: s.sent }
            ⟨d.held ++ [p], d.out, d.done⟩ = lane sessionId s d := by
          unfold lane
          rw [List.filterMap_append, List.filterMap_cons, List.filterMap_cons, hnumber,
            List.filterMap_nil, List.append_nil]
          rfl
        rw [heq]
    | some n =>
        obtain ⟨rfl, hn⟩ := CapturePayload.sequence_of_number hnumber
        have hnext : n = (lane p.sessionId s d).sent + 1 := horder n hn
        have heq : lane p.sessionId { s with sent := p :: s.sent }
            ⟨d.held ++ [p], d.out, d.done⟩ =
            { lane p.sessionId s d with
              sent := (lane p.sessionId s d).sent + 1
              waiting := (lane p.sessionId s d).waiting ++ [(lane p.sessionId s d).sent + 1] } := by
          rw [← hnext]
          unfold lane
          rw [List.filterMap_append, List.filterMap_cons, List.filterMap_cons, hnumber,
            List.filterMap_nil, List.length_cons, hnext]
          rfl
        rw [heq]
        exact .single (Step.send _)
  refine { h with
    known := fun sessionId => (h.known sessionId).moves (hmoves sessionId)
    plain := fun q hq => ?_
    reached := fun q retained hmem n hn => ?_ }
  · rcases List.mem_append.mp hq with hq | hq
    · exact h.plain q hq
    · rw [List.mem_singleton.mp hq]
      exact hplain
  · obtain ⟨hreached, hgap⟩ := h.reached q retained hmem n hn
    exact ⟨hreached.moves (hmoves q.sessionId), hgap⟩

/-! ## Runs -/

section Runs

variable (sink : β → CaptureCoverage → β) (o : TransportOptions)

theorem kept_init (coverage : β) : Kept Books (init coverage) where
  coherent := ⟨fun _ h => absurd h List.not_mem_nil, fun _ => rfl,
    fun _ h => (by cases h), fun _ h => (by cases h)⟩
  holds := ⟨fun _ => known_init, fun _ h => absurd h List.not_mem_nil,
    fun _ _ h => absurd h List.not_mem_nil,
    fun post p retained pre h => absurd h (by simp [init]),
    fun _ _ h => absurd h List.not_mem_nil⟩

/-- **One event.** -/
theorem Kept.step {event : Event} (h : Kept Books s) (horder : s.InOrder event)
    (htracked : s.Tracked event) (hstep : s.step sink o event = some s') : Kept Books s' := by
  refine (booksRules sink o).step h (fun p serializes hevent => ?_) hstep
  subst hevent
  refine (booksRules sink o).send serializes h.coherent
    (h.holds.enter (horder p rfl) fun hp => (htracked p rfl hp).2) fun hstopped hauth => ?_
  -- in another context only a payload that is no drain goes without a trace
  have hnone : p.sequence = none := by
    by_contra hsome
    rcases (htracked p rfl (Option.isSome_iff_ne_none.mpr hsome)).1 with h | h
    · rw [hauth] at h
      cases h
    · rw [hstopped] at h
      cases h
  have hlane : ∀ sessionId, lane sessionId { s with sent := p :: s.sent } s.desk =
      lane sessionId s s.desk := by
    intro sessionId
    unfold lane
    rw [List.filterMap_cons, CapturePayload.number_of_none hnone]
    rfl
  refine h.holds.moves (fun sessionId => ?_) (fun q hq => hq)
    (Or.inr ⟨p, giveUp_history sink o _ 0 none false⟩)
  rw [lane_giveUp_of_none hnone, hlane]

/-- **No gap is left undeclared** in a run whose drains come in order, each in
the transport's own context, or after it was stopped, and with nothing declared
by itself. -/
theorem declared_of_tracked (coverage : β) (events : List Event)
    (horder : Transition.Guarded (step sink o) InOrder (init coverage) events)
    (htracked : Transition.Guarded (step sink o) Tracked (init coverage) events) :
    Declared (Transition.run (step sink o) (init coverage) events).history :=
  (Transition.Guarded.induction (P := Kept Books)
    (fun _ _ _ hguard hkept hstep => hkept.step sink o hguard.1 hguard.2 hstep) events _
    (horder.and htracked) (kept_init coverage)).holds.declared

end Runs

/-! ## A drain refused in another context -/

/-- No sink, and room for eight payloads; each is posted once. -/
def sampleOptions : TransportOptions := ⟨8, 32, 1, by decide, by decide, by decide⟩

def sampleDrain (n : ℕ) : CapturePayload := ⟨2, "s", ["snapshot"], [], [], some n, none⟩

/-- The first drain is accepted, the second is sent while the context is
another, and the third once it is back. -/
def awayAndBack : List Event :=
  [.send (sampleDrain 1) true, .fetched (.response 200 true), .read, .notified, .resumed,
    .authContext false, .send (sampleDrain 2) true, .authContext true, .send (sampleDrain 3) true]

/-- **The third drain does not declare the second.** -/
theorem undeclared_after_a_refusal :
    Transition.Guarded (step (fun () _ => ()) sampleOptions) InOrder (init ()) awayAndBack ∧
      ¬ Declared
        (Transition.run (step (fun () _ => ()) sampleOptions) (init ()) awayAndBack).history := by
  refine ⟨by decide +kernel, fun h => ?_⟩
  have hposted : (Transition.run (step (fun () _ => ()) sampleOptions) (init ())
      awayAndBack).history = .posted (sampleDrain 3) [] ::
        (Transition.run (step (fun () _ => ()) sampleOptions) (init ()) awayAndBack).history.tail := by
    decide +kernel
  have haccounted := h.covered [] _ _ _ hposted 3 rfl 2 (by decide) (by decide)
  revert haccounted
  decide +kernel

/-- The first drain is rejected, and the second declares it. -/
theorem declared_after_a_rejection :
    Declared (Transition.run (step (fun () _ => ()) sampleOptions) (init ())
      [.send (sampleDrain 1) true, .fetched (.response 400 false), .resumed,
        .send (sampleDrain 2) true]).history :=
  declared_of_tracked _ sampleOptions () _ (by decide +kernel) (by decide +kernel)

end Transport

end Earshot.Client
