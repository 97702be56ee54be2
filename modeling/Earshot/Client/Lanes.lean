import Earshot.Client.Loop
import Earshot.Common.Sender
/-!
# One lane per session

What the transport does with the numbered drains of one session is what a
sender does that declares its losses: its `lane` reads such a sender off the
transport and a desk. Each operation of the loop is at most one of the sender's
moves in every lane, so what the sender knows (`Sender.Known`) the transport
knows of every session.
-/

namespace Earshot.Client

open Relational Sender

/-! ## Reading a lane -/

namespace CapturePayload

/-- The number of a session's drain. -/
def number (sessionId : String) (p : CapturePayload) : Option ℕ :=
  if p.sessionId = sessionId then p.sequence else none

/-- What it declares lost. -/
def gap (p : CapturePayload) : Option Gap :=
  p.resync.map fun resync => ⟨resync.missedFromSequence, resync.missedThroughSequence⟩

theorem number_self (p : CapturePayload) : p.number p.sessionId = p.sequence := if_pos rfl

theorem number_of_ne {p : CapturePayload} {sessionId : String} (h : p.sessionId ≠ sessionId) :
    p.number sessionId = none := if_neg h

theorem number_of_none {p : CapturePayload} (h : p.sequence = none) (sessionId : String) :
    p.number sessionId = none := by
  unfold number
  split
  · exact h
  · rfl

theorem sequence_of_number {p : CapturePayload} {sessionId : String} {n : ℕ}
    (h : p.number sessionId = some n) : p.sessionId = sessionId ∧ p.sequence = some n := by
  unfold number at h
  split at h
  · next heq => exact ⟨heq, h⟩
  · cases h

end CapturePayload

namespace Entry

/-- A session's drain that was accepted, and what it declared. -/
def acceptedOf (sessionId : String) : Entry → Option (ℕ × Option Gap)
  | .accepted p => (p.number sessionId).map (·, p.gap)
  | _ => none

/-- A session's drain whose loss was reported as not tracked. -/
def untrackedOf (sessionId : String) : Entry → Option ℕ
  | .failed p failure =>
      if failure.resyncTracked = some false ∨ failure.retryRetained = some false then
        p.number sessionId
      else none
  | _ => none

end Entry

/-- The interval of a session's row. -/
def PendingResync.gap (row : PendingResync) : Gap :=
  ⟨row.missedFromSequence, row.missedThroughSequence⟩

namespace Transport

variable {β : Type*}

/-- What a session offers: its retained request, or what is being delivered;
nothing once it was accepted. -/
def offer (s : Transport β) (d : Desk) (sessionId : String) : Option CapturePayload :=
  if d.done.any fun p => decide (p.sessionId = sessionId) then none
  else (s.exactRetryOf sessionId).or (d.out.filter fun p => decide (p.sessionId = sessionId))

/-- **The sender of a session.** -/
def lane (sessionId : String) (s : Transport β) (d : Desk) : Sender.State where
  sent := (s.sent.filterMap fun p => p.number sessionId).length
  waiting := d.held.filterMap fun p => p.number sessionId
  offered := (s.offer d sessionId).bind fun p => (p.number sessionId).map (·, p.gap)
  pending := (s.pendingResync.find? sessionId).map (·.gap)
  settling := d.done.bind fun p => p.number sessionId
  accepted := s.history.filterMap (Entry.acceptedOf sessionId)
  untracked := s.history.filterMap (Entry.untrackedOf sessionId)

theorem lane_congr {s s' : Transport β} (sessionId : String) (d : Desk)
    (hresync : s'.pendingResync = s.pendingResync)
    (hretry : s'.pendingExactRetry = s.pendingExactRetry) (hhistory : s'.history = s.history)
    (hsent : s'.sent = s.sent) : lane sessionId s' d = lane sessionId s d := by
  unfold lane offer
  rw [hresync, hhistory, hsent, exactRetryOf_congr hretry]

/-! ### Where a payload stands -/

section Offers

variable {s : Transport β} {p : CapturePayload} {held : List CapturePayload}

theorem offer_out_self (h : s.Offered p) : s.offer ⟨held, some p, none⟩ p.sessionId = some p := by
  unfold offer
  rw [if_neg (by simp)]
  rcases h with hnone | hsome
  · simp [hnone]
  · rw [hsome, Option.some_or]

theorem offer_out_of_ne {sessionId : String} (hne : p.sessionId ≠ sessionId) :
    s.offer ⟨held, some p, none⟩ sessionId = s.exactRetryOf sessionId := by
  unfold offer
  rw [if_neg (by simp), Option.filter_some, if_neg (by simpa using hne), Option.or_none]

theorem offer_none (sessionId : String) :
    s.offer ⟨held, none, none⟩ sessionId = s.exactRetryOf sessionId := by
  unfold offer
  simp

theorem offer_done_self : s.offer ⟨held, none, some p⟩ p.sessionId = none := by
  unfold offer
  simp

theorem offer_done_of_ne {sessionId : String} (hne : p.sessionId ≠ sessionId) :
    s.offer ⟨held, none, some p⟩ sessionId = s.exactRetryOf sessionId := by
  unfold offer
  simp [hne]

end Offers

/-! ## The ledger of one session -/

/-- The row of a drain that is given up. -/
def dropped (s : Transport β) (p : CapturePayload) (n : ℕ) : PendingResync where
  sessionId := p.sessionId
  missedFromSequence := min
    ((s.pendingResync.find? p.sessionId).elim n (·.missedFromSequence))
    (p.resync.elim n (·.missedFromSequence))
  missedThroughSequence := max
    ((s.pendingResync.find? p.sessionId).elim n (·.missedThroughSequence)) n

/-- **How a lost drain is remembered**: not at all, as lost without a trace, or
in the session's row. -/
theorem rememberDroppedDrain_cases (o : TransportOptions) (s : Transport β) (p : CapturePayload) :
    (p.sequence = none ∧ s.rememberDroppedDrain o p = (s, none)) ∨
    (∃ n saturated, p.sequence = some n ∧ s.pendingResync.find? p.sessionId = none ∧
      s.exactRetryOf p.sessionId = none ∧
      s.rememberDroppedDrain o p = ({ s with recoverySaturated := saturated }, some false)) ∨
    ∃ n, p.sequence = some n ∧
      ¬ (s.recoverySaturated = true ∧ s.pendingResync.find? p.sessionId = none ∧
        s.exactRetryOf p.sessionId = none) ∧
      s.rememberDroppedDrain o p =
        ({ s with pendingResync := s.pendingResync.put (s.dropped p n) }, some true) := by
  unfold rememberDroppedDrain
  cases hp : p.sequence with
  | none => exact Or.inl ⟨rfl, rfl⟩
  | some n =>
      refine Or.inr ?_
      dsimp only
      split
      · next h =>
        simp only [Bool.and_eq_true, Option.isNone_iff_eq_none] at h
        exact Or.inl ⟨n, s.recoverySaturated, rfl, h.2.1, h.2.2, rfl⟩
      · next hknown =>
        split
        · next h =>
          simp only [Bool.and_eq_true, Option.isNone_iff_eq_none] at h
          exact Or.inl ⟨n, true, rfl, h.1.1, h.1.2, rfl⟩
        · refine Or.inr ⟨n, rfl, fun h => hknown ?_, rfl⟩
          simp [h.1, h.2.1, h.2.2]

/-- The row of a drain that is given up is the least that spans what it
declared, itself and what was pending. -/
theorem gap_dropped {s : Transport β} {p : CapturePayload} {n : ℕ}
    (h : ∀ g ∈ p.gap, g.first ≤ n) :
    (s.dropped p n).gap = Gap.merge ⟨(p.gap.map (·.first)).elim n (min · n), n⟩
      ((s.pendingResync.find? p.sessionId).map (·.gap)) := by
  unfold CapturePayload.gap at h ⊢
  unfold dropped PendingResync.gap
  cases hresync : p.resync with
  | none => cases s.pendingResync.find? p.sessionId <;> simp [Gap.merge]
  | some resync =>
      have hle : resync.missedFromSequence ≤ n := h _ (by rw [hresync]; rfl)
      cases s.pendingResync.find? p.sessionId <;> simp [Gap.merge, hle]

/-! ## Giving up -/

/-- A reported failure says that the drain is lost without a trace, or nothing. -/
theorem lane_failed {s s' : Transport β} {p : CapturePayload} {failure : DeliveryFailure}
    (sessionId : String) (d : Desk) (hresync : s'.pendingResync = s.pendingResync)
    (hretry : s'.pendingExactRetry = s.pendingExactRetry)
    (hhistory : s'.history = .failed p failure :: s.history) (hsent : s'.sent = s.sent) :
    lane sessionId s' d =
      { lane sessionId s d with
        untracked := (Entry.untrackedOf sessionId (.failed p failure)).toList ++
          (lane sessionId s d).untracked } := by
  unfold lane offer
  rw [hresync, hhistory, hsent, exactRetryOf_congr hretry, List.filterMap_cons, List.filterMap_cons]
  dsimp only [Entry.acceptedOf]
  cases Entry.untrackedOf sessionId (.failed p failure) <;> rfl

section Moves

variable {sink : β → CaptureCoverage → β} {o : TransportOptions} {s : Transport β}
  {p : CapturePayload} {d : Desk} {cause : Cause} {attempts : ℕ} {retained : Option Bool}

/-- Giving up, once the ledger was written. -/
theorem lane_giveUp (track : Bool) (sessionId : String) {out : Transport β × Option Bool}
    (hout : (if track then s.rememberDroppedDrain o p else (s, none)) = out) :
    lane sessionId (s.giveUp sink o p cause attempts retained track) d =
      { lane sessionId out.1 d with
        untracked :=
          (if out.2 = some false ∨ retained = some false then p.number sessionId
            else none).toList ++ (lane sessionId out.1 d).untracked } := by
  unfold giveUp
  dsimp only
  rw [hout]
  exact @lane_failed β out.1 _ p
    ⟨cause, attempts, p.observations, p.sessionId, out.2, retained⟩ sessionId d rfl rfl rfl rfl

/-- A payload that is no numbered drain leaves no trace in a lane. -/
theorem lane_giveUp_of_none (hp : p.sequence = none) (track : Bool) (sessionId : String) :
    lane sessionId (s.giveUp sink o p cause attempts retained track) d = lane sessionId s d := by
  have hout : (if track then s.rememberDroppedDrain o p else (s, none)) = (s, none) := by
    unfold rememberDroppedDrain
    rw [hp]
    cases track <;> rfl
  rw [lane_giveUp track sessionId hout, CapturePayload.number_of_none hp, ite_self]
  rfl

/-- Nor does a payload of another session. -/
theorem lane_giveUp_of_ne {sessionId : String} (hne : p.sessionId ≠ sessionId) :
    lane sessionId (s.giveUp sink o p cause attempts retained true) d = lane sessionId s d := by
  rw [lane_giveUp true sessionId rfl, if_pos rfl, CapturePayload.number_of_ne hne, ite_self]
  rcases rememberDroppedDrain_cases o s p with ⟨-, h⟩ | ⟨n, saturated, -, -, -, h⟩ | ⟨n, -, -, h⟩
  · rw [h]
    rfl
  · rw [h]
    rfl
  · rw [h]
    have hfind : (s.pendingResync.put (s.dropped p n)).find? sessionId =
        s.pendingResync.find? sessionId := by
      rw [Table.find?_put]
      exact if_neg hne
    unfold lane offer
    dsimp only
    rw [hfind]
    rfl

/-- A drain lost without a trace. -/
theorem lane_giveUp_untracked {n : ℕ} {saturated : Bool} (hn : p.sequence = some n)
    (h : s.rememberDroppedDrain o p = ({ s with recoverySaturated := saturated }, some false)) :
    lane p.sessionId (s.giveUp sink o p cause attempts retained true) d =
      { lane p.sessionId s d with untracked := n :: (lane p.sessionId s d).untracked } := by
  rw [lane_giveUp true p.sessionId h, if_pos (Or.inl rfl), CapturePayload.number_self, hn]
  rfl

/-- A drain remembered in its session's row. -/
theorem lane_giveUp_tracked {n : ℕ} (hgap : ∀ g ∈ p.gap, g.first ≤ n)
    (h : s.rememberDroppedDrain o p =
      ({ s with pendingResync := s.pendingResync.put (s.dropped p n) }, some true)) :
    lane p.sessionId (s.giveUp sink o p cause attempts none true) d =
      { lane p.sessionId s d with
        pending := some (Gap.merge ⟨(p.gap.map (·.first)).elim n (min · n), n⟩
          (lane p.sessionId s d).pending) } := by
  rw [lane_giveUp true p.sessionId h, if_neg (by simp)]
  have hfind : (s.pendingResync.put (s.dropped p n)).find? p.sessionId = some (s.dropped p n) := by
    rw [Table.find?_put]
    exact if_pos rfl
  unfold lane offer
  dsimp only
  rw [hfind, Option.map_some, gap_dropped hgap]
  rfl

/-! ## What the loop does, in every lane -/

variable {held front back : List CapturePayload} {out done : Option CapturePayload}

/-- A held payload that is no drain of the session does not wait in its lane. -/
theorem lane_skip (front back : List CapturePayload) {sessionId : String}
    (h : p.number sessionId = none) :
    lane sessionId s ⟨front ++ back, out, done⟩ =
      lane sessionId s ⟨front ++ p :: back, out, done⟩ := by
  unfold lane
  rw [List.filterMap_append, List.filterMap_append, List.filterMap_cons, h]
  rfl

theorem lane_waiting (front back : List CapturePayload) {n : ℕ} (hn : p.sequence = some n) :
    (lane p.sessionId s ⟨front ++ p :: back, out, done⟩).waiting =
      front.filterMap (fun q => q.number p.sessionId) ++
        n :: back.filterMap fun q => q.number p.sessionId := by
  change List.filterMap _ (front ++ p :: back) = _
  rw [List.filterMap_append, List.filterMap_cons, CapturePayload.number_self, hn]

/-- The desk without a held drain. -/
theorem lane_without (front back : List CapturePayload) :
    lane p.sessionId s ⟨front ++ back, out, done⟩ =
      { lane p.sessionId s ⟨front ++ p :: back, out, done⟩ with
        waiting := front.filterMap (fun q => q.number p.sessionId) ++
          back.filterMap fun q => q.number p.sessionId } := by
  unfold lane
  rw [List.filterMap_append]
  rfl

/-- **A held payload is given up.** -/
theorem moves_drop (hplain : p.sequence.isSome = true → p.resync = none) (sessionId : String) :
    Moves (lane sessionId s ⟨front ++ p :: back, out, done⟩)
      (lane sessionId (s.giveUp sink o p cause attempts none true)
        ⟨front ++ back, out, done⟩) := by
  rcases eq_or_ne p.sessionId sessionId with rfl | hne
  · rcases rememberDroppedDrain_cases o s p with
      ⟨hnone, -⟩ | ⟨n, saturated, hn, -, -, h⟩ | ⟨n, hn, -, h⟩
    · rw [lane_giveUp_of_none hnone, lane_skip front back (CapturePayload.number_of_none hnone _)]
    · rw [lane_giveUp_untracked hn h, lane_without front back]
      exact .single (Step.forget _ _ _ n (lane_waiting front back hn))
    · have hresync := hplain (by rw [hn]; rfl)
      have hgap : p.gap = none := by rw [CapturePayload.gap, hresync]; rfl
      rw [lane_giveUp_tracked (fun g hg => by rw [hgap] at hg; cases hg) h, lane_without front back, hgap]
      exact .single (Step.drop _ _ _ n (lane_waiting front back hn))
  · rw [lane_giveUp_of_ne hne, lane_skip front back (CapturePayload.number_of_ne hne)]

/-- What the pending row of a session says a prepared drain misses. -/
theorem gap_prepareResync {n : ℕ} (hn : p.sequence = some n) (hresync : p.resync = none) :
    (s.prepareResync p).gap =
      ((s.pendingResync.find? p.sessionId).map (·.gap)).bind fun g => g.declare n := by
  unfold prepareResync CapturePayload.gap
  rw [hn]
  cases hfind : s.pendingResync.find? p.sessionId with
  | none => rw [hresync]; rfl
  | some row =>
      dsimp only [Option.map_some, Option.bind_some]
      unfold Gap.declare PendingResync.gap
      dsimp only
      split
      · rw [if_neg (by omega), hresync, Option.map_none]
      · rw [if_pos (by omega), Option.map_some]

@[simp] theorem sequence_prepareResync : (s.prepareResync p).sequence = p.sequence := by
  unfold prepareResync
  split
  · dsimp only
    split <;> rfl
  · rfl

/-- **A held payload is prepared.** -/
theorem moves_prepare (hplain : p.sequence.isSome = true → p.resync = none)
    (hnone : s.exactRetryOf p.sessionId = none) (sessionId : String) :
    Moves (lane sessionId s ⟨p :: held, none, none⟩)
      (lane sessionId s ⟨held, some (s.prepareResync p), none⟩) := by
  have hsession : (s.prepareResync p).sessionId = p.sessionId := sessionId_prepareResync s p
  have hoffered : s.offer ⟨p :: held, none, none⟩ p.sessionId = none := by
    rw [offer_none, hnone]
  have hoffers : s.offer ⟨held, some (s.prepareResync p), none⟩ p.sessionId =
      some (s.prepareResync p) := by
    rw [← hsession]
    refine offer_out_self (Or.inl ?_)
    rw [hsession]
    exact hnone
  rcases eq_or_ne p.sessionId sessionId with rfl | hne
  · cases hp : p.sequence with
    | none =>
        have heq : lane p.sessionId s ⟨held, some (s.prepareResync p), none⟩ =
            lane p.sessionId s ⟨p :: held, none, none⟩ := by
          unfold lane
          rw [hoffered, hoffers, List.filterMap_cons, CapturePayload.number_of_none hp,
            Option.bind_some, CapturePayload.number_of_none (sequence_prepareResync.trans hp)]
          rfl
        rw [heq]
    | some n =>
        have hresync := hplain (by rw [hp]; rfl)
        have hlane : lane p.sessionId s ⟨held, some (s.prepareResync p), none⟩ =
            { lane p.sessionId s ⟨p :: held, none, none⟩ with
              waiting := held.filterMap fun q => q.number p.sessionId
              offered := some (n, (lane p.sessionId s ⟨p :: held, none, none⟩).pending.bind
                fun g => g.declare n) } := by
          unfold lane
          rw [hoffers, Option.bind_some, ← gap_prepareResync hp hresync, ← hsession,
            CapturePayload.number_self, sequence_prepareResync, hp]
          rfl
        rw [hlane]
        refine .single (Step.prepare _ n _ (lane_waiting [] held hp) ?_ rfl)
        change (s.offer _ _).bind _ = none
        rw [hoffered]
        rfl
  · have heq : lane sessionId s ⟨held, some (s.prepareResync p), none⟩ =
        lane sessionId s ⟨p :: held, none, none⟩ := by
      unfold lane
      rw [offer_out_of_ne (hsession ▸ hne), offer_none, List.filterMap_cons,
        CapturePayload.number_of_ne hne]
    rw [heq]

/-- Taking up a retained request again is no move. -/
theorem lane_again (hretry : s.exactRetryOf p.sessionId = some p) (sessionId : String) :
    lane sessionId s ⟨held, some p, none⟩ = lane sessionId s ⟨held, none, none⟩ := by
  unfold lane
  rcases eq_or_ne p.sessionId sessionId with rfl | hne
  · rw [offer_out_self (Or.inr hretry), offer_none, hretry]
  · rw [offer_out_of_ne hne, offer_none]

/-- Where the payload being delivered is offered. -/
theorem lane_offered {n : ℕ} (hoffered : s.Offered p) (hn : p.sequence = some n) :
    (lane p.sessionId s ⟨held, some p, none⟩).offered = some (n, p.gap) := by
  change (s.offer _ _).bind _ = _
  rw [offer_out_self hoffered, Option.bind_some, CapturePayload.number_self, hn, Option.map_some]

/-- Only its own session offers the payload being delivered. -/
theorem lane_out_of_none {sessionId : String} (hnumber : p.number sessionId = none)
    (hoffered : s.Offered p) :
    lane sessionId s ⟨held, none, none⟩ = lane sessionId s ⟨held, some p, none⟩ := by
  unfold lane
  rcases eq_or_ne p.sessionId sessionId with rfl | hne
  · rw [offer_out_self hoffered, offer_none, Option.bind_some, hnumber]
    rcases hoffered with hnone | hsome
    · rw [hnone]
      rfl
    · rw [hsome, Option.bind_some, hnumber]
  · rw [offer_out_of_ne hne, offer_none]

/-- The session that offered the payload offers nothing once it is given up. -/
theorem lane_lost (hnone : s.exactRetryOf p.sessionId = none) :
    lane p.sessionId s ⟨held, none, none⟩ =
      { lane p.sessionId s ⟨held, some p, none⟩ with offered := none } := by
  unfold lane
  rw [offer_none, hnone]
  rfl

/-- What a tracked loss needs of the drain that is given up. -/
theorem first_le_of_offered {n : ℕ} (hknown : Known (lane p.sessionId s ⟨held, some p, none⟩))
    (hoffered : s.Offered p) (hn : p.sequence = some n) : ∀ g ∈ p.gap, g.first ≤ n := by
  intro g hg
  obtain ⟨-, -, -, -, -, hgap, -⟩ := hknown.offered n _ (lane_offered hoffered hn)
  obtain ⟨hle, -, hlt, -⟩ := hgap g hg
  exact hle.trans hlt.le

/-- **A delivery ends and the payload is given up.** -/
theorem moves_lose (hknown : Known (lane p.sessionId s ⟨held, some p, none⟩))
    (hnone : s.exactRetryOf p.sessionId = none) (sessionId : String) :
    Moves (lane sessionId s ⟨held, some p, none⟩)
      (lane sessionId (s.giveUp sink o p cause attempts none true) ⟨held, none, none⟩) := by
  rcases eq_or_ne p.sessionId sessionId with rfl | hne
  · rcases rememberDroppedDrain_cases o s p with
      ⟨hp, -⟩ | ⟨n, saturated, hn, -, -, h⟩ | ⟨n, hn, -, h⟩
    · rw [lane_giveUp_of_none hp,
        lane_out_of_none (CapturePayload.number_of_none hp _) (Or.inl hnone)]
    · rw [lane_giveUp_untracked hn h, lane_lost hnone]
      exact .single (Step.lose _ n _ (lane_offered (Or.inl hnone) hn))
    · rw [lane_giveUp_tracked (first_le_of_offered hknown (Or.inl hnone) hn) h, lane_lost hnone]
      exact .single (Step.fail _ n _ (lane_offered (Or.inl hnone) hn))
  · rw [lane_giveUp_of_ne hne, lane_out_of_none (CapturePayload.number_of_ne hne) (Or.inl hnone)]

/-- A report of a retained request is no move. -/
theorem lane_retained (hretry : s.exactRetryOf p.sessionId = some p) (sessionId : String) :
    lane sessionId
      { s with
        history := .failed p
          ⟨cause, attempts, p.observations, p.sessionId, none, some true⟩ :: s.history }
      ⟨held, none, none⟩ = lane sessionId s ⟨held, some p, none⟩ := by
  rw [lane_again hretry]
  exact @lane_failed β s _ p ⟨cause, attempts, p.observations, p.sessionId, none, some true⟩
    sessionId ⟨held, none, none⟩ rfl rfl rfl rfl

/-- An added request is the one its session offers. -/
theorem lane_added (held : List CapturePayload) (hnone : s.exactRetryOf p.sessionId = none)
    (sessionId : String) :
    ({ s with pendingExactRetry := s.pendingExactRetry.insert ⟨p.sessionId, p⟩ } :
        Transport β).exactRetryOf p.sessionId = some p ∧
      lane sessionId { s with pendingExactRetry := s.pendingExactRetry.insert ⟨p.sessionId, p⟩ }
        ⟨held, some p, none⟩ = lane sessionId s ⟨held, some p, none⟩ := by
  have hretry : ∀ key, ({ s with
      pendingExactRetry := s.pendingExactRetry.insert ⟨p.sessionId, p⟩ } : Transport β).exactRetryOf key =
        (s.exactRetryOf key).or (if p.sessionId = key then some p else none) := by
    intro key
    unfold exactRetryOf
    dsimp only
    rw [Table.find?_insert]
    cases s.pendingExactRetry.find? key with
    | none => rw [Option.none_or, Option.map_none, Option.none_or]; split <;> rfl
    | some row => rfl
  have hself := hretry p.sessionId
  rw [hnone, if_pos rfl, Option.none_or] at hself
  refine ⟨hself, ?_⟩
  unfold lane
  rcases eq_or_ne p.sessionId sessionId with rfl | hne
  · rw [offer_out_self (Or.inr hself), offer_out_self (Or.inl hnone)]
  · rw [offer_out_of_ne hne, offer_out_of_ne hne, hretry, if_neg hne, Option.or_none]

/-- **A delivery ends and the request is to be retained.** -/
theorem moves_retain (hoffered : s.Offered p) (hp : p.sequence.isSome = true)
    (sessionId : String) :
    Moves (lane sessionId s ⟨held, some p, none⟩)
      (lane sessionId (s.retainExactRetry sink o p cause attempts) ⟨held, none, none⟩) := by
  obtain ⟨n, hn⟩ := Option.isSome_iff_exists.mp hp
  unfold retainExactRetry
  dsimp only
  rcases rememberExactRetry_cases o hoffered with
    ⟨hretry, h⟩ | ⟨s', h, hnone, hfull, hresync, hexact, -, hhistory, hsent, hfind⟩ | ⟨hnone, h⟩
  · rw [h, if_pos rfl, lane_retained hretry]
  · have hs : ∀ d, lane sessionId s' d = lane sessionId s d := fun d =>
      lane_congr sessionId d hresync hexact hhistory hsent
    have hnone' : s'.exactRetryOf p.sessionId = none := (exactRetryOf_congr hexact _).trans hnone
    rw [h, if_neg Bool.false_ne_true, ← hs]
    rcases eq_or_ne p.sessionId sessionId with rfl | hne
    · rcases rememberDroppedDrain_cases o s' p with
        ⟨hp', -⟩ | ⟨m, saturated, hm, -, -, h'⟩ | ⟨m, hm, hknown, -⟩
      · rw [hn] at hp'
        cases hp'
      · rw [lane_giveUp_untracked hm h', lane_lost hnone']
        exact .single (Step.lose _ m _ (lane_offered (Or.inl hnone') hm))
      · exact absurd ⟨hfull, hresync ▸ hfind, hnone'⟩ hknown
    · rw [lane_giveUp_of_ne hne, lane_out_of_none (CapturePayload.number_of_ne hne) (Or.inl hnone')]
  · obtain ⟨hretry, hlane⟩ := lane_added held hnone sessionId
    rw [h, if_pos rfl, lane_retained hretry, hlane]

/-- Forgetting a session's request concerns its lane alone. -/
theorem lane_forgetRetry_of_ne {sessionId key : String} (hne : key ≠ sessionId) :
    lane sessionId (s.forgetRetry key) d = lane sessionId s d := by
  unfold lane offer
  rw [exactRetryOf_forgetRetry, if_neg hne.symm]
  rfl

theorem lane_forgetRetry_self (out' : Option CapturePayload) :
    lane p.sessionId (s.forgetRetry p.sessionId) ⟨held, none, none⟩ =
      { lane p.sessionId s ⟨held, out', none⟩ with offered := none } := by
  unfold lane
  rw [offer_none, exactRetryOf_forgetRetry, if_pos rfl]
  rfl

/-- **So it is where the payload was retained.** -/
theorem moves_reject (hknown : Known (lane p.sessionId s ⟨held, some p, none⟩))
    (hrows : s.Rows) (hretry : s.exactRetryOf p.sessionId = some p) (sessionId : String) :
    Moves (lane sessionId s ⟨held, some p, none⟩)
      (lane sessionId ((s.giveUp sink o p cause attempts none true).forgetRetry p.sessionId)
        ⟨held, none, none⟩) := by
  rcases eq_or_ne p.sessionId sessionId with rfl | hne
  · rcases rememberDroppedDrain_cases o s p with
      ⟨hp, -⟩ | ⟨n, saturated, -, -, hnone, -⟩ | ⟨n, hn, -, h⟩
    · have hsome := (sessionId_of_exactRetryOf hrows hretry).2
      rw [hp] at hsome
      cases hsome
    · rw [hnone] at hretry
      cases hretry
    · rw [lane_forgetRetry_self (some p),
        lane_giveUp_tracked (first_le_of_offered hknown (Or.inr hretry) hn) h]
      exact .single (Step.fail _ n _ (lane_offered (Or.inr hretry) hn))
  · rw [lane_forgetRetry_of_ne hne, lane_giveUp_of_ne hne,
      lane_out_of_none (CapturePayload.number_of_ne hne) (Or.inr hretry)]

/-- **A payload is accepted.** -/
theorem moves_accept (hoffered : s.Offered p) (sessionId : String) :
    Moves (lane sessionId s ⟨held, some p, none⟩)
      (lane sessionId { s with history := .accepted p :: s.history } ⟨held, none, some p⟩) := by
  cases hnumber : p.number sessionId with
  | none =>
      have heq : lane sessionId { s with history := .accepted p :: s.history }
          ⟨held, none, some p⟩ = lane sessionId s ⟨held, none, none⟩ := by
        unfold lane
        rw [offer_none, List.filterMap_cons, List.filterMap_cons]
        dsimp only [Entry.acceptedOf, Entry.untrackedOf, Option.bind_some]
        rw [hnumber, Option.map_none]
        rcases eq_or_ne p.sessionId sessionId with rfl | hne
        · rw [offer_done_self]
          rcases hoffered with hnone | hsome
          · rw [hnone]
            rfl
          · rw [hsome, Option.bind_some, hnumber]
            rfl
        · rw [offer_done_of_ne hne]
          rfl
      rw [heq, lane_out_of_none hnumber hoffered]
  | some n =>
      obtain ⟨rfl, hn⟩ := CapturePayload.sequence_of_number hnumber
      have heq : lane p.sessionId { s with history := .accepted p :: s.history }
          ⟨held, none, some p⟩ =
          { lane p.sessionId s ⟨held, some p, none⟩ with
            offered := none
            settling := some n
            accepted := (n, p.gap) :: (lane p.sessionId s ⟨held, some p, none⟩).accepted } := by
        unfold lane
        rw [offer_done_self, List.filterMap_cons, List.filterMap_cons]
        dsimp only [Entry.acceptedOf, Entry.untrackedOf, Option.bind_some]
        rw [hnumber]
        rfl
      rw [heq]
      exact .single (Step.accept _ n _ (lane_offered hoffered hn))

/-- What is left pending of the session once the drain is settled with. -/
theorem gap_clearResync {n : ℕ} (hn : p.sequence = some n) :
    ((s.clearResync p).pendingResync.find? p.sessionId).map (·.gap) =
      ((s.pendingResync.find? p.sessionId).map (·.gap)).bind fun g => g.clear n := by
  unfold clearResync
  rw [hn]
  cases hfind : s.pendingResync.find? p.sessionId with
  | none => rw [hfind]; rfl
  | some row =>
      dsimp only [Option.map_some, Option.bind_some]
      unfold Gap.clear PendingResync.gap
      dsimp only
      split
      · rw [hfind]
        rfl
      · split
        · have hkey := Table.key_of_find? hfind
          dsimp only
          rw [Table.find?_delete, hfind, Option.filter_some, if_neg (by simp [hkey])]
          rfl
        · dsimp only
          rw [Table.find?_put, if_pos rfl]
          rfl

theorem clearResync_of_none (hp : p.sequence = none) : s.clearResync p = s := by
  unfold clearResync
  rw [hp]

theorem find?_clearResync_of_ne {sessionId : String} (hne : p.sessionId ≠ sessionId) :
    (s.clearResync p).pendingResync.find? sessionId = s.pendingResync.find? sessionId := by
  unfold clearResync
  split
  · next row _ hrow =>
    split
    · rfl
    · split
      · refine Table.find?_delete_of_ne fun x _ hx => ?_
        rw [hx]
        exact decide_eq_false hne.symm
      · dsimp only
        rw [Table.find?_put]
        exact if_neg hne
  · rfl

/-- **An accepted payload is settled with.** -/
theorem moves_settle (hnone : s.exactRetryOf p.sessionId = none) (sessionId : String) :
    Moves (lane sessionId s ⟨held, none, some p⟩)
      (lane sessionId (s.clearResync p) ⟨held, none, none⟩) := by
  obtain ⟨resync, hframe⟩ := clearResync_frame s p
  rcases eq_or_ne p.sessionId sessionId with rfl | hne
  · cases hp : p.sequence with
    | none =>
        rw [clearResync_of_none hp]
        have heq : lane p.sessionId s ⟨held, none, none⟩ =
            lane p.sessionId s ⟨held, none, some p⟩ := by
          unfold lane
          rw [offer_none, offer_done_self, hnone, Option.bind_some,
            CapturePayload.number_of_none hp]
          rfl
        rw [heq]
    | some n =>
        have heq : lane p.sessionId (s.clearResync p) ⟨held, none, none⟩ =
            { lane p.sessionId s ⟨held, none, some p⟩ with
              settling := none
              pending := (lane p.sessionId s ⟨held, none, some p⟩).pending.bind
                fun g => g.clear n } := by
          unfold lane
          rw [gap_clearResync hp, offer_none, offer_done_self,
            exactRetryOf_congr (clearResync_pendingExactRetry s p), hnone, hframe]
          rfl
        rw [heq]
        refine .single (Step.clear _ n ?_)
        change p.number p.sessionId = some n
        rw [CapturePayload.number_self, hp]
  · have heq : lane sessionId (s.clearResync p) ⟨held, none, none⟩ =
        lane sessionId s ⟨held, none, some p⟩ := by
      unfold lane
      rw [find?_clearResync_of_ne hne, offer_none, offer_done_of_ne hne,
        exactRetryOf_congr (clearResync_pendingExactRetry s p), Option.bind_some,
        CapturePayload.number_of_ne hne, hframe]
      rfl
    rw [heq]

/-- **So it is where the payload was retained.** -/
theorem moves_release (sessionId : String) :
    Moves (lane sessionId s ⟨held, none, some p⟩)
      (lane sessionId ((s.forgetRetry p.sessionId).clearResync p) ⟨held, none, none⟩) := by
  have heq : lane sessionId (s.forgetRetry p.sessionId) ⟨held, none, some p⟩ =
      lane sessionId s ⟨held, none, some p⟩ := by
    rcases eq_or_ne p.sessionId sessionId with rfl | hne
    · unfold lane
      rw [offer_done_self, offer_done_self]
      rfl
    · exact lane_forgetRetry_of_ne hne
  rw [← heq]
  exact moves_settle (by rw [exactRetryOf_forgetRetry, if_pos rfl]) sessionId

end Moves

end Transport

end Earshot.Client
