import Earshot.Deliveries.Receipts
/-!
# A receipt is applied once, under its latest lease

The history of a receipt is its events in the log. A claim follows none, or
a claim or a failure under the token before it; a failure and an apply follow
the claim of their own token directly; nothing but replays follows an apply
(`Ordered`). The rows stand where their last event left them, and the
content of a row is that of the holder of its token (`Fenced`).
-/

namespace Earshot

open Relational

variable {α : Type}

/-! ## Histories -/

/-- The receipt an event changes; a replay changes none. -/
def ReceiptEvent.about : ReceiptEvent → Option String
  | .claimed receiptId _ | .failed receiptId _ | .applied receiptId _ _ => some receiptId
  | .replayed _ _ => none

/-- The event is an apply of the receipt. -/
def ReceiptEvent.applies (receiptId : String) : ReceiptEvent → Bool
  | .applied id _ _ => id = receiptId
  | _ => false

/-- The last event of a receipt. -/
def lastEvent (receiptId : String) (log : List ReceiptEvent) : Option ReceiptEvent :=
  log.find? fun event => event.about = some receiptId

/-- What the last event of its receipt was, when an event happens. -/
def ReceiptEvent.Follows (past : List ReceiptEvent) : ReceiptEvent → Prop
  | .claimed receiptId token =>
      (lastEvent receiptId past = none ∧ token = 1) ∨
        ∃ before, token = before + 1 ∧
          (lastEvent receiptId past = some (.claimed receiptId before) ∨
            lastEvent receiptId past = some (.failed receiptId before))
  | .replayed receiptId callId =>
      ∃ token, lastEvent receiptId past = some (.applied receiptId token callId)
  | .failed receiptId token => lastEvent receiptId past = some (.claimed receiptId token)
  | .applied receiptId token _ => lastEvent receiptId past = some (.claimed receiptId token)

/-- Every event follows those before it. -/
def Ordered : List ReceiptEvent → Prop
  | [] => True
  | event :: past => event.Follows past ∧ Ordered past

theorem lastEvent_cons {event : ReceiptEvent} {log : List ReceiptEvent} {receiptId : String} :
    lastEvent receiptId (event :: log) =
      if event.about = some receiptId then some event else lastEvent receiptId log := by
  rw [lastEvent, List.find?_cons]
  split <;> rename_i h
  · rw [if_pos (of_decide_eq_true h)]
  · rw [if_neg (of_decide_eq_false h), lastEvent]

/-- Events of other receipts hide none. -/
theorem lastEvent_append {later past : List ReceiptEvent} {receiptId : String}
    (h : ∀ event ∈ later, event.about ≠ some receiptId) :
    lastEvent receiptId (later ++ past) = lastEvent receiptId past := by
  induction later with
  | nil => rfl
  | cons event later ih =>
    obtain ⟨hevent, hlater⟩ := List.forall_mem_cons.mp h
    rw [List.cons_append, lastEvent_cons, if_neg hevent, ih hlater]

/-- What is appended to an ordered history follows what it was. -/
theorem Ordered.of_append {later past : List ReceiptEvent} (h : Ordered (later ++ past)) :
    Ordered past := by
  induction later with
  | nil => exact h
  | cons event later ih => exact ih h.2

/-- **After an apply, nothing changes the receipt.** -/
theorem Ordered.about_ne_of_applied {receiptId : String} {token : ℕ} {callId : Option String}
    {past : List ReceiptEvent} : ∀ {later : List ReceiptEvent},
      Ordered (later ++ .applied receiptId token callId :: past) →
      ∀ event ∈ later, event.about ≠ some receiptId := by
  intro later
  induction later with
  | nil => exact fun _ event h => absurd h List.not_mem_nil
  | cons event later ih =>
    intro h
    have hlater := ih h.2
    have hlast : lastEvent receiptId (later ++ .applied receiptId token callId :: past) =
        some (.applied receiptId token callId) := by
      rw [lastEvent_append hlater, lastEvent_cons]
      exact if_pos rfl
    refine List.forall_mem_cons.mpr ⟨?_, hlater⟩
    intro habout
    have hfollows : event.Follows (later ++ .applied receiptId token callId :: past) := h.1
    cases event with
    | claimed id =>
      obtain rfl := Option.some.inj habout
      rcases hfollows with ⟨hnone, -⟩ | ⟨before, -, hclaimed | hfailed⟩
      · rw [hlast] at hnone
        cases hnone
      · rw [hlast] at hclaimed
        cases hclaimed
      · rw [hlast] at hfailed
        cases hfailed
    | replayed => cases habout
    | failed id =>
      obtain rfl := Option.some.inj habout
      exact absurd (hlast.symm.trans hfollows) (by simp)
    | applied id =>
      obtain rfl := Option.some.inj habout
      exact absurd (hlast.symm.trans hfollows) (by simp)

/-- A receipt is applied at most once. -/
theorem Ordered.countP_applies_le_one {log : List ReceiptEvent} (h : Ordered log)
    (receiptId : String) : log.countP (·.applies receiptId) ≤ 1 := by
  induction log with
  | nil => exact Nat.zero_le 1
  | cons event log ih =>
    rw [List.countP_cons]
    cases happlies : event.applies receiptId with
    | false =>
      rw [if_neg Bool.false_ne_true]
      exact ih h.2
    | true =>
      obtain ⟨token, callId, rfl⟩ :
          ∃ token callId, event = .applied receiptId token callId := by
        cases event with
        | applied id token callId =>
          obtain rfl := of_decide_eq_true happlies
          exact ⟨token, callId, rfl⟩
        | _ => cases happlies
      have hnone : log.countP (·.applies receiptId) = 0 := by
        refine List.countP_eq_zero.mpr fun event hevent happlied => ?_
        obtain ⟨later, past, rfl⟩ := List.append_of_mem hevent
        cases event with
        | applied id token' callId' =>
          obtain rfl := of_decide_eq_true happlied
          have hlast : lastEvent id (later ++ .applied id token' callId' :: past) =
              some (.claimed id token) := h.1
          rw [lastEvent_append h.2.about_ne_of_applied, lastEvent_cons] at hlast
          cases (if_pos rfl).symm.trans hlast
        | _ => cases happlied
      rw [hnone, if_pos rfl]

/-! ## What a transaction does to the receipts -/

namespace DeliveryWorld

/-- One receipt is written: its row before and after, the event, and the
claim handed out. -/
inductive ReceiptChange (before : Option DeliveryReceipt) :
    DeliveryReceipt → ReceiptEvent → List (HeldDelivery α) → Prop where
  | inserted (d : Delivery α) (receiptId : String) (leaseNano : ℕ) (now : UnixNano)
      (fresh : before = none) :
      ReceiptChange before (newReceipt d receiptId leaseNano now) (.claimed receiptId 1)
        [⟨d, receiptId, 1⟩]
  | takenOver (d : Delivery α) (leaseNano : ℕ) (now : UnixNano) (row : DeliveryReceipt)
      (stored : before = some row) (waits : row.state = .processing ∨ row.state = .failed)
      (endpoint : row.endpointId = d.connector.endpointId)
      (key : row.deliveryKeyHmac = d.deliveryKeyHmac) :
      ReceiptChange before (takenOver d leaseNano now row)
        (.claimed row.receiptId (row.attemptCount + 1)) [⟨d, row.receiptId, row.attemptCount + 1⟩]
  | failed (row : DeliveryReceipt) (failureCode : String) (stored : before = some row)
      (processing : row.state = .processing) :
      ReceiptChange before (failedWith failureCode row) (.failed row.receiptId row.attemptCount) []
  | applied (row : DeliveryReceipt) (callId : Option String) (now : UnixNano)
      (stored : before = some row) (processing : row.state = .processing) :
      ReceiptChange before (finished callId now row)
        (.applied row.receiptId row.attemptCount callId) []

/-- **What a transaction does to the receipts.** -/
inductive ReceiptStep (w w' : DeliveryWorld α) : Prop where
  | kept (receipts : w'.receipts = w.receipts) (held : w'.held = w.held) (log : w'.log = w.log)
  | replayed (row : DeliveryReceipt) (stored : w.receipts.find? row.receiptId = some row)
      (settled : row.state = .applied ∨ row.state = .ignored)
      (receipts : w'.receipts = w.receipts) (held : w'.held = w.held)
      (log : w'.log = .replayed row.receiptId row.callId :: w.log)
  | changed (row : DeliveryReceipt) (event : ReceiptEvent) (added : List (HeldDelivery α))
      (change : ReceiptChange (w.receipts.find? row.receiptId) row event added)
      (receipts : ∀ id, w'.receipts.find? id =
        if id = row.receiptId then some row else w.receipts.find? id)
      (held : w'.held = w.held ++ added) (log : w'.log = event :: w.log)

variable {S : CallStore} {C : Connectors α} {w w' : DeliveryWorld α} {d : Delivery α}
variable {h : HeldDelivery α} {receiptId : String} {now : UnixNano}

theorem receiptOf_eq_some {endpointId deliveryKeyHmac : String} {row : DeliveryReceipt}
    (hrow : w.receiptOf endpointId deliveryKeyHmac = some row) :
    w.receipts.find? row.receiptId = some row ∧ row.endpointId = endpointId ∧
      row.deliveryKeyHmac = deliveryKeyHmac := by
  have hkey := List.find?_some hrow
  rw [Bool.and_eq_true, decide_eq_true_eq, decide_eq_true_eq] at hkey
  exact ⟨Table.find?_of_mem (List.mem_of_find?_eq_some hrow), hkey⟩

theorem find?_updateReceipt (f : DeliveryReceipt → DeliveryReceipt)
    (hf : ∀ r, (f r).receiptId = r.receiptId) {row : DeliveryReceipt}
    (hrow : w.receipts.find? receiptId = some row) (id : String) :
    (w.updateReceipt receiptId f hf).receipts.find? id =
      if id = (f row).receiptId then some (f row) else w.receipts.find? id := by
  have hid : row.receiptId = receiptId := Table.key_of_find? hrow
  rw [updateReceipt, Table.find?_patch, hf row, hid]
  by_cases hsame : id = receiptId
  · rw [hsame, hrow, Option.map_some, if_pos hid, if_pos rfl]
  · rw [if_neg hsame]
    cases hfind : w.receipts.find? id with
    | none => rfl
    | some other =>
      have hother : other.receiptId = id := Table.key_of_find? hfind
      rw [Option.map_some, if_neg fun heq => hsame (hother.symm.trans heq)]

theorem owns_iff {token : ℕ} : w.owns receiptId token = true ↔
    ∃ row, w.receipts.find? receiptId = some row ∧ row.state = .processing ∧
      row.attemptCount = token := by
  rw [owns, Option.any_eq_true]
  simp only [Bool.and_eq_true, decide_eq_true_eq]

/-- What a claim comes to: it replays, inserts, or takes over. -/
theorem receiptStep_claim {leaseNano : ℕ} (hrun : w.claim d receiptId leaseNano now = some w') :
    ReceiptStep w w' ∧ w'.fetches = w.fetches := by
  obtain ⟨-, hrun⟩ := Option.ite_none_left_eq_some.mp hrun
  split at hrun
  · obtain ⟨hfree, hrun⟩ := Option.ite_none_left_eq_some.mp hrun
    obtain rfl := Option.some.inj hrun
    have hfree : w.receipts.find? receiptId = none := Option.not_isSome_iff_eq_none.mp hfree
    refine ⟨.changed _ _ _ (.inserted d receiptId leaseNano now hfree) (fun id => ?_) rfl rfl,
      rfl⟩
    change (w.receipts.insert _).find? id = _
    rw [Table.find?_insert]
    by_cases hid : id = receiptId
    · rw [hid, hfree, Option.none_or]
      rfl
    · have hne : ¬ (newReceipt d receiptId leaseNano now).receiptId = id := fun heq => hid heq.symm
      rw [if_neg hne, Option.or_none]
      exact (if_neg hid).symm
  · rename_i row hreceipt
    obtain ⟨hrow, hendpoint, hkey⟩ := receiptOf_eq_some hreceipt
    split at hrun
    · rename_i hover
      obtain ⟨-, hrun⟩ := Option.ite_none_left_eq_some.mp hrun
      obtain rfl := Option.some.inj hrun
      exact ⟨.replayed row hrow hover rfl rfl rfl, rfl⟩
    · rename_i hover
      obtain ⟨-, hrun⟩ := Option.ite_none_left_eq_some.mp hrun
      obtain rfl := Option.some.inj hrun
      have hwaits : row.state = .processing ∨ row.state = .failed := by
        cases hstate : row.state with
        | processing => exact Or.inl rfl
        | failed => exact Or.inr rfl
        | applied => exact absurd (Or.inl hstate) hover
        | ignored => exact absurd (Or.inr hstate) hover
      exact ⟨.changed _ _ _ (.takenOver d leaseNano now row hrow hwaits hendpoint hkey)
        (find?_updateReceipt (takenOver d leaseNano now) (fun _ => rfl) hrow) rfl rfl, rfl⟩

theorem receiptStep_fail {failureCode : String} (hrun : w.fail h failureCode = some w') :
    ReceiptStep w w' ∧ w'.fetches = w.fetches := by
  simp only [fail, Option.bind_eq_bind, Option.bind_eq_some_iff] at hrun
  obtain ⟨row, hrow, preset, -, hrun⟩ := hrun
  obtain ⟨howns, hrun⟩ := Option.ite_none_right_eq_some.mp hrun
  obtain rfl := Option.some.inj hrun
  obtain ⟨row', hrow', hstate, htoken⟩ := owns_iff.mp howns
  obtain rfl := Option.some.inj (hrow.symm.trans hrow')
  have hid : row.receiptId = h.receiptId := Table.key_of_find? hrow
  refine ⟨.changed _ _ _ (.failed row failureCode (hid ▸ hrow) hstate)
    (find?_updateReceipt (failedWith failureCode) (fun _ => rfl) hrow)
    (List.append_nil _).symm ?_, rfl⟩
  rw [htoken, hid]

/-- A claim hands out a claim of its delivery only, and applies nothing. -/
theorem grants_of_claim {leaseNano : ℕ} (hrun : w.claim d receiptId leaseNano now = some w') :
    (∀ h ∈ w'.held, h ∈ w.held ∨ h.delivery = d) ∧
      ∃ event, w'.log = event :: w.log ∧ ∀ id, event.applies id = false := by
  have hgrant : ∀ (w₁ : DeliveryWorld α) (id : String) (token : ℕ), w₁.held = w.held →
      w₁.log = w.log → (∀ h ∈ (w₁.grant d id token).held, h ∈ w.held ∨ h.delivery = d) ∧
        ∃ event, (w₁.grant d id token).log = event :: w.log ∧ ∀ id, event.applies id = false := by
    intro w₁ id token hheld hlog
    refine ⟨fun h hmem => ?_, .claimed id token, congrArg _ hlog, fun _ => rfl⟩
    rcases List.mem_append.mp hmem with hmem | hmem
    · exact Or.inl (hheld ▸ hmem)
    · obtain rfl := List.mem_singleton.mp hmem
      exact Or.inr rfl
  obtain ⟨-, hrun⟩ := Option.ite_none_left_eq_some.mp hrun
  split at hrun
  · obtain ⟨-, hrun⟩ := Option.ite_none_left_eq_some.mp hrun
    obtain rfl := Option.some.inj hrun
    exact hgrant _ _ _ rfl rfl
  · split at hrun
    · obtain ⟨-, hrun⟩ := Option.ite_none_left_eq_some.mp hrun
      obtain rfl := Option.some.inj hrun
      exact ⟨fun h hmem => Or.inl hmem, _, rfl, fun _ => rfl⟩
    · obtain ⟨-, hrun⟩ := Option.ite_none_left_eq_some.mp hrun
      obtain rfl := Option.some.inj hrun
      exact hgrant _ _ _ rfl rfl

theorem held_of_fail {failureCode : String} (hrun : w.fail h failureCode = some w') :
    w'.held = w.held ∧ w'.log = .failed h.receiptId h.token :: w.log := by
  simp only [fail, Option.bind_eq_bind, Option.bind_eq_some_iff] at hrun
  obtain ⟨row, -, preset, -, hrun⟩ := hrun
  obtain ⟨-, hrun⟩ := Option.ite_none_right_eq_some.mp hrun
  obtain rfl := Option.some.inj hrun
  exact ⟨rfl, rfl⟩

theorem receiptStep_finish {w₀ : DeliveryWorld α} {token : ℕ} {callId : Option String}
    (hrun : w.finish receiptId token callId now = some w') (hreceipts : w.receipts = w₀.receipts)
    (hheld : w.held = w₀.held) (hlog : w.log = w₀.log) : ReceiptStep w₀ w' := by
  obtain ⟨howns, hrun⟩ := Option.ite_none_right_eq_some.mp hrun
  obtain rfl := Option.some.inj hrun
  obtain ⟨row, hrow, hstate, htoken⟩ := owns_iff.mp howns
  have hid : row.receiptId = receiptId := Table.key_of_find? hrow
  refine .changed _ _ _ (.applied row callId now (by rw [← hreceipts]; exact hid ▸ hrow) hstate)
    (fun id => ?_) ?_ ?_
  · rw [← hreceipts]
    exact find?_updateReceipt (finished callId now) (fun _ => rfl) hrow id
  · rw [← hheld]
    exact (List.append_nil _).symm
  · rw [← hlog, htoken, hid]

theorem receiptStep_apply (hrun : w.apply S C h now = some w') : ReceiptStep w w' := by
  simp only [apply, Option.bind_eq_bind, Option.bind_eq_some_iff] at hrun
  obtain ⟨row, -, hrun⟩ := hrun
  obtain ⟨-, hrun⟩ := Option.ite_none_right_eq_some.mp hrun
  obtain ⟨preset, -, hrun⟩ := Option.bind_eq_some_iff.mp hrun
  split at hrun
  · exact receiptStep_finish hrun rfl rfl rfl
  · obtain ⟨recorded, -, hrun⟩ := Option.bind_eq_some_iff.mp hrun
    obtain ⟨fetches, -, hrun⟩ := Option.bind_eq_some_iff.mp hrun
    exact receiptStep_finish hrun rfl rfl rfl

/-- **Every transaction** changes at most one receipt, as `ReceiptStep` says. -/
theorem receiptStep_of_step {op : DeliveryOp α} (hrun : step S C w op = some w') :
    ReceiptStep w w' := by
  cases op with
  | other op =>
    obtain ⟨fetches, -, rfl⟩ := Option.map_eq_some_iff.mp hrun
    exact .kept rfl rfl rfl
  | configure connector =>
    obtain rfl := Option.some.inj hrun
    exact .kept rfl rfl rfl
  | claim => exact (receiptStep_claim hrun).1
  | apply =>
    obtain ⟨h, -, hrun⟩ := Option.bind_eq_some_iff.mp hrun
    exact receiptStep_apply hrun
  | fail =>
    obtain ⟨h, -, hrun⟩ := Option.bind_eq_some_iff.mp hrun
    exact (receiptStep_fail hrun).1
  | refreshFetchUrls =>
    obtain ⟨fetches, -, rfl⟩ := Option.map_eq_some_iff.mp hrun
    exact .kept rfl rfl rfl

/-! ## The invariant -/

/-- Where the last event of a receipt leaves its row. -/
inductive Standing : Option DeliveryReceipt → Option ReceiptEvent → Prop where
  | absent : Standing none none
  | processing (row : DeliveryReceipt) (state : row.state = .processing) :
      Standing (some row) (some (.claimed row.receiptId row.attemptCount))
  | failed (row : DeliveryReceipt) (state : row.state = .failed) :
      Standing (some row) (some (.failed row.receiptId row.attemptCount))
  | applied (row : DeliveryReceipt) (state : row.state = .applied) :
      Standing (some row) (some (.applied row.receiptId row.attemptCount row.callId))

/-- The row's content is the delivery's. -/
structure Carries (row : DeliveryReceipt) (d : Delivery α) : Prop where
  digest : row.bodySha256 = d.digests.evidence
  kind : row.digestKind = .evidence
  event : row.eventType = d.eventType

/-- The row of a claim: of its endpoint and key, and with its content while
no later claim took it over. -/
structure Claims (row : DeliveryReceipt) (h : HeldDelivery α) : Prop where
  endpoint : row.endpointId = h.delivery.connector.endpointId
  key : row.deliveryKeyHmac = h.delivery.deliveryKeyHmac
  token : h.token ≤ row.attemptCount
  carries : h.token = row.attemptCount → Carries row h.delivery

/-- **The receipts are fenced.** -/
structure Fenced (w : DeliveryWorld α) : Prop where
  standing : ∀ id, Standing (w.receipts.find? id) (lastEvent id w.log)
  ordered : Ordered w.log
  held : ∀ h ∈ w.held, ∃ row, w.receipts.find? h.receiptId = some row ∧ Claims row h
  /-- The holder of a row's token is among those there are. -/
  holder : ∀ id row, w.receipts.find? id = some row →
    ∃ h ∈ w.held, h.receiptId = id ∧ h.token = row.attemptCount

theorem fenced_init : (init : DeliveryWorld α).Fenced :=
  ⟨fun _ => .absent, trivial, fun _ h => absurd h List.not_mem_nil,
    fun _ _ h => absurd h (Option.some_ne_none _).symm⟩

/-- The event of a change follows the receipt's history, and the changed row
stands where it leaves it. -/
theorem ReceiptChange.follows {before : Option DeliveryReceipt} {row : DeliveryReceipt}
    {event : ReceiptEvent} {added : List (HeldDelivery α)} {log : List ReceiptEvent}
    (hchange : ReceiptChange before row event added)
    (hstanding : Standing before (lastEvent row.receiptId log)) :
    event.Follows log ∧ event.about = some row.receiptId ∧ Standing (some row) (some event) := by
  cases hchange with
  | inserted d receiptId leaseNano now hfresh =>
    subst hfresh
    generalize hlast : lastEvent _ log = last at hstanding
    cases hstanding
    exact ⟨Or.inl ⟨hlast, rfl⟩, rfl, .processing _ rfl⟩
  | takenOver d leaseNano now row hstored hwaits =>
    subst hstored
    generalize hlast : lastEvent _ log = last at hstanding
    refine ⟨Or.inr ⟨row.attemptCount, rfl, ?_⟩, rfl,
      .processing (DeliveryWorld.takenOver d leaseNano now row) rfl⟩
    cases hstanding with
    | processing => exact Or.inl hlast
    | failed => exact Or.inr hlast
    | applied row hstate =>
      rw [hstate] at hwaits
      rcases hwaits with hwaits | hwaits <;> cases hwaits
  | failed row failureCode hstored hstate =>
    subst hstored
    generalize hlast : lastEvent _ log = last at hstanding
    refine ⟨?_, rfl, .failed _ rfl⟩
    cases hstanding with
    | processing => exact hlast
    | failed row hfailed | applied row hfailed =>
      rw [hstate] at hfailed
      cases hfailed
  | applied row callId now hstored hstate =>
    subst hstored
    generalize hlast : lastEvent _ log = last at hstanding
    refine ⟨?_, rfl, .applied (finished callId now row) rfl⟩
    cases hstanding with
    | processing => exact hlast
    | failed row hfailed | applied row hfailed =>
      rw [hstate] at hfailed
      cases hfailed

/-- A claim of the row before is one of the row after. -/
theorem ReceiptChange.claims {before : Option DeliveryReceipt} {row old : DeliveryReceipt}
    {event : ReceiptEvent} {added : List (HeldDelivery α)}
    (hchange : ReceiptChange before row event added) (hold : before = some old)
    (hclaims : Claims old h) : Claims row h := by
  cases hchange with
  | inserted d receiptId leaseNano now hfresh =>
    rw [hfresh] at hold
    cases hold
  | takenOver d leaseNano now row hstored =>
    obtain rfl := Option.some.inj (hstored.symm.trans hold)
    refine ⟨hclaims.endpoint, hclaims.key, hclaims.token.trans (Nat.le_succ _), fun heq => ?_⟩
    have htoken := hclaims.token
    change h.token = row.attemptCount + 1 at heq
    omega
  | failed row failureCode hstored hstate =>
    obtain rfl := Option.some.inj (hstored.symm.trans hold)
    refine ⟨hclaims.endpoint, hclaims.key, hclaims.token, fun heq => ?_⟩
    obtain ⟨hdigest, hkind, hevent⟩ := hclaims.carries heq
    exact ⟨hdigest, hkind, hevent⟩
  | applied row callId now hstored hstate =>
    obtain rfl := Option.some.inj (hstored.symm.trans hold)
    refine ⟨hclaims.endpoint, hclaims.key, hclaims.token, fun heq => ?_⟩
    obtain ⟨hdigest, hkind, hevent⟩ := hclaims.carries heq
    exact ⟨hdigest, hkind, hevent⟩

/-- A claim handed out is the row's. -/
theorem ReceiptChange.claims_added {before : Option DeliveryReceipt} {row : DeliveryReceipt}
    {event : ReceiptEvent} {added : List (HeldDelivery α)}
    (hchange : ReceiptChange before row event added) :
    ∀ h ∈ added, h.receiptId = row.receiptId ∧ h.token = row.attemptCount ∧ Claims row h := by
  cases hchange with
  | inserted d receiptId leaseNano now hfresh =>
    intro h hmem
    obtain rfl := List.mem_singleton.mp hmem
    exact ⟨rfl, rfl, rfl, rfl, le_rfl, fun _ => ⟨rfl, rfl, rfl⟩⟩
  | takenOver d leaseNano now row hstored hwaits hendpoint hkey =>
    intro h hmem
    obtain rfl := List.mem_singleton.mp hmem
    exact ⟨rfl, rfl, hendpoint, hkey, le_rfl, fun _ => ⟨rfl, rfl, rfl⟩⟩
  | failed | applied => exact fun _ hmem => absurd hmem List.not_mem_nil

/-- The holder of the row's token is handed out, or the token was there. -/
theorem ReceiptChange.holder {before : Option DeliveryReceipt} {row : DeliveryReceipt}
    {event : ReceiptEvent} {added : List (HeldDelivery α)}
    (hchange : ReceiptChange before row event added) :
    (∃ h ∈ added, h.receiptId = row.receiptId ∧ h.token = row.attemptCount) ∨
      ∃ old, before = some old ∧ old.attemptCount = row.attemptCount := by
  cases hchange with
  | inserted | takenOver => exact Or.inl ⟨_, List.mem_singleton_self _, rfl, rfl⟩
  | failed row _ hstored | applied row _ _ hstored => exact Or.inr ⟨row, hstored, rfl⟩

theorem Fenced.of_receiptStep (hw : w.Fenced) (hstep : ReceiptStep w w') : w'.Fenced := by
  obtain ⟨hstanding, hordered, hheld, hholder⟩ := hw
  cases hstep with
  | kept hreceipts hheld' hlog =>
    refine ⟨fun id => ?_, ?_, ?_, ?_⟩
    · rw [hreceipts, hlog]
      exact hstanding id
    · rwa [hlog]
    · rwa [hreceipts, hheld']
    · rwa [hreceipts, hheld']
  | replayed row hrow hover hreceipts hheld' hlog =>
    have hlast : ∃ token, lastEvent row.receiptId w.log =
        some (.applied row.receiptId token row.callId) := by
      have hstand := hstanding row.receiptId
      rw [hrow] at hstand
      generalize lastEvent row.receiptId w.log = last at hstand
      cases hstand with
      | applied => exact ⟨row.attemptCount, rfl⟩
      | processing row hstate | failed row hstate =>
        rw [hstate] at hover
        rcases hover with hover | hover <;> cases hover
    refine ⟨fun id => ?_, ?_, ?_, ?_⟩
    · rw [hreceipts, hlog, lastEvent_cons, if_neg (fun h => by cases h)]
      exact hstanding id
    · rw [hlog]
      exact ⟨hlast, hordered⟩
    · rwa [hreceipts, hheld']
    · rwa [hreceipts, hheld']
  | changed row event added hchange hreceipts hheld' hlog =>
    obtain ⟨hfollows, habout, hstand⟩ := hchange.follows (hstanding row.receiptId)
    refine ⟨fun id => ?_, ?_, fun h hmem => ?_, fun id row' hrow' => ?_⟩
    · rw [hreceipts, hlog, lastEvent_cons, habout]
      by_cases hid : id = row.receiptId
      · rw [if_pos hid, if_pos (congrArg some hid.symm)]
        exact hstand
      · rw [if_neg hid, if_neg fun heq => hid (Option.some.inj heq).symm]
        exact hstanding id
    · rw [hlog]
      exact ⟨hfollows, hordered⟩
    · rw [hheld'] at hmem
      rw [hreceipts]
      rcases List.mem_append.mp hmem with hmem | hmem
      · obtain ⟨old, hold, hclaims⟩ := hheld h hmem
        by_cases hid : h.receiptId = row.receiptId
        · rw [if_pos hid]
          exact ⟨row, rfl, hchange.claims (hid ▸ hold) hclaims⟩
        · rw [if_neg hid]
          exact ⟨old, hold, hclaims⟩
      · obtain ⟨hid, -, hclaims⟩ := hchange.claims_added h hmem
        rw [if_pos hid]
        exact ⟨row, rfl, hclaims⟩
    · rw [hreceipts] at hrow'
      rw [hheld']
      by_cases hid : id = row.receiptId
      · rw [if_pos hid] at hrow'
        obtain rfl := Option.some.inj hrow'
        rcases hchange.holder with ⟨h, hmem, hreceipt, htoken⟩ | ⟨old, hold, hattempts⟩
        · exact ⟨h, List.mem_append_right _ hmem, hreceipt.trans hid.symm, htoken⟩
        · obtain ⟨h, hmem, hreceipt, htoken⟩ := hholder _ old hold
          exact ⟨h, List.mem_append_left _ hmem, hreceipt.trans hid.symm, htoken.trans hattempts⟩
      · rw [if_neg hid] at hrow'
        obtain ⟨h, hmem, hreceipt, htoken⟩ := hholder id row' hrow'
        exact ⟨h, List.mem_append_left _ hmem, hreceipt, htoken⟩

/-- **The receipts of every run are fenced.** -/
theorem fenced_after (ops : List (DeliveryOp α)) : (after S C ops).Fenced :=
  Transition.run_invariant (P := Fenced) (fun _ _ _ hw hrun =>
    hw.of_receiptStep (receiptStep_of_step hrun)) ops _ fenced_init

end DeliveryWorld

end Earshot
