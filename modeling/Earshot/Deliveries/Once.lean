import Earshot.Deliveries.Applied
/-!
# Exactly once

Whatever the handlers do, and wherever they stop, a receipt is applied once,
by the holder of its latest token, and is replayed from then on
(`AppliesOnce`). An apply commits its evidence with its receipt, in the call the
receipt names, and nothing else a handler does writes any (`CommitsTogether`):
exactly when the call of the delivery's key receives its trace.
-/

namespace Earshot

open Relational

namespace DeliveryWorld

variable {α : Type} {S : CallStore} {C : Connectors α} {w w' : DeliveryWorld α}

/-! ## Receipts -/

/-- **Receipts are applied once.** -/
structure AppliesOnce (w : DeliveryWorld α) : Prop where
  once : ∀ receiptId, w.log.countP (·.applies receiptId) ≤ 1
  /-- No claim stands between the token's and its apply, and nothing changes
  the receipt from then on. -/
  latest : ∀ later receiptId token callId past,
    w.log = later ++ .applied receiptId token callId :: past →
      lastEvent receiptId past = some (.claimed receiptId token) ∧
        ∀ event ∈ later, event.about ≠ some receiptId
  /-- The applied rows are those an apply left. -/
  rows : ∀ receiptId token callId, .applied receiptId token callId ∈ w.log ↔
    ∃ row, w.receipts.find? receiptId = some row ∧ row.state = .applied ∧
      row.attemptCount = token ∧ row.callId = callId
  /-- Their content is that of the claim that was applied. -/
  holder : ∀ row ∈ w.receipts, ∃ h ∈ w.held,
    h.receiptId = row.receiptId ∧ h.token = row.attemptCount ∧ Carries row h.delivery
  /-- A claim of an applied receipt's key is a replay, if its content is the
  same, and else is refused. -/
  replays : ∀ d receiptId leaseNano now row, w.requires d.connector = true →
    w.receiptOf d.connector.endpointId d.deliveryKeyHmac = some row → row.state = .applied →
      w.claim d receiptId leaseNano now =
        if d.digests.evidence = row.bodySha256 then
          some { w with log := .replayed row.receiptId row.callId :: w.log }
        else none

theorem Fenced.carries (hw : w.Fenced) {row : DeliveryReceipt} (hrow : row ∈ w.receipts) :
    ∃ h ∈ w.held, h.receiptId = row.receiptId ∧ h.token = row.attemptCount ∧
      Carries row h.delivery := by
  obtain ⟨h, hmem, hid, htoken⟩ := hw.holder row.receiptId row (Table.find?_of_mem hrow)
  obtain ⟨row', hrow', hclaims⟩ := hw.held h hmem
  rw [hid] at hrow'
  obtain rfl := Option.some.inj ((Table.find?_of_mem hrow).symm.trans hrow')
  exact ⟨h, hmem, hid, htoken, hclaims.carries htoken⟩

/-- The row an applied event left. -/
theorem Fenced.applied_iff (hw : w.Fenced) {receiptId : String} {token : ℕ}
    {callId : Option String} : .applied receiptId token callId ∈ w.log ↔
      ∃ row, w.receipts.find? receiptId = some row ∧ row.state = .applied ∧
        row.attemptCount = token ∧ row.callId = callId := by
  have hstanding := hw.standing receiptId
  constructor
  · intro hmem
    obtain ⟨later, past, hlog⟩ := List.append_of_mem hmem
    have hordered := hw.ordered
    rw [hlog] at hordered hstanding
    rw [lastEvent_append hordered.about_ne_of_applied, lastEvent_cons] at hstanding
    rw [if_pos (by rfl)] at hstanding
    generalize hfind : w.receipts.find? receiptId = found at hstanding
    cases hstanding with
    | applied row hstate => exact ⟨row, rfl, hstate, rfl, rfl⟩
  · rintro ⟨row, hrow, hstate, rfl, rfl⟩
    have hid : row.receiptId = receiptId := Table.key_of_find? hrow
    rw [hrow] at hstanding
    generalize hlast : lastEvent receiptId w.log = last at hstanding
    cases hstanding with
    | applied => exact hid ▸ List.mem_of_find?_eq_some hlast
    | processing row hother | failed row hother =>
      rw [hstate] at hother
      cases hother

/-- **A claim met again** is a replay, if its content is the same. -/
theorem Fenced.claim_applied (hw : w.Fenced) {d : Delivery α} {receiptId : String} {leaseNano : ℕ}
    {now : UnixNano} {row : DeliveryReceipt} (hrequires : w.requires d.connector = true)
    (hreceipt : w.receiptOf d.connector.endpointId d.deliveryKeyHmac = some row)
    (hstate : row.state = .applied) :
    w.claim d receiptId leaseNano now =
      if d.digests.evidence = row.bodySha256 then
        some { w with log := .replayed row.receiptId row.callId :: w.log }
      else none := by
  obtain ⟨hrow, -⟩ := receiptOf_eq_some hreceipt
  obtain ⟨h, -, -, -, hcarries⟩ := hw.carries (Table.mem_of_find? hrow)
  have hdigest : comparedDigest row d.digests = d.digests.evidence := by
    rw [comparedDigest, hcarries.kind]
  unfold claim
  rw [if_neg (by rw [hrequires]; exact Bool.noConfusion), hreceipt]
  dsimp only
  rw [if_pos (Or.inl hstate), hdigest]
  by_cases hsame : d.digests.evidence = row.bodySha256
  · rw [if_neg (fun hne => hne hsame.symm), if_pos hsame]
  · rw [if_pos (fun heq => hsame heq.symm), if_neg hsame]

/-- Fenced receipts are applied once. -/
theorem Fenced.appliesOnce (hw : w.Fenced) : w.AppliesOnce where
  once receiptId := hw.ordered.countP_applies_le_one receiptId
  latest later receiptId token callId past hlog := by
    have hordered := hw.ordered
    rw [hlog] at hordered
    exact ⟨hordered.of_append.1, hordered.about_ne_of_applied⟩
  rows receiptId token callId := hw.applied_iff
  holder row hrow := hw.carries hrow
  replays d receiptId leaseNano now row hrequires hreceipt hstate :=
    hw.claim_applied hrequires hreceipt hstate

/-! ## Evidence -/

/-- A handler's transaction that applies nothing. -/
def DeliveryOp.isIdle : DeliveryOp α → Bool
  | .claim _ _ _ _ | .fail _ _ | .refreshFetchUrls _ _ => true
  | _ => false

/-- **Evidence and receipts are written together or not at all.** -/
structure CommitsTogether (S : CallStore) (C : Connectors α) (w : DeliveryWorld α)
    (op : DeliveryOp α) (w' : DeliveryWorld α) : Prop where
  /-- An apply that commits leaves its evidence and its receipt. -/
  applies : ∀ holder now, op = .apply holder now →
    ∃ h, w.held[holder]? = some h ∧ Applied S C w h now w'
  /-- No other transaction applies a receipt. -/
  receipts : (∀ holder now, op ≠ .apply holder now) → ∀ receiptId,
    w'.log.countP (·.applies receiptId) = w.log.countP (·.applies receiptId)
  /-- A claim, a failure and a replay write no span, no recording and no fetch. -/
  idle : DeliveryOp.isIdle op = true → w'.catalog = w.catalog ∧
    ∀ k, (w'.fetches.fetches.jobs.find? k).isSome = (w.fetches.fetches.jobs.find? k).isSome

variable {op : DeliveryOp α}

/-- **Every transaction on a sound state** commits evidence and receipts
together, but for an apply whose key's call does not receive its trace. -/
theorem Sound.commitsTogether_iff (hw : w.Sound) (hrun : step S C w op = some w') :
    CommitsTogether S C w op w' ↔ Undisturbed S C w op := by
  cases op with
  | other op =>
    obtain ⟨fetches, -, rfl⟩ := Option.map_eq_some_iff.mp hrun
    exact iff_of_true ⟨by rintro _ _ ⟨⟩, fun _ _ => rfl, by rintro ⟨⟩⟩ trivial
  | configure connector =>
    obtain rfl := Option.some.inj hrun
    exact iff_of_true ⟨by rintro _ _ ⟨⟩, fun _ _ => rfl, by rintro ⟨⟩⟩ trivial
  | claim =>
    obtain ⟨-, hfetches⟩ := receiptStep_claim hrun
    obtain ⟨-, event, hlog, hother⟩ := grants_of_claim hrun
    refine iff_of_true ⟨by rintro _ _ ⟨⟩, fun _ id => ?_, fun _ => ?_⟩ trivial
    · rw [hlog, List.countP_cons_of_neg (by rw [hother id]; exact Bool.false_ne_true)]
    · rw [catalog, hfetches]
      exact ⟨rfl, fun _ => rfl⟩
  | apply holder now =>
    obtain ⟨h, hholder, happly⟩ := Option.bind_eq_some_iff.mp hrun
    obtain ⟨happlied, -⟩ := applied_iff_of_apply hw (List.mem_of_getElem? hholder) happly
    constructor
    · rintro ⟨happlies, -, -⟩ h' hmem
      obtain ⟨h'', hholder', happlied'⟩ := happlies holder now rfl
      obtain rfl := Option.some.inj (hholder.symm.trans hmem)
      obtain rfl := Option.some.inj (hholder.symm.trans hholder')
      exact happlied.mp happlied'
    · intro hguard
      refine ⟨fun _ _ heq => ?_, fun hne => absurd rfl (hne holder now), by rintro ⟨⟩⟩
      cases heq
      exact ⟨h, hholder, happlied.mpr (hguard h hholder)⟩
  | fail =>
    obtain ⟨h, -, hfail⟩ := Option.bind_eq_some_iff.mp hrun
    obtain ⟨-, hfetches⟩ := receiptStep_fail hfail
    refine iff_of_true ⟨by rintro _ _ ⟨⟩, fun _ id => ?_, fun _ => ?_⟩ trivial
    · rw [(held_of_fail hfail).2]
      rfl
    · rw [catalog, hfetches]
      exact ⟨rfl, fun _ => rfl⟩
  | refreshFetchUrls d now =>
    obtain ⟨hcatalog, hlog, -, hsome⟩ := refreshFetchUrls_spec hw.coupled hrun
    exact iff_of_true ⟨by rintro _ _ ⟨⟩, fun _ _ => hlog ▸ rfl, fun _ => ⟨hcatalog, hsome⟩⟩ trivial

/-! ## Every run -/

theorem sound_after (ops : List (DeliveryOp α)) : (after S C ops).Sound :=
  Transition.run_invariant (P := Sound) (fun _ _ _ hw hrun => hw.of_step hrun) ops _ (sound_init S)

/-- **Connector deliveries apply exactly once**, and commit together exactly
when the call of the delivery's key receives its trace. -/
theorem deliveries_applyOnce_iff (ops : List (DeliveryOp α)) :
    (after S C ops).AppliesOnce ∧
      ∀ pre op post w', ops = pre ++ op :: post → step S C (after S C pre) op = some w' →
        (CommitsTogether S C (after S C pre) op w' ↔ Undisturbed S C (after S C pre) op) :=
  ⟨(fenced_after ops).appliesOnce, fun pre _ _ _ _ hrun =>
    (sound_after pre).commitsTogether_iff hrun⟩

/-- One provider with one session key. -/
def sampleConnectors : Connectors Unit where
  traceId _ _ := 7
  spanId kind _ := if kind = CALL then 1 else 2
  recordingId _ _ providerCallId track := providerCallId ++ track
  translatorAttributes _ := ()
  message _ _ _ _ := ⟨[], 3, 4, [], none⟩

def sampleConnector : Connector :=
  ⟨"endpoint", demoProject, "provider", "secret", true, "1", none⟩

/-- A call with one recording. -/
def sampleDelivery : Delivery Unit where
  connector := sampleConnector
  deliveryKeyHmac := "key"
  digests := ⟨"evidence", "body"⟩
  eventType := "ended"
  evidence := ⟨"provider", "call", [⟨CALL, "0", 1, 2, (), false⟩], true⟩
  sessionKey := "session"
  translatorVersion := "1"
  recordings := [⟨"track", .mixed, "audio/wav", "1", .payloadUrl, some "https://media", none⟩]
  oneCall := rfl

/-- A claim that is taken over, the first holder's apply, the second's, and
the delivery once more. -/
def takenOverRun : List (DeliveryOp Unit) :=
  [.other (.catalog (.provisionProject demoProject .full)), .configure sampleConnector,
    .claim sampleDelivery "receipt" 10 100, .claim sampleDelivery "spare" 10 120,
    .apply 0 121, .apply 1 122, .claim sampleDelivery "spare" 10 130]

/-- The second holder applies the delivery, with its evidence. -/
theorem takenOverRun_applies :
    (after plainStore sampleConnectors takenOverRun).log.countP (·.applies "receipt") = 1 ∧
      (after plainStore sampleConnectors takenOverRun).AppliesOnce ∧
      ∀ w', step plainStore sampleConnectors
          (after plainStore sampleConnectors (takenOverRun.take 5)) (.apply 1 122) = some w' →
        CommitsTogether plainStore sampleConnectors
          (after plainStore sampleConnectors (takenOverRun.take 5)) (.apply 1 122) w' := by
  obtain ⟨honce, htogether⟩ := deliveries_applyOnce_iff (S := plainStore) (C := sampleConnectors)
    takenOverRun
  refine ⟨by decide +kernel, honce, fun w' hrun => (htogether _ _ _ w' rfl hrun).mpr ?_⟩
  unfold Undisturbed
  decide +kernel

/-- Another span of the connector's trace comes first, and names another key; the
delivery has no recording. -/
def boundElsewhere : List (DeliveryOp Unit) :=
  [.other (.catalog (.provisionProject demoProject .full)), .configure sampleConnector,
    .other (.catalog (.recordSpans demoProject [demoSpan 7 1 "app" "b" (some "other")] 0 50)),
    .claim { sampleDelivery with recordings := [] } "receipt" 10 100]

/-- **The receipt names a call that has none of the spans**: they went to the
call of the other key. -/
theorem not_commitsTogether_boundElsewhere :
    ¬ ∀ w', step plainStore sampleConnectors
          (after plainStore sampleConnectors boundElsewhere) (.apply 0 105) = some w' →
        CommitsTogether plainStore sampleConnectors
          (after plainStore sampleConnectors boundElsewhere) (.apply 0 105) w' := by
  intro hall
  have hcommits : (step plainStore sampleConnectors
      (after plainStore sampleConnectors boundElsewhere) (.apply 0 105)).isSome = true := by
    decide +kernel
  obtain ⟨w', hrun⟩ := Option.isSome_iff_exists.mp hcommits
  have hguard := ((sound_after boundElsewhere).commitsTogether_iff hrun).mp (hall w' hrun)
  revert hguard
  unfold Undisturbed
  decide +kernel

end DeliveryWorld

end Earshot
