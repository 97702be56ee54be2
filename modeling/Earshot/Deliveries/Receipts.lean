import Earshot.Media.Fetches
/-!
# Connector deliveries

A provider's delivery is claimed, and then applied, in two transactions. A
claim leases the receipt of the delivery's key and hands out a token, which
is how often the receipt was leased; the apply writes the delivery's spans,
its recordings and their fetches, and ends the receipt, in one transaction
that only the holder of the latest token may commit. A handler that crashes
leaves its claim; a later claim of the same key takes it over once it expired
or failed.

A handler may apply or fail any claim it was given, at any time, and any
number of handlers is any number of claims. `log` records the past and
decides nothing. The translation of a payload, its digests and the
serialised messages are parameters.
-/

namespace Earshot

open Relational

/-! ## Evidence -/

/-- `CALL`, the kind of the span the others are children of. -/
def CALL : String := "earshot.connector.call"

/-- `TRANSLATOR` -/
def TRANSLATOR : String := "earshot.connector.translator"

/-- `scope_name` -/
def scopeName (provider : String) : String := "earshot.connector." ++ provider

/-- One provider fact, unique by its kind and ordinal in its call. -/
structure EvidenceSpan (α : Type) where
  kind : String
  ordinal : String
  startUnixNano : UnixNano
  endUnixNano : UnixNano
  attributes : α
  error : Bool

/-- What the store keeps of a span's message and of its resource. -/
structure SpanMessage where
  payload : Payload
  digest : Digest
  resourceDigest : Digest
  resourcePayload : Payload
  textJson : Option String

/-- How connectors hash and serialise. -/
structure Connectors (α : Type) where
  /-- `trace_id(provider, session_key)` -/
  traceId : String → String → TraceId
  /-- `span_id(kind, ordinal)` -/
  spanId : String → String → SpanId
  /-- `recording_id(project_id, provider, provider_call_id, track)` -/
  recordingId : ProjectId → String → String → String → String
  translatorAttributes : String → α
  /-- A span of the provider under the session key, with the preset's filter. -/
  message : CapturePreset → String → String → EvidenceSpan α → SpanMessage

/-- What one delivery says about one provider call. -/
structure ProviderEvidence (α : Type) where
  provider : String
  providerCallId : String
  spans : List (EvidenceSpan α)
  terminal : Bool

variable {α : Type}

/-- `otlp_spans`, as `_prepare` makes them of the preset: none of evidence
that does not hold exactly one call span. The session key is valid, so every
span names it. -/
def otlpSpans (C : Connectors α) (evidence : ProviderEvidence α)
    (sessionKey translatorVersion : String) (preset : CapturePreset) : Option (List Prepared) :=
  match evidence.spans.filter (·.kind = CALL) with
  | [call] =>
      let translator : EvidenceSpan α :=
        ⟨TRANSLATOR, translatorVersion, call.startUnixNano, call.endUnixNano,
          C.translatorAttributes translatorVersion, false⟩
      some <| (evidence.spans ++ [translator]).map fun item =>
        let message := C.message preset evidence.provider sessionKey item
        { traceId := C.traceId evidence.provider sessionKey
          spanId := C.spanId item.kind item.ordinal
          parentSpanId := if item.kind = CALL then none else some (C.spanId CALL call.ordinal)
          name := item.kind
          scopeName := scopeName evidence.provider
          start := item.startUnixNano
          «end» := item.endUnixNano
          callEnded := item.kind = CALL && evidence.terminal
          key := some ⟨sessionKey, .earshotSessionId⟩
          payload := message.payload
          digest := message.digest
          resourceDigest := message.resourceDigest
          resourcePayload := message.resourcePayload
          textJson := message.textJson }
  | _ => none

/-! ## Deliveries -/

structure Connector where
  endpointId : String
  projectId : ProjectId
  provider : String
  secretRef : String
  enabled : Bool
  normalizerVersion : String
  configJson : Option String
  deriving DecidableEq

/-- A delivery's digests: of its evidence, which is stored, and of its raw
body, which older receipts stored. -/
structure DeliveryDigests where
  evidence : String
  body : String
  deriving DecidableEq

/-- A recording a delivery holds for its call. -/
structure RecordingLocator where
  track : String
  speaker : Speaker
  contentType : String
  startedAtUnixNano : String
  sourceKind : FetchSource
  url : Option String
  urlExpiresUnixNano : Option UnixNano

/-- A translated delivery, whose evidence holds exactly one call span. -/
structure Delivery (α : Type) where
  connector : Connector
  deliveryKeyHmac : String
  digests : DeliveryDigests
  eventType : String
  evidence : ProviderEvidence α
  sessionKey : String
  translatorVersion : String
  recordings : List RecordingLocator
  oneCall : (evidence.spans.filter (·.kind = CALL)).length = 1

namespace Delivery

/-- The delivery's spans. -/
def spans (C : Connectors α) (d : Delivery α) (preset : CapturePreset) : List Prepared :=
  (otlpSpans C d.evidence d.sessionKey d.translatorVersion preset).getD []

/-- Its trace. -/
def traceId (C : Connectors α) (d : Delivery α) : TraceId :=
  C.traceId d.evidence.provider d.sessionKey

/-- Its recordings, with their IDs. -/
def providerRecordings (C : Connectors α) (d : Delivery α) : List ProviderRecording :=
  d.recordings.map fun source =>
    { recordingId := C.recordingId d.connector.projectId d.connector.provider
        d.evidence.providerCallId source.track
      provider := d.connector.provider
      providerCallId := d.evidence.providerCallId
      track := source.track
      speaker := source.speaker
      contentType := source.contentType
      startedAtUnixNano := source.startedAtUnixNano
      sourceKind := source.sourceKind
      url := source.url
      urlExpiresUnixNano := source.urlExpiresUnixNano }

end Delivery

/-! ## Receipts -/

inductive DigestKind where
  | body
  | evidence
  deriving DecidableEq

inductive ReceiptState where
  | processing
  | applied
  | ignored
  | failed
  deriving DecidableEq

structure DeliveryReceipt where
  receiptId : String
  projectId : ProjectId
  endpointId : String
  deliveryKeyHmac : String
  bodySha256 : String
  digestKind : DigestKind
  eventType : String
  state : ReceiptState
  firstReceivedAtUnixNano : UnixNano
  completedAtUnixNano : Option UnixNano
  leaseUntilUnixNano : Option UnixNano
  attemptCount : ℕ
  callId : Option String
  failureCode : Option String
  deriving DecidableEq

/-- A delivery whose receipt was leased under a token. -/
structure HeldDelivery (α : Type) where
  delivery : Delivery α
  receiptId : String
  token : ℕ

inductive ReceiptEvent where
  | claimed (receiptId : String) (token : ℕ)
  | replayed (receiptId : String) (callId : Option String)
  | failed (receiptId : String) (token : ℕ)
  | applied (receiptId : String) (token : ℕ) (callId : Option String)
  deriving DecidableEq

/-! ## The store -/

structure DeliveryWorld (α : Type) where
  fetches : FetchWorld
  connectors : Table Connector.endpointId
  receipts : Table DeliveryReceipt.receiptId
  /-- The claims handlers were given, first to last. -/
  held : List (HeldDelivery α)
  /-- What happened to the receipts, latest first. -/
  log : List ReceiptEvent

namespace DeliveryWorld

variable (S : CallStore) (C : Connectors α)

def catalog (w : DeliveryWorld α) : Catalog := w.fetches.world.catalog

/-- `_require_connector` -/
def requires (w : DeliveryWorld α) (connector : Connector) : Bool :=
  (w.catalog.readPreset connector.projectId).isSome &&
    decide (w.connectors.find? connector.endpointId = some connector) && connector.enabled

/-- The receipt of an endpoint's delivery key. -/
def receiptOf (w : DeliveryWorld α) (endpointId deliveryKeyHmac : String) :
    Option DeliveryReceipt :=
  w.receipts.rows.find? fun row =>
    row.endpointId = endpointId && row.deliveryKeyHmac = deliveryKeyHmac

/-- `UPDATE delivery_receipts … WHERE receipt_id = ?` -/
def updateReceipt (w : DeliveryWorld α) (receiptId : String)
    (f : DeliveryReceipt → DeliveryReceipt) (hf : ∀ r, (f r).receiptId = r.receiptId) :
    DeliveryWorld α :=
  { w with
    receipts := w.receipts.patch (fun r => if r.receiptId = receiptId then f r else r) fun r => by
      split
      · exact hf r
      · rfl }

/-- The receipt a first claim inserts. -/
def newReceipt (d : Delivery α) (receiptId : String) (leaseNano : ℕ) (now : UnixNano) :
    DeliveryReceipt where
  receiptId := receiptId
  projectId := d.connector.projectId
  endpointId := d.connector.endpointId
  deliveryKeyHmac := d.deliveryKeyHmac
  bodySha256 := d.digests.evidence
  digestKind := .evidence
  eventType := d.eventType
  state := .processing
  firstReceivedAtUnixNano := now
  completedAtUnixNano := none
  leaseUntilUnixNano := some (now + leaseNano)
  attemptCount := 1
  callId := none
  failureCode := none

/-- The row a take-over leaves: leased again, with this delivery's content. -/
def takenOver (d : Delivery α) (leaseNano : ℕ) (now : UnixNano) (row : DeliveryReceipt) :
    DeliveryReceipt :=
  { row with
    state := .processing
    leaseUntilUnixNano := some (now + leaseNano)
    attemptCount := row.attemptCount + 1
    failureCode := none
    bodySha256 := d.digests.evidence
    digestKind := .evidence
    eventType := d.eventType }

/-- The digest a receipt is compared with. -/
def comparedDigest (row : DeliveryReceipt) (digests : DeliveryDigests) : String :=
  match row.digestKind with
  | .body => digests.body
  | .evidence => digests.evidence

/-- The handler is given the receipt's token. -/
def grant (w : DeliveryWorld α) (d : Delivery α) (receiptId : String) (token : ℕ) :
    DeliveryWorld α :=
  { w with held := w.held ++ [⟨d, receiptId, token⟩], log := .claimed receiptId token :: w.log }

/-- `claim`; `receiptId` is the ID drawn for a new receipt. A delivery whose
key was applied with other content, or is being processed, is refused. -/
def claim (w : DeliveryWorld α) (d : Delivery α) (receiptId : String) (leaseNano : ℕ)
    (now : UnixNano) : Option (DeliveryWorld α) :=
  if w.requires d.connector = false then none
  else
    match w.receiptOf d.connector.endpointId d.deliveryKeyHmac with
    | none =>
        if (w.receipts.find? receiptId).isSome then none
        else
          some (grant
            { w with receipts := w.receipts.insert (newReceipt d receiptId leaseNano now) }
            d receiptId 1)
    | some row =>
        if row.state = .applied ∨ row.state = .ignored then
          if row.bodySha256 ≠ comparedDigest row d.digests then none
          else some { w with log := .replayed row.receiptId row.callId :: w.log }
        else if row.state = .processing ∧ now < row.leaseUntilUnixNano.getD 0 then none
        else
          some (grant
            (w.updateReceipt row.receiptId (takenOver d leaseNano now) fun _ => rfl)
            d row.receiptId (row.attemptCount + 1))

/-- The receipt is being processed under the token. -/
def owns (w : DeliveryWorld α) (receiptId : String) (token : ℕ) : Bool :=
  (w.receipts.find? receiptId).any fun row =>
    row.state = .processing && row.attemptCount = token

/-- The row `fail` leaves. -/
def failedWith (failureCode : String) (row : DeliveryReceipt) : DeliveryReceipt :=
  { row with state := .failed, leaseUntilUnixNano := none, failureCode := some failureCode }

/-- `fail` -/
def fail (w : DeliveryWorld α) (h : HeldDelivery α) (failureCode : String) :
    Option (DeliveryWorld α) := do
  let row ← w.receipts.find? h.receiptId
  let _ ← w.catalog.readPreset row.projectId
  if w.owns h.receiptId h.token then
    some { w.updateReceipt h.receiptId (failedWith failureCode) (fun _ => rfl) with
      log := .failed h.receiptId h.token :: w.log }
  else none

/-- The row `_finish` leaves. -/
def finished (callId : Option String) (now : UnixNano) (row : DeliveryReceipt) : DeliveryReceipt :=
  { row with
    state := .applied
    callId := callId
    completedAtUnixNano := some now
    leaseUntilUnixNano := none
    failureCode := none }

/-- `_finish` -/
def finish (w : DeliveryWorld α) (receiptId : String) (token : ℕ) (callId : Option String)
    (now : UnixNano) : Option (DeliveryWorld α) :=
  if w.owns receiptId token then
    some { w.updateReceipt receiptId (finished callId now) (fun _ => rfl) with
      log := .applied receiptId token callId :: w.log }
  else none

end DeliveryWorld

namespace FetchWorld

variable (S : CallStore)

/-- `_refresh_url`, of a recording that carries a URL. -/
def refreshUrl (w : FetchWorld) (p : ProjectId) (recording : ProviderRecording) (now : UnixNano) :
    Option FetchWorld :=
  match recording.url with
  | none => some w
  | some url =>
      step S w (.refreshUrl (p, recording.recordingId) url recording.urlExpiresUnixNano now)

/-- One turn of `_hold_recordings`, with the recordings created so far. -/
def holdOne (p : ProjectId) (callId endpointId : String) (now : UnixNano)
    (held : FetchWorld × List String) (recording : ProviderRecording) :
    Option (FetchWorld × List String) :=
  if (held.1.recordings.find? (p, recording.recordingId)).isSome then
    (refreshUrl S held.1 p recording now).map fun w => (w, held.2)
  -- a revision holds no more
  else if MAX_REVISION_RECORDINGS ≤ held.1.world.catalog.recordingsHeld (p, callId) then some held
  else
    (step S held.1 (.holdRecording p callId endpointId recording now)).map fun w =>
      (w, held.2 ++ [recording.recordingId])

/-- `_hold_recordings` -/
def holdRecordings (w : FetchWorld) (p : ProjectId) (callId endpointId : String)
    (recordings : List ProviderRecording) (now : UnixNano) : Option (FetchWorld × List String) :=
  recordings.foldlM (holdOne S p callId endpointId now) (w, [])

/-- Only the full preset holds recordings. -/
def holdUnder (w : FetchWorld) (preset : CapturePreset) (p : ProjectId)
    (callId endpointId : String) (recordings : List ProviderRecording) (now : UnixNano) :
    Option FetchWorld :=
  match preset with
  | .full => (w.holdRecordings S p callId endpointId recordings now).map Prod.fst
  | .metadataOnly => some w

end FetchWorld

namespace DeliveryWorld

variable (S : CallStore) (C : Connectors α)

/-- The call a session key names now. -/
def callOf (c : Catalog) (p : ProjectId) (sessionKey : String) : String :=
  S.callId p sessionKey (c.generation p (S.keyFingerprint p sessionKey))

/-- `apply` -/
def apply (w : DeliveryWorld α) (h : HeldDelivery α) (now : UnixNano) :
    Option (DeliveryWorld α) := do
  let p := h.delivery.connector.projectId
  let row ← w.receipts.find? h.receiptId
  if row.endpointId = h.delivery.connector.endpointId ∧ w.owns h.receiptId h.token = true then
    let preset ← w.catalog.readPreset p
    if w.catalog.tombstoned p (S.keyFingerprint p h.delivery.sessionKey) now then
      let catalog := w.catalog.bumpCounter p .purgedCallEvidenceDropped
        (h.delivery.spans C preset).length
      let fetches := { w.fetches with world := { w.fetches.world with catalog := catalog } }
      { w with fetches := fetches }.finish h.receiptId h.token none now
    else
      let recorded ← FetchWorld.step S w.fetches
        (.catalog (.recordSpans p (h.delivery.spans C preset) 0 now))
      let callId := callOf S recorded.world.catalog p h.delivery.sessionKey
      let fetches ← recorded.holdUnder S preset p callId h.delivery.connector.endpointId
        (h.delivery.providerRecordings C) now
      { w with fetches := fetches }.finish h.receiptId h.token (some callId) now
  else none

/-- `refresh_fetch_urls`, after a replay. -/
def refreshFetchUrls (w : DeliveryWorld α) (d : Delivery α) (now : UnixNano) :
    Option (DeliveryWorld α) :=
  ((d.providerRecordings C).foldlM (fun fetches recording =>
    FetchWorld.refreshUrl S fetches d.connector.projectId recording now) w.fetches).map
      fun fetches => { w with fetches := fetches }

end DeliveryWorld

/-! ## Operations -/

inductive DeliveryOp (α : Type) where
  /-- Any other transaction on the catalog and the fetches. -/
  | other (op : FetchOp)
  | configure (connector : Connector)
  | claim (d : Delivery α) (receiptId : String) (leaseNano : ℕ) (now : UnixNano)
  /-- The handler of the claim applies it. -/
  | apply (holder : ℕ) (now : UnixNano)
  | fail (holder : ℕ) (failureCode : String)
  | refreshFetchUrls (d : Delivery α) (now : UnixNano)

namespace DeliveryWorld

variable (S : CallStore) (C : Connectors α)

/-- **One transaction.** -/
def step (w : DeliveryWorld α) : DeliveryOp α → Option (DeliveryWorld α)
  | .other op => (FetchWorld.step S w.fetches op).map fun fetches => { w with fetches := fetches }
  | .configure connector => some { w with connectors := w.connectors.put connector }
  | .claim d receiptId leaseNano now => w.claim d receiptId leaseNano now
  | .apply holder now => (w.held[holder]?).bind fun h => w.apply S C h now
  | .fail holder failureCode => (w.held[holder]?).bind fun h => w.fail h failureCode
  | .refreshFetchUrls d now => w.refreshFetchUrls S C d now

/-- Nothing happened yet. -/
def init : DeliveryWorld α :=
  ⟨⟨.init, ⟨.empty, []⟩, [], []⟩, .empty, .empty, [], []⟩

/-- The world after a run, from nothing. -/
def after (ops : List (DeliveryOp α)) : DeliveryWorld α := Transition.run (step S C) init ops

end DeliveryWorld

end Earshot
