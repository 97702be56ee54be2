import Mathlib.Data.Rat.Defs
import Mathlib.Algebra.Order.Ring.Unbundled.Rat
/-!
# Browser drains

A browser call reaches the server as numbered drains of telemetry. A drain
carries snapshots and device events, what the client could not observe, what
the server's allowlist refused, the drains the client gave up on, and
whether the call ended. Its digest says whether a second request for its
number is the same request.

Every drain here is of one call: what the call's key is derived from is the
same in all of them. Labels pass the recorder's sanitizing unchanged.
-/

namespace Earshot

/-- A snapshot or a device event: its reading, when it has a numeric one,
and the rest. -/
structure Sample where
  timestampMs : Option ℚ
  body : String
  deriving DecidableEq

/-- A client's declaration that it permanently gave up on earlier drains. -/
structure ResyncClaim where
  missedFrom : ℕ
  missedThrough : ℕ
  reason : String
  deriving DecidableEq

/-- The client's declaration, on its final drain, that it stopped. -/
structure CaptureEnd where
  reason : String
  timestampMs : ℚ
  deriving DecidableEq

def END_CALL_ENDED : String := "call_ended"

/-- Only an observed close finalizes. -/
def CaptureEnd.finalizes (e : CaptureEnd) : Bool := e.reason == END_CALL_ENDED

/-- A client's own coverage claim. -/
structure ClientCoverage where
  signal : String
  availability : String
  reason : String
  dropped : Option ℕ
  deriving DecidableEq

/-- What the server's allowlist refuses. -/
inductive RejectionSignal where
  | stats
  | statMembers
  | deviceEvents
  | deviceEventMembers
  deriving DecidableEq

def RejectionSignal.label : RejectionSignal → String
  | .stats => "capture.stats"
  | .statMembers => "capture.stat_members"
  | .deviceEvents => "capture.device_events"
  | .deviceEventMembers => "capture.device_event_members"

structure RejectionCoverage where
  signal : RejectionSignal
  reason : String
  count : ℕ
  deriving DecidableEq

structure CaptureDrain where
  traceId : Option String
  spanId : Option String
  clockUncertaintyMs : ℚ
  drainSequence : ℕ
  snapshots : List Sample
  deviceEvents : List Sample
  coverage : List ClientCoverage
  rejectionCoverage : List RejectionCoverage
  resync : Option ResyncClaim
  ending : Option CaptureEnd
  deriving DecidableEq

/-! ## Digests -/

/-- The digests a ledger may hold: the first, with the rejections bound, and
with the call's metadata bound as well. -/
inductive DigestVersion where
  | legacy
  | rejectionCoverage
  | current
  deriving DecidableEq

/-- What a drain's digest is taken of. -/
structure DrainContent where
  sequence : ℕ
  snapshots : List Sample
  deviceEvents : List Sample
  coverage : List ClientCoverage
  resync : Option ResyncClaim
  ending : Option CaptureEnd
  rejectionCoverage : Option (List RejectionCoverage)
  callMetadataDigest : Option String
  deriving DecidableEq

/-- SHA-256 of canonical JSON, of a call's metadata and of a drain's content. -/
structure CaptureHash where
  metadata : Option String → Option String → ℚ → String
  content : DrainContent → String

namespace CaptureDrain

variable (H : CaptureHash) (drain : CaptureDrain)

/-- `call_metadata_digest` -/
def callMetadataDigest : String :=
  H.metadata drain.traceId drain.spanId drain.clockUncertaintyMs

def content (version : DigestVersion) : DrainContent where
  sequence := drain.drainSequence
  snapshots := drain.snapshots
  deviceEvents := drain.deviceEvents
  coverage := drain.coverage
  resync := drain.resync
  ending := drain.ending
  rejectionCoverage := if version = .legacy then none else some drain.rejectionCoverage
  callMetadataDigest := if version = .current then some (drain.callMetadataDigest H) else none

def digest (version : DigestVersion) : String := H.content (drain.content H version)

/-- The drain's observed end finalizes the call. -/
def finalizes : Bool := drain.ending.any CaptureEnd.finalizes

/-- `_drain_declares_loss`: the client counted losing observations, or the
allowlist withheld some. -/
def declaresLoss : Bool :=
  drain.coverage.any (fun note => note.dropped.any (0 < ·)) ||
    drain.rejectionCoverage.any (0 < ·.count)

end CaptureDrain

/-- A drain as a ledger remembers it. -/
structure DrainIdentity where
  sequence : ℕ
  digest : String
  version : DigestVersion
  deriving DecidableEq

/-- The drain is the one remembered. -/
def DrainIdentity.isOf (H : CaptureHash) (identity : DrainIdentity) (drain : CaptureDrain) : Bool :=
  drain.drainSequence = identity.sequence && drain.digest H identity.version = identity.digest

end Earshot
