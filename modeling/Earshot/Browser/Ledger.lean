import Earshot.Browser.Call
import Mathlib.Data.List.Sort
/-!
# The ledger of one call

A durable call's sequencing state outlives the process in a sidecar, beside
the journal of its frames. Before an append the sidecar holds the intent:
the drain, and where the journal ended. A call is rebuilt from the two, less
the carry, which no file holds.

A ledger here is of a call whose metadata was bound when it was made, and of
an instance without a correlation key.
-/

namespace Earshot

/-- An append that was begun: the drain, and where the journal ended. -/
structure PendingDrain extends DrainIdentity where
  journalSize : ℕ
  deriving DecidableEq

structure CaptureSidecar where
  applied : ℕ
  digests : List DrainIdentity
  turnSequence : ℕ
  firstObservedMs : Option ℚ
  lastObservedMs : Option ℚ
  lossy : Bool
  finalized : Bool
  sealed : Bool
  pending : Option PendingDrain
  retry : Option DrainIdentity
  expired : Bool
  callMetadataBound : Bool
  callMetadataDigest : Option String
  deriving DecidableEq

namespace CaptureSidecar

/-- `from_json` takes the document. -/
def wellFormed (sidecar : CaptureSidecar) : Bool :=
  sidecar.pending.all (fun p => 1 ≤ p.sequence && sidecar.applied < p.sequence) &&
    sidecar.retry.all (fun r => 1 ≤ r.sequence && sidecar.applied < r.sequence) &&
    sidecar.pending.all (fun p => sidecar.retry.all (· = p.toDrainIdentity)) &&
    (!sidecar.sealed ||
      (sidecar.finalized && sidecar.pending.isNone && sidecar.retry.isNone)) &&
    !(sidecar.expired && (sidecar.sealed || sidecar.finalized)) &&
    (sidecar.callMetadataBound == sidecar.callMetadataDigest.isSome) &&
    !(sidecar.finalized && (sidecar.pending.isSome || sidecar.retry.isSome)) &&
    sidecar.digests.all (fun d => 1 ≤ d.sequence && d.sequence ≤ sidecar.applied) &&
    decide (sidecar.digests.length ≤ DIGEST_RING_SIZE) &&
    (if sidecar.applied = 0 then sidecar.digests.isEmpty
      else sidecar.digests.any (·.sequence = sidecar.applied)) &&
    (sidecar.firstObservedMs.isNone == sidecar.lastObservedMs.isNone) &&
    sidecar.firstObservedMs.all fun first => sidecar.lastObservedMs.all (first ≤ ·)

/-- The identity an exact retry must have. -/
def fence (sidecar : CaptureSidecar) : Option DrainIdentity :=
  sidecar.retry.or (sidecar.pending.map (·.toDrainIdentity))

/-- `_preflight_sidecar_drain` -/
def preflight (H : CaptureHash) (sidecar : CaptureSidecar) (drain : CaptureDrain) :
    Except CaptureError Unit :=
  let sequence := drain.drainSequence
  if !matchesCallMetadata H drain sidecar.callMetadataBound sidecar.callMetadataDigest then
    .error (.conflict .metadata sequence)
  else if sequence ≤ sidecar.applied ∧
      ¬ (digestOf sidecar.digests sequence).any (·.isOf H drain) then
    .error (.conflict .rewrites sequence)
  else if sidecar.fence.any (fun retry => !retry.isOf H drain) then
    .error (.conflict .interrupted sequence)
  else .ok ()

/-- The intent is undone, and kept as the fence of an exact retry. -/
def recovered (sidecar : CaptureSidecar) : CaptureSidecar :=
  { sidecar with
    pending := none
    retry := sidecar.pending.map (·.toDrainIdentity) }

/-- The digests, in the order of their drains. -/
def sortedDigests (sidecar : CaptureSidecar) : List DrainIdentity :=
  sidecar.digests.insertionSort fun a b => a.sequence ≤ b.sequence

end CaptureSidecar

namespace CaptureCall

variable {Carry : Type} (C : CaptureConfig Carry) (call : CaptureCall Carry)

/-- The ledger `_persist_sidecar` writes. -/
def ledger : CaptureSidecar where
  applied := call.applied
  digests := call.digests
  turnSequence := call.turn.sequence
  firstObservedMs := call.firstObservedMs
  lastObservedMs := call.lastObservedMs
  lossy := call.lossy
  finalized := call.finalized
  sealed := false
  pending := none
  retry := call.retry
  expired := false
  callMetadataBound := call.callMetadataBound
  callMetadataDigest := if call.callMetadataBound then some call.callMetadataDigest else none

/-- The ledger with the intent to append a drain. -/
def intent (identity : DrainIdentity) (journalSize : ℕ) : CaptureSidecar :=
  { call.ledger with pending := some ⟨identity, journalSize⟩ }

/-- `rebuild` -/
def rebuild (drain : CaptureDrain) (sidecar : CaptureSidecar) (entries : List JournalEntry)
    (finalized : Bool) : CaptureCall Carry :=
  { fresh C drain sidecar.callMetadataBound with
    turn :=
      ⟨{ ((Recorder.opened C.recorder).takeNew).2 with coverage := replayCoverage entries },
        maxFactSequence entries⟩
    applied := sidecar.applied
    digests := sidecar.sortedDigests
    firstObservedMs := sidecar.firstObservedMs
    lastObservedMs := sidecar.lastObservedMs
    lossy := sidecar.lossy
    finalized := finalized
    retry := sidecar.retry
    identityDeclared := true
    restarted := true }

/-- `rebuild_finalized_ledger` -/
def rebuildFinalizedLedger (drain : CaptureDrain) (sidecar : CaptureSidecar) :
    Except CaptureError (CaptureCall Carry) :=
  if !sidecar.sealed ∨ !sidecar.finalized ∨ sidecar.applied < 1 ∨ sidecar.retry.isSome then
    .error .journalUnavailable
  else
    .ok { fresh C drain sidecar.callMetadataBound with
      turn := ⟨((Recorder.opened C.recorder).takeNew).2, sidecar.turnSequence⟩
      applied := sidecar.applied
      digests := sidecar.sortedDigests
      firstObservedMs := sidecar.firstObservedMs
      lastObservedMs := sidecar.lastObservedMs
      lossy := sidecar.lossy
      finalized := true
      identityDeclared := true }

/-- A call that has accepted nothing, fenced by an interrupted first drain. -/
def rebuildFenced (drain : CaptureDrain) (sidecar : CaptureSidecar) (bound : Bool) :
    CaptureCall Carry :=
  { fresh C drain bound with retry := sidecar.retry }

end CaptureCall

/-- A journal that holds a finalize entry is closed. -/
def closeObserved (entries : List JournalEntry) : Bool := (finalizeOf entries).isSome

end Earshot
