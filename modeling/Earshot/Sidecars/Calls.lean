import Earshot.Sidecars.Reading
/-!
# The sequencing state of a call

What a call keeps beside its recorder: the last drain applied, the ring of
digests with the version of each, the span observed, and the identity of a
drain that was interrupted. The digests and their versions are two
dictionaries, and an append that failed restores the one and not the other.

A call is of a durable registry: its sidecars are what it is rebuilt from.
-/

namespace Earshot.Sidecars

/-- What a registry is configured with, and whose call this is. -/
structure LedgerConfig where
  hash : CaptureHash
  hash_metadata : ∀ trace span uncertainty, isSha256 (hash.metadata trace span uncertainty) = true
  hash_content : ∀ content, isSha256 (hash.content content) = true
  /-- `float` of an integer. -/
  floatOf : ℤ → Option ℚ
  projectId : String
  projectId_ne : projectId ≠ ""
  callKey : String
  callKey_ne : callKey ≠ ""
  correlationKeyId : Option String
  correlationKeyId_hex : ∀ key, correlationKeyId = some key → isSha256 key = true

/-! ## The call -/

/-- The sequencing state of a call: what its sidecar is made of. -/
structure CaptureCall where
  projectId : String
  callKey : String
  correlationKeyId : Option String
  callMetadataDigest : String
  callMetadataBound : Bool
  applied : ℕ
  digests : Dict ℕ String
  digestVersions : Dict ℕ DigestVersion
  turnSequence : ℕ
  firstObservedMs : Option ℚ
  lastObservedMs : Option ℚ
  lossy : Bool
  finalized : Bool
  restarted : Bool
  retrySequence : Option ℕ
  retryDigest : Option String
  retryDigestVersion : Option DigestVersion
  intentPending : Bool

/-- `_remember_digest`'s loop: the items past the ring go, oldest first, each
with its version. -/
def evict : Dict ℕ String → Dict ℕ DigestVersion → Dict ℕ String × Dict ℕ DigestVersion
  | [], versions => ([], versions)
  | item :: rest, versions =>
      if DIGEST_RING_SIZE < (item :: rest).length then evict rest (versions.pop item.1)
      else (item :: rest, versions)

/-- `OrderedDict(sorted(d.items()))` -/
def Dict.sorted {ν : Type} (dict : Dict ℕ ν) : Dict ℕ ν :=
  dict.insertionSort fun a b => a.1 ≤ b.1

namespace CaptureCall

variable (C : LedgerConfig)

/-- A call that has applied nothing. -/
def fresh (drain : CaptureDrain) (callMetadataBound : Bool) : CaptureCall where
  projectId := C.projectId
  callKey := C.callKey
  correlationKeyId := C.correlationKeyId
  callMetadataDigest := drain.callMetadataDigest C.hash
  callMetadataBound := callMetadataBound
  applied := 0
  digests := []
  digestVersions := []
  turnSequence := 0
  firstObservedMs := none
  lastObservedMs := none
  lossy := false
  finalized := false
  restarted := false
  retrySequence := none
  retryDigest := none
  retryDigestVersion := none
  intentPending := false

/-- `rebuild` -/
def rebuild (drain : CaptureDrain) (sidecar : CaptureSidecar) (maxFactSequence : ℕ)
    (finalized : Bool) : CaptureCall :=
  { fresh C drain sidecar.callMetadataBound with
    applied := sidecar.applied
    digests := sidecar.digests.sorted
    digestVersions := sidecar.digestVersions.sorted
    firstObservedMs := sidecar.firstObservedMs
    lastObservedMs := sidecar.lastObservedMs
    lossy := sidecar.lossy
    finalized := finalized
    retrySequence := sidecar.retrySequence
    retryDigest := sidecar.retryDigest
    retryDigestVersion := sidecar.retryDigestVersion
    restarted := true
    turnSequence := maxFactSequence }

/-- `rebuild_finalized_ledger` -/
def rebuildFinalizedLedger (drain : CaptureDrain) (sidecar : CaptureSidecar) :
    Except CaptureError CaptureCall :=
  if !sidecar.sealed ∨ !sidecar.finalized ∨ sidecar.applied < 1 ∨ sidecar.retrySequence.isSome then
    .error .journalUnavailable
  else
    .ok { fresh C drain sidecar.callMetadataBound with
      applied := sidecar.applied
      digests := sidecar.digests.sorted
      digestVersions := sidecar.digestVersions.sorted
      firstObservedMs := sidecar.firstObservedMs
      lastObservedMs := sidecar.lastObservedMs
      lossy := sidecar.lossy
      finalized := true
      retryDigestVersion := sidecar.retryDigestVersion
      turnSequence := sidecar.turnSequence }

/-- A call that has accepted nothing, fenced by an interrupted first drain. -/
def rebuildFenced (drain : CaptureDrain) (sidecar : CaptureSidecar) (bound : Bool) : CaptureCall :=
  { fresh C drain bound with
    retrySequence := sidecar.retrySequence
    retryDigest := sidecar.retryDigest
    retryDigestVersion := sidecar.retryDigestVersion }

variable (call : CaptureCall) (drain : CaptureDrain)

/-- `_digest_version_for` -/
def digestVersionFor : DigestVersion :=
  if call.retrySequence = some drain.drainSequence then call.retryDigestVersion.getD .current
  else .current

/-- `_digest` -/
def digest : String := drain.digest C.hash (call.digestVersionFor drain)

/-- `_classify` -/
def classify : Except CaptureError Decision :=
  let sequence := drain.drainSequence
  if !matchesCallMetadata C.hash drain call.callMetadataBound (some call.callMetadataDigest) then
    .error (.conflict .metadata sequence)
  else if sequence ≤ call.applied then
    if call.digests.get sequence =
        some (drain.digest C.hash ((call.digestVersions.get sequence).getD .legacy)) then
      .ok .replay
    else .error (.conflict .rewrites sequence)
  else if call.retrySequence.isSome ∧
      (call.retrySequence ≠ some sequence ∨ call.retryDigest ≠ some (call.digest C drain)) then
    .error (.conflict .interrupted sequence)
  else if sequence = call.applied + 1 then .ok .apply
  else
    match drain.resync with
    | some resync =>
        if resync.missedThrough = sequence - 1 ∧ resync.missedFrom ≤ call.applied + 1 then
          .ok (.applyGap resync)
        else if resync.missedFrom ≤ call.applied then
          .error (.conflict .resyncApplied resync.missedFrom)
        else .error (.gap (call.applied + 1))
    | none => .error (.gap (call.applied + 1))

/-- `_remember_digest` -/
def rememberDigest (sequence : ℕ) (digest : String) (version : DigestVersion) : CaptureCall :=
  let ring := evict (call.digests.set sequence digest) (call.digestVersions.set sequence version)
  { call with digests := ring.1, digestVersions := ring.2 }

/-- `_observe_samples`: the earliest and the latest reading. -/
def observeSamples : CaptureCall :=
  (drain.snapshots ++ drain.deviceEvents).foldl
    (fun call sample =>
      match sample.timestampMs with
      | none => call
      | some reading =>
          { call with
            firstObservedMs := some (call.firstObservedMs.elim reading (min reading))
            lastObservedMs := some (call.lastObservedMs.elim reading (max reading)) })
    call

/-- `_persist_sidecar`'s sidecar. -/
def ledger : CaptureSidecar where
  projectId := call.projectId
  callKey := call.callKey
  applied := call.applied
  digests := call.digests
  turnSequence := call.turnSequence
  firstObservedMs := call.firstObservedMs
  lastObservedMs := call.lastObservedMs
  lossy := call.lossy
  finalized := call.finalized
  correlationKeyId := call.correlationKeyId
  sealed := false
  pendingSequence := none
  pendingDigest := none
  pendingJournalSize := none
  retrySequence := call.retrySequence
  retryDigest := call.retryDigest
  digestVersions := call.digestVersions
  pendingDigestVersion := none
  retryDigestVersion := call.retryDigestVersion
  expired := false
  callMetadataBound := call.callMetadataBound
  callMetadataDigest := if call.callMetadataBound then some call.callMetadataDigest else none

/-- The intent to append a drain. -/
def intent (journalSize : ℕ) : CaptureSidecar :=
  { call.ledger with
    pendingSequence := some drain.drainSequence
    pendingDigest := some (call.digest C drain)
    pendingJournalSize := some journalSize
    pendingDigestVersion := some (call.digestVersionFor drain) }

/-- A drain's samples observed and its loss flagged. -/
def observed (decision : Decision) : CaptureCall :=
  let gap := match decision with
    | .applyGap _ => true
    | .apply | .replay => false
  let call := call.observeSamples drain
  { call with
    lossy := call.lossy || gap || call.restarted || drain.declaresLoss
    restarted := false }

/-- The call as a drain is committed. -/
def settled (digest : String) (version : DigestVersion) : CaptureCall :=
  { ({ call with applied := drain.drainSequence }).rememberDigest drain.drainSequence digest
      version with
    finalized := drain.finalizes
    retrySequence := none
    retryDigest := none
    retryDigestVersion := none }

/-- `restore_capture_state` -/
def restored (before : CaptureCall) : CaptureCall :=
  { call with
    firstObservedMs := before.firstObservedMs
    lastObservedMs := before.lastObservedMs
    lossy := before.lossy
    digests := before.digests
    digestVersions := before.digestVersions
    applied := before.applied
    finalized := before.finalized
    retrySequence := before.retrySequence
    retryDigest := before.retryDigest
    retryDigestVersion := before.retryDigestVersion }

end CaptureCall

namespace CaptureSidecar

variable (C : LedgerConfig) (sidecar : CaptureSidecar) (drain : CaptureDrain)

/-- `_preflight_sidecar_drain` -/
def preflight : Except CaptureError Unit :=
  let sequence := drain.drainSequence
  let retrySequence := sidecar.retrySequence.or sidecar.pendingSequence
  let retryDigest := sidecar.retryDigest.or sidecar.pendingDigest
  let retryDigestVersion := sidecar.retryDigestVersion.or sidecar.pendingDigestVersion
  if !matchesCallMetadata C.hash drain sidecar.callMetadataBound sidecar.callMetadataDigest then
    .error (.conflict .metadata sequence)
  else if sequence ≤ sidecar.applied ∧ sidecar.digests.get sequence ≠
      some (drain.digest C.hash ((sidecar.digestVersions.get sequence).getD .legacy)) then
    .error (.conflict .rewrites sequence)
  else if retrySequence.isSome ∧ (retrySequence ≠ some sequence ∨ retryDigest = none ∨
      retryDigestVersion.map (drain.digest C.hash) ≠ retryDigest) then
    .error (.conflict .interrupted sequence)
  else .ok ()

/-- The intent is undone, and kept as the fence of an exact retry. -/
def recovered : CaptureSidecar :=
  { sidecar with
    pendingSequence := none
    pendingDigest := none
    pendingJournalSize := none
    pendingDigestVersion := none
    retrySequence := sidecar.pendingSequence
    retryDigest := sidecar.pendingDigest
    retryDigestVersion := sidecar.pendingDigestVersion }

/-- A legacy ledger given its call's metadata. -/
def migrated : CaptureSidecar :=
  { sidecar with
    callMetadataBound := true
    callMetadataDigest := some (drain.callMetadataDigest C.hash) }

end CaptureSidecar

end Earshot.Sidecars
