import Earshot.Browser.Call
import Mathlib.Data.List.Sort
/-!
# Sidecar documents

A call's sequencing state is kept beside its journal as a JSON object. A
document is given here by its values: a dictionary is the list of its items in
the order they were put in, each key once, and dumping one sorts its items by
their keys.

`to_json` writes every field of a sidecar, and `from_json` takes a document
apart again, field by field and then rule by rule. A document may come from
an older server, without the digests' versions and without the call's
metadata.
-/

namespace Earshot.Sidecars

/-! ## Dictionaries -/

section Dict

variable {κ ν : Type} [DecidableEq κ]

/-- A Python dictionary, in insertion order. -/
abbrev Dict (κ ν : Type) := List (κ × ν)

namespace Dict

def get (dict : Dict κ ν) (key : κ) : Option ν :=
  (dict.find? fun item => item.1 = key).map (·.2)

def keys (dict : Dict κ ν) : List κ := dict.map (·.1)

/-- The item goes last, unless its key is there. -/
def set (dict : Dict κ ν) (key : κ) (value : ν) : Dict κ ν :=
  if key ∈ dict.keys then dict.map fun item => if item.1 = key then (key, value) else item
  else dict ++ [(key, value)]

def pop (dict : Dict κ ν) (key : κ) : Dict κ ν := dict.filter fun item => item.1 ≠ key

end Dict

end Dict

/-! ## Documents -/

/-- A value that is not an object. No field takes an array, and what one holds
is left out. -/
inductive Scalar where
  | null
  | bool (b : Bool)
  | int (n : ℤ)
  | float (x : ℚ)
  | nonfinite
  | str (s : String)
  | array
  deriving DecidableEq

inductive Value where
  | scalar (v : Scalar)
  | object (entries : Dict String Scalar)
  deriving DecidableEq

abbrev Document := Dict String Value

/-- Items in the order of their keys. -/
def sortKeys {ν : Type} (entries : Dict String ν) : Dict String ν :=
  entries.insertionSort fun a b => a.1 ≤ b.1

def Value.sorted : Value → Value
  | .scalar v => .scalar v
  | .object entries => .object (sortKeys entries)

/-- `json.dumps(…, sort_keys=True)`, as it is loaded again. -/
def dumps (document : Document) : Document :=
  sortKeys (document.map fun entry => (entry.1, entry.2.sorted))

def LEGACY_CAPTURE_DIGEST_VERSION : ℕ := 1
def REJECTION_COVERAGE_CAPTURE_DIGEST_VERSION : ℕ := 2
def CURRENT_CAPTURE_DIGEST_VERSION : ℕ := 3

/-- A version as its number. -/
def versionNumber : DigestVersion → ℕ
  | .legacy => LEGACY_CAPTURE_DIGEST_VERSION
  | .rejectionCoverage => REJECTION_COVERAGE_CAPTURE_DIGEST_VERSION
  | .current => CURRENT_CAPTURE_DIGEST_VERSION

/-- The version of a number, where there is one. -/
def versionOf (n : ℕ) : Option DigestVersion :=
  if n = LEGACY_CAPTURE_DIGEST_VERSION then some .legacy
  else if n = REJECTION_COVERAGE_CAPTURE_DIGEST_VERSION then some .rejectionCoverage
  else if n = CURRENT_CAPTURE_DIGEST_VERSION then some .current
  else none

def Value.ofNat (n : ℕ) : Value := .scalar (.int (.ofNat n))
def Value.ofBool (b : Bool) : Value := .scalar (.bool b)
def Value.ofString (s : String) : Value := .scalar (.str s)

def Value.ofVersion (version : DigestVersion) : Value := .ofNat (versionNumber version)

/-- `None` is written as null. -/
def Value.ofOption {α : Type} (write : α → Value) (value : Option α) : Value :=
  value.elim (.scalar .null) write

/-! ## Sidecars -/

structure CaptureSidecar where
  projectId : String
  callKey : String
  applied : ℕ
  digests : Dict ℕ String
  turnSequence : ℕ
  firstObservedMs : Option ℚ
  lastObservedMs : Option ℚ
  lossy : Bool
  finalized : Bool
  correlationKeyId : Option String
  sealed : Bool
  pendingSequence : Option ℕ
  pendingDigest : Option String
  pendingJournalSize : Option ℕ
  retrySequence : Option ℕ
  retryDigest : Option String
  digestVersions : Dict ℕ DigestVersion
  pendingDigestVersion : Option DigestVersion
  retryDigestVersion : Option DigestVersion
  expired : Bool
  callMetadataBound : Bool
  callMetadataDigest : Option String
  deriving DecidableEq

namespace CaptureSidecar

/-- The version of a drain that has a sequence: the first, where none is given. -/
def versionOr (sequence : Option ℕ) (version : Option DigestVersion) : Option DigestVersion :=
  if sequence.isNone then version else some (version.getD .legacy)

/-- `to_json` -/
def toJson (s : CaptureSidecar) : Document :=
  [("project_id", .ofString s.projectId),
    ("call_key", .ofString s.callKey),
    ("applied", .ofNat s.applied),
    ("digests", .object (s.digests.map fun item => (toString item.1, .str item.2))),
    ("digest_versions", .object (s.digests.map fun item =>
      (toString item.1,
        .int (.ofNat (versionNumber ((s.digestVersions.get item.1).getD .current)))))),
    ("turn_sequence", .ofNat s.turnSequence),
    ("first_observed_ms", .ofOption (fun x => .scalar (.float x)) s.firstObservedMs),
    ("last_observed_ms", .ofOption (fun x => .scalar (.float x)) s.lastObservedMs),
    ("lossy", .ofBool s.lossy),
    ("finalized", .ofBool s.finalized),
    ("correlation_key_id", .ofOption .ofString s.correlationKeyId),
    ("sealed", .ofBool s.sealed),
    ("expired", .ofBool s.expired),
    ("call_metadata_bound", .ofBool s.callMetadataBound),
    ("call_metadata_digest", .ofOption .ofString s.callMetadataDigest),
    ("pending_sequence", .ofOption .ofNat s.pendingSequence),
    ("pending_digest", .ofOption .ofString s.pendingDigest),
    ("pending_journal_size", .ofOption .ofNat s.pendingJournalSize),
    ("pending_digest_version",
      .ofOption .ofVersion (versionOr s.pendingSequence s.pendingDigestVersion)),
    ("retry_sequence", .ofOption .ofNat s.retrySequence),
    ("retry_digest", .ofOption .ofString s.retryDigest),
    ("retry_digest_version",
      .ofOption .ofVersion (versionOr s.retrySequence s.retryDigestVersion))]

end CaptureSidecar

/-! ## Reading fields -/

abbrev Parse (α : Type) := Except String α

/-- `raise ValueError` where the condition holds. -/
def refuse (condition : Prop) [Decidable condition] (message : String) : Parse Unit :=
  if condition then .error message else .ok ()

/-- A missing key is `None`. -/
def Document.field (document : Document) (key : String) : Value :=
  (Dict.get document key).getD (.scalar .null)

/-- `document.get(key, default)` -/
def Document.fieldOr (document : Document) (key : String) (value : Value) : Value :=
  (Dict.get document key).getD value

/-- `_optional_nonnegative_int` -/
def optionalNonnegativeInt : Value → Parse (Option ℕ)
  | .scalar .null => .ok none
  | .scalar (.int (.ofNat n)) => .ok (some n)
  | _ => .error "capture sidecar sequence or offset is invalid"

/-- `_required_nonnegative_int` -/
def requiredNonnegativeInt (value : Value) (name : String) : Parse ℕ :=
  match value with
  | .scalar (.int (.ofNat n)) => .ok n
  | _ => .error ("capture sidecar " ++ name ++ " is invalid")

/-- `_required_bool` -/
def requiredBool (value : Value) (name : String) : Parse Bool :=
  match value with
  | .scalar (.bool b) => .ok b
  | _ => .error ("capture sidecar " ++ name ++ " is invalid")

/-- Sixty-four lower-case hexadecimal digits. -/
def isSha256 (s : String) : Bool :=
  s.length = 64 && s.toList.all fun c => ("0123456789abcdef".toList).contains c

/-- `_optional_sha256` -/
def optionalSha256 : Value → Parse (Option String)
  | .scalar .null => .ok none
  | .scalar (.str s) =>
      if isSha256 s then .ok (some s) else .error "capture sidecar digest is invalid"
  | _ => .error "capture sidecar digest is invalid"

/-- `_optional_capture_digest_version` -/
def optionalCaptureDigestVersion (value : Value) (fallback : Option DigestVersion) :
    Parse (Option DigestVersion) :=
  match value with
  | .scalar .null => .ok fallback
  | .scalar (.int (.ofNat n)) =>
      match versionOf n with
      | some version => .ok (some version)
      | none => .error "capture sidecar digest version is unsupported"
  | _ => .error "capture sidecar digest version is unsupported"

/-- `_optional_finite_float`: `floatOf` rounds an integer, where it has a
float. -/
def optionalFiniteFloat (floatOf : ℤ → Option ℚ) : Value → Parse (Option ℚ)
  | .scalar .null => .ok none
  | .scalar (.float x) => .ok (some x)
  | .scalar (.int n) =>
      match floatOf n with
      | some x => .ok (some x)
      | none => .error "capture sidecar observation time is not finite"
  | .scalar .nonfinite => .error "capture sidecar observation time is not finite"
  | _ => .error "capture sidecar observation time is invalid"

/-- A nonempty string. -/
def requiredName (value : Value) (message : String) : Parse String :=
  match value with
  | .scalar (.str s) => if s = "" then .error message else .ok s
  | _ => .error message

/-- A key that is the canonical decimal of a number. -/
def parseSequence (key : String) (message : String) : Parse ℕ :=
  let n := Nat.ofDigitChars 10 key.toList 0
  if toString n = key then .ok n else .error message

/-- One item of the digests. -/
def parseDigest (applied : ℕ) (digests : Dict ℕ String) (entry : String × Scalar) :
    Parse (Dict ℕ String) := do
  let sequence ← parseSequence entry.1 "capture sidecar digest sequence is invalid"
  refuse (sequence < 1 ∨ applied < sequence)
    "capture sidecar digest sequence is outside applied state"
  match ← optionalSha256 (.scalar entry.2) with
  | none => .error "capture sidecar digest is missing"
  | some digest => .ok (digests.set sequence digest)

/-- One item of the digests' versions. -/
def parseVersion (digests : Dict ℕ String) (versions : Dict ℕ DigestVersion)
    (entry : String × Scalar) : Parse (Dict ℕ DigestVersion) := do
  let sequence ← parseSequence entry.1 "capture sidecar digest version sequence is invalid"
  match ← optionalCaptureDigestVersion (.scalar entry.2) none with
  | none => .error "capture sidecar digest version is invalid"
  | some version =>
      if sequence ∈ digests.keys then .ok (versions.set sequence version)
      else .error "capture sidecar digest version is invalid"

def parseDigests (applied : ℕ) : Value → Parse (Dict ℕ String)
  | .object entries => entries.foldlM (parseDigest applied) []
  | .scalar _ => .error "capture sidecar digests must be an object"

/-- The digests' versions; the first for each where the document has none. -/
def parseVersions (digests : Dict ℕ String) : Value → Parse (Dict ℕ DigestVersion)
  | .scalar .null => .ok (digests.map fun item => (item.1, .legacy))
  | .object entries => do
      let versions ← entries.foldlM (parseVersion digests) []
      refuse (¬ ∀ sequence ∈ digests.keys, sequence ∈ versions.keys)
        "capture sidecar digest versions do not match its digests"
      return versions
  | .scalar _ => .error "capture sidecar digest versions must be an object"

namespace CaptureSidecar

/-- `from_json` -/
def fromJson (floatOf : ℤ → Option ℚ) (document : Document) : Parse CaptureSidecar := do
  let applied ← requiredNonnegativeInt (document.field "applied") "applied"
  let turnSequence ←
    requiredNonnegativeInt (document.fieldOr "turn_sequence" (.ofNat 0)) "turn_sequence"
  let lossy ← requiredBool (document.fieldOr "lossy" (.ofBool false)) "lossy"
  let finalized ← requiredBool (document.fieldOr "finalized" (.ofBool false)) "finalized"
  let sealed ← requiredBool (document.fieldOr "sealed" (.ofBool false)) "sealed"
  let expired ← requiredBool (document.fieldOr "expired" (.ofBool false)) "expired"
  let bound ←
    requiredBool (document.fieldOr "call_metadata_bound" (.ofBool false)) "call_metadata_bound"
  let callMetadataDigest ← optionalSha256 (document.field "call_metadata_digest")
  let correlationKeyId ← optionalSha256 (document.field "correlation_key_id")
  let projectId ←
    requiredName (document.field "project_id") "capture sidecar project identity is invalid"
  let callKey ← requiredName (document.field "call_key") "capture sidecar call identity is invalid"
  let pendingSequence ← optionalNonnegativeInt (document.field "pending_sequence")
  let pendingJournalSize ← optionalNonnegativeInt (document.field "pending_journal_size")
  let pendingDigest ← optionalSha256 (document.field "pending_digest")
  let retrySequence ← optionalNonnegativeInt (document.field "retry_sequence")
  let retryDigest ← optionalSha256 (document.field "retry_digest")
  let pendingDigestVersion ←
    optionalCaptureDigestVersion (document.field "pending_digest_version")
      (pendingSequence.map fun _ => .legacy)
  let retryDigestVersion ←
    optionalCaptureDigestVersion (document.field "retry_digest_version")
      (retrySequence.map fun _ => .legacy)
  refuse ((pendingSequence.isSome ∨ pendingDigest.isSome ∨ pendingJournalSize.isSome) ∧
      (pendingSequence.isNone ∨ pendingDigest.isNone ∨ pendingJournalSize.isNone ∨
        pendingSequence.any (· < 1)))
    "capture sidecar pending transaction is incomplete"
  refuse (retrySequence.isNone ≠ retryDigest.isNone) "capture sidecar retry identity is incomplete"
  refuse (pendingSequence.isNone ≠ pendingDigestVersion.isNone)
    "capture sidecar pending digest version is incomplete"
  refuse (retrySequence.isNone ≠ retryDigestVersion.isNone)
    "capture sidecar retry digest version is incomplete"
  refuse (retrySequence.any (· < 1)) "capture sidecar retry sequence is invalid"
  refuse (pendingSequence.any (· ≤ applied)) "capture sidecar pending sequence is already applied"
  refuse (retrySequence.any (· ≤ applied)) "capture sidecar retry sequence is already applied"
  refuse (pendingSequence.isSome ∧ retrySequence.isSome ∧
      (pendingSequence ≠ retrySequence ∨ pendingDigest ≠ retryDigest ∨
        pendingDigestVersion ≠ retryDigestVersion))
    "capture sidecar pending and retry identities disagree"
  refuse (sealed ∧ (!finalized ∨ pendingSequence.isSome ∨ retrySequence.isSome))
    "capture sidecar sealed state is inconsistent"
  refuse (expired ∧ (sealed ∨ finalized)) "capture sidecar cannot be expired after finalization"
  refuse (bound ∧ callMetadataDigest.isNone) "capture sidecar call metadata is incomplete"
  refuse (!bound ∧ callMetadataDigest.isSome)
    "unbound capture sidecar call metadata must be empty"
  refuse (finalized ∧ (pendingSequence.isSome ∨ retrySequence.isSome))
    "capture sidecar finalized state has an unresolved drain"
  let digests ← parseDigests applied (document.fieldOr "digests" (.object []))
  refuse (DIGEST_RING_SIZE < digests.length) "capture sidecar digest ring exceeds its bound"
  refuse ((applied = 0 ∧ digests ≠ []) ∨ (0 < applied ∧ applied ∉ digests.keys))
    "capture sidecar digest ring does not cover its latest drain"
  let digestVersions ← parseVersions digests (document.field "digest_versions")
  let firstObservedMs ← optionalFiniteFloat floatOf (document.field "first_observed_ms")
  let lastObservedMs ← optionalFiniteFloat floatOf (document.field "last_observed_ms")
  refuse (firstObservedMs.isNone ≠ lastObservedMs.isNone)
    "capture sidecar observation span is incomplete"
  refuse (firstObservedMs.any fun first => lastObservedMs.any (· < first))
    "capture sidecar observation span is reversed"
  return {
    projectId
    callKey
    applied
    digests
    turnSequence
    firstObservedMs
    lastObservedMs
    lossy
    finalized
    correlationKeyId
    sealed
    pendingSequence
    pendingDigest
    pendingJournalSize
    retrySequence
    retryDigest
    digestVersions
    pendingDigestVersion
    retryDigestVersion
    expired
    callMetadataBound := bound
    callMetadataDigest }

end CaptureSidecar

end Earshot.Sidecars
