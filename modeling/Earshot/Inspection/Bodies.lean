import Mathlib.Data.List.Basic
import Mathlib.Data.List.TakeDrop
import Mathlib.Tactic.Common
/-!
# Uploaded bodies

What the inspectors of uploaded bodies share: how they fail, the numbers they
read from bytes, and the bounds on the durations they give.
-/

namespace Earshot.Inspection

/-! ## Failures -/

/-- What an inspector raises: its own header error, or something else. -/
inductive Failure where
  | header (text : String)
  | other
  deriving DecidableEq

/-- `MAX_DURATION_MS` -/
def MAX_DURATION_MS : ℕ := 9223372036854

/-- What an upload's inspection gives: the channels and the duration. -/
abbrev Outcome := Except Failure (ℕ × Option ℕ)

/-! ## Numbers -/

/-- A big-endian number. -/
def beNat (bytes : List UInt8) : ℕ := bytes.foldl (fun n b => 256 * n + b.toNat) 0

/-- A little-endian number. -/
def leNat : List UInt8 → ℕ
  | [] => 0
  | b :: rest => b.toNat + 256 * leNat rest

/-- `buffer[offset : offset + count]` -/
def slice (buffer : List UInt8) (offset count : ℕ) : List UInt8 := (buffer.drop offset).take count

/-- A little-endian number of `count` bytes; `struct` refuses what is too short. -/
def unpack (buffer : List UInt8) (offset count : ℕ) : Except Failure ℕ :=
  if offset + count ≤ buffer.length then .ok (leNat (slice buffer offset count)) else .error .other

/-- A big-endian number of `count` bytes; too few raise something else. -/
def unpackBig (buffer : List UInt8) (offset count : ℕ) : Except Failure ℕ :=
  if offset + count ≤ buffer.length then .ok (beNat (slice buffer offset count)) else .error .other

theorem unpack_eq {buffer : List UInt8} {offset count : ℕ} (h : offset + count ≤ buffer.length) :
    unpack buffer offset count = .ok (leNat (slice buffer offset count)) :=
  if_pos h

theorem unpackBig_eq {buffer : List UInt8} {offset count : ℕ}
    (h : offset + count ≤ buffer.length) :
    unpackBig buffer offset count = .ok (beNat (slice buffer offset count)) :=
  if_pos h

theorem slice_append {buffer more : List UInt8} {offset count : ℕ}
    (h : offset + count ≤ buffer.length) :
    slice (buffer ++ more) offset count = slice buffer offset count := by
  unfold slice
  rw [List.drop_append_of_le_length (by omega), List.take_append_of_le_length
    (by rw [List.length_drop]; omega)]

theorem slice_take {buffer : List UInt8} {offset count n : ℕ} (h : offset + count ≤ n) :
    slice (buffer.take n) offset count = slice buffer offset count := by
  unfold slice
  rw [List.drop_take, List.take_take, Nat.min_eq_left (by omega)]

/-! ## Durations -/

/-- `_bounded_duration_ms` -/
def boundedDurationMs (milliseconds : ℕ) : Option ℕ :=
  if milliseconds ≤ MAX_DURATION_MS then some milliseconds else none

/-- `plausible_duration_ms`: a byte holds no more than a second of audio. -/
def plausibleDurationMs (durationMs : Option ℕ) (size : ℕ) : Option ℕ :=
  durationMs.filter (· ≤ size * 1000)

/-- A bounded duration that is plausible is in bounds. -/
theorem plausible_le {duration : Option ℕ} {size d : ℕ}
    (hbound : ∀ d' ∈ duration, d' ≤ MAX_DURATION_MS)
    (h : plausibleDurationMs duration size = some d) : d ≤ MAX_DURATION_MS :=
  hbound d (Option.filter_eq_some_iff.mp h).1

theorem bounded_le {milliseconds : ℕ} : ∀ d ∈ boundedDurationMs milliseconds,
    d ≤ MAX_DURATION_MS := by
  intro d h
  unfold boundedDurationMs at h
  split at h
  · rename_i hle
    obtain rfl := Option.some.inj h
    exact hle
  · cases h

end Earshot.Inspection
