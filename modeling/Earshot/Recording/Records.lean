import Earshot.Browser.Recorder
import Earshot.Privacy.Labels
import Mathlib.Data.Finset.Basic
/-!
# The recorder's records

What a recorder is offered and what it keeps. Preparing a record validates and
filters it outside the lock, and reads nothing of the recorder but its limits;
it may cut attribute maps short, which the recorder notes, and it may raise.
The fields of a contract model that no admission reads are one value of an
arbitrary type.
-/

namespace Earshot.Recording

open Privacy (CaptureClass)

/-- What an operation raises. -/
inductive Failure where
  | closed
  | invalid (text : String)
  deriving DecidableEq

/-- `_RECORD_KINDS` -/
inductive RecordKind where
  | adapter
  | coverage
  | event
  | media
  | omission
  | operation
  | participant
  | qualitySample
  | rawOtlp
  | stream
  deriving DecidableEq

def RecordKind.all : List RecordKind :=
  [.adapter, .coverage, .event, .media, .omission, .operation, .participant, .qualitySample,
    .rawOtlp, .stream]

/-- A field the policy withheld. -/
structure Omission where
  fieldKeySha256 : String
  captureClass : CaptureClass
  reason : String
  deriving DecidableEq

/-- A contract model: what identifies it, and its other fields. -/
structure Record (ν : Type) where
  identity : String
  fields : ν
  deriving DecidableEq

/-- A record ready to be admitted: what was withheld of it, the classes it
retains, its own class and its estimated size. -/
structure Draft (ν : Type) where
  record : Record ν
  omissions : List Omission
  classes : Finset CaptureClass
  captureClass : CaptureClass
  size : ℕ

/-- An attribute map, in order. -/
abbrev Attributes (ν : Type) := List (ν × ν)

/-- One `_note_omission_locked` call. -/
structure Note where
  reason : String
  kind : RecordKind
  captureClass : CaptureClass
  estimatedBytes : ℕ
  wholeRecord : Bool
  freeze : Bool
  deriving DecidableEq

variable {ν α : Type}

/-- The limits, the policy, and the sizes that are counted. -/
structure RecorderConfig (ν : Type) where
  maxRecords : ℕ
  maxCaptureBytes : ℕ
  maxRawOtlpBytes : ℕ
  maxValueBytes : ℕ
  allows : CaptureClass → Bool
  clockDomainId : String
  /-- A journal is written. -/
  journaled : Bool
  /-- `_structural_size_up_to` of a value, and whether it exceeds; nothing where
  the value holds itself. -/
  valueSize : ν → Option (ℕ × Bool)
  /-- `classify_attribute`; a key that is no string is metadata. -/
  classify : ν → CaptureClass
  coverageSize : Coverage → ℕ
  omissionSize : Omission → ℕ
  sha256 : String → String

/-! ## Preparing a record -/

/-- How a record is prepared: pure work, but for the attribute maps that are
bounded on the way and the lists found too long. -/
inductive Prep (ν α : Type) where
  | done (result : Except Failure α)
  | bounded (kind : RecordKind) (attributes : Attributes ν) (next : Attributes ν → Prep ν α)
  | excess (kind : RecordKind) (next : Prep ν α)

/-- The loop of `_bounded_attributes`: what it keeps, and the omissions it
notes on an open recorder. -/
def boundedFrom (C : RecorderConfig ν) (opened : Bool) (kind : RecordKind) :
    Attributes ν → ℕ → Except Failure (Attributes ν) × List Note
  | [], _ => (.ok [], [])
  | (key, value) :: rest, aggregate =>
    match C.valueSize value with
    | none => (.error (.invalid "captured value contains an unsafe key or value"), [])
    | some (estimate, exceeded) =>
      if exceeded = true ∨ C.maxValueBytes < aggregate + estimate then
        if opened = true then
          let note : Note := ⟨"max_value_bytes", kind, C.classify key, estimate, false, false⟩
          if C.maxValueBytes < aggregate + estimate then (.ok [], [note])
          else
            let r := boundedFrom C opened kind rest aggregate
            (r.1, note :: r.2)
        else (.error .closed, [])
      else
        let r := boundedFrom C opened kind rest (aggregate + estimate)
        (r.1.map ((key, value) :: ·), r.2)

/-- `_bounded_attributes` -/
def boundedAttributes (C : RecorderConfig ν) (opened : Bool) (kind : RecordKind)
    (attributes : Attributes ν) : Except Failure (Attributes ν) × List Note :=
  boundedFrom C opened kind attributes 0

/-- A preparation's result, and the omissions noted before it. -/
def Prep.run (C : RecorderConfig ν) (opened : Bool) :
    Prep ν α → Except Failure α × List Note
  | .done result => (result, [])
  | .bounded kind attributes next =>
    match boundedAttributes C opened kind attributes with
    | (.error e, notes) => (.error e, notes)
    | (.ok kept, notes) =>
      let r := (next kept).run C opened
      (r.1, notes ++ r.2)
  | .excess kind next =>
    let r := next.run C opened
    (r.1, ⟨"max_value_bytes", kind, .metadata, 1, false, false⟩ :: r.2)

/-- An omission of a value: no record is counted, and nothing freezes. -/
def Note.OfValue (n : Note) : Prop := n.wholeRecord = false ∧ n.freeze = false

theorem boundedFrom_ofValue (C : RecorderConfig ν) (opened : Bool) (kind : RecordKind)
    (attributes : Attributes ν) (aggregate : ℕ) :
    ∀ n ∈ (boundedFrom C opened kind attributes aggregate).2, n.OfValue := by
  induction attributes generalizing aggregate with
  | nil => simp only [boundedFrom, List.not_mem_nil, false_implies, implies_true]
  | cons entry rest ih =>
    obtain ⟨key, value⟩ := entry
    intro n hn
    rw [boundedFrom] at hn
    split at hn
    · cases hn
    split at hn
    · split at hn
      · dsimp only at hn
        split at hn
        · rw [List.mem_singleton.mp hn]
          exact ⟨rfl, rfl⟩
        · rcases List.mem_cons.mp hn with rfl | hn
          · exact ⟨rfl, rfl⟩
          · exact ih _ n hn
      · cases hn
    · exact ih _ n hn

/-- **A preparation notes omissions of values only.** -/
theorem Prep.run_ofValue (C : RecorderConfig ν) (opened : Bool) (prep : Prep ν α) :
    ∀ n ∈ (prep.run C opened).2, n.OfValue := by
  induction prep with
  | done result => simp only [Prep.run, List.not_mem_nil, false_implies, implies_true]
  | bounded kind attributes next ih =>
    intro n hn
    have hbounded := boundedFrom_ofValue C opened kind attributes 0
    unfold Prep.run boundedAttributes at hn
    generalize boundedFrom C opened kind attributes 0 = b at hn hbounded
    obtain ⟨_ | kept, notes⟩ := b
    · exact hbounded n hn
    · rcases List.mem_append.mp hn with hn | hn
      · exact hbounded n hn
      · exact ih kept n hn
  | excess kind next ih =>
    intro n hn
    rw [Prep.run] at hn
    rcases List.mem_cons.mp hn with rfl | hn
    · exact ⟨rfl, rfl⟩
    · exact ih n hn

end Earshot.Recording
