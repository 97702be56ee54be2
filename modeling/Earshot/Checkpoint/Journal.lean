import Earshot.Checkpoint.Framing
/-!
# Journal entries, their writer and their reader

A writer appends one frame an entry. It stops for good when a write fails
(`degraded`), and accepts no more facts once a cap is met, which it says in
an `exhausted` entry that no cap holds back. A reader takes the entries a
file begins with: a header, and what follows it up to a finalize.

An entry's contents are of a type `α` that neither reads. The JSON codec and
the cipher are parameters, with the laws a reader relies on.
-/

namespace Earshot

namespace Checkpoint

/-! ## Entries -/

def JOURNAL_FORMAT_VERSION : ℕ := 1
def REASON_JOURNAL_FULL : String := "checkpoint_journal_full"
def DEFAULT_MAX_FRAME_BYTES : ℕ := 32 * 1024 * 1024
def AT_REST_NONCE_BYTES : ℕ := 12

structure JournalOpen (α : Type) where
  journalFormatVersion : ℕ
  journalId : String
  sessionId : String
  bundleId : String
  rest : α
  deriving DecidableEq

inductive JournalEntry (α : Type) where
  | opened (header : JournalOpen α)
  | record (value : α)
  | limit (value : α)
  | operationOpen (value : α)
  | exhausted (reason : String)
  | finalize (journalComplete : Bool) (rest : α)
  deriving DecidableEq

variable {α : Type}

def JournalEntry.isFinalize : JournalEntry α → Bool
  | .finalize _ _ => true
  | _ => false

def JournalEntry.isOpened : JournalEntry α → Bool
  | .opened _ => true
  | _ => false

/-- `encode_entry` and `decode_entry`; an entry that cannot be encoded is
`none`. -/
structure EntryCodec (α : Type) where
  encode : JournalEntry α → Option Bytes
  decode : Bytes → Option (JournalEntry α)
  decode_encode : ∀ entry body, encode entry = some body → decode body = some entry

/-- AES-GCM under a key: nonce, body and associated data. What is encrypted
is no shorter than its tag. -/
structure Cipher where
  encrypt : Bytes → Bytes → Option String × ℕ → Bytes
  decrypt : Bytes → Bytes → Option String × ℕ → Option Bytes
  encrypt_ne_nil : ∀ nonce body aad, encrypt nonce body aad ≠ []
  decrypt_encrypt : ∀ nonce body aad, decrypt nonce (encrypt nonce body aad) aad = some body

/-- `journal_frame_aad`: the header binds no journal id. -/
def frameAad (journalId : String) (sequence : ℕ) : Option String × ℕ :=
  (if sequence = 1 then none else some journalId, sequence)

structure CheckpointConfig (α : Type) where
  codec : EntryCodec α
  cipher : Option Cipher
  /-- `fsync_mode == "always"` -/
  fsyncAlways : Bool
  maxJournalBytes : ℕ
  maxRecords : ℕ
  maxFrameBytes : ℕ

/-! ## The writer -/

/-- What becomes of one append's write and `fsync`. -/
structure WriteFate where
  /-- How much was written, where that is not all; `none` for an `OSError`. -/
  short : Option (Option ℕ)
  fsyncFails : Bool
  nonce : Bytes
  nonce_length : nonce.length = AT_REST_NONCE_BYTES

structure Writer (α : Type) where
  journalId : String
  /-- The journal could be created. -/
  descriptor : Bool
  file : Bytes
  sequence : ℕ
  journalBytes : ℕ
  degraded : Bool
  journalComplete : Bool
  droppedRecords : ℕ
  finalized : Bool
  /-- The entries whose append reported success. Nothing reads it. -/
  reported : List (JournalEntry α)
  /-- For each append that was dropped, how many entries were reported by
  then. Nothing reads it. -/
  drops : List ℕ
  /-- The same, of the appends that met a cap. Nothing reads it. -/
  capDrops : List ℕ

variable (C : CheckpointConfig α)

/-- The body of an entry's frame. -/
def CheckpointConfig.bodyOf (journalId : String) (sequence : ℕ) (nonce plaintext : Bytes) : Bytes :=
  match C.cipher with
  | none => plaintext
  | some cipher => nonce ++ cipher.encrypt nonce plaintext (frameAad journalId sequence)

namespace Writer

/-- `_fail_locked` -/
def failLocked (w : Writer α) : Writer α :=
  if w.degraded then w else { w with degraded := true, journalComplete := false }

/-- What was tried and is not in the journal. -/
def drop (w : Writer α) : Writer α := { w with drops := w.drops ++ [w.reported.length] }

/-- A frame is written and, where it must be, synced. -/
def writeFrame (forceFsync : Bool) (fate : WriteFate) (entry : JournalEntry α) (frame : Bytes)
    (w : Writer α) : Bool × Writer α :=
  match fate.short with
  | some none => (false, w.drop.failLocked)
  | some (some written) =>
      if written < frame.length then
        (false, ({ w with
          file := w.file ++ frame.take written
          journalBytes := w.journalBytes + written } : Writer α).drop.failLocked)
      else sync w
  | none => sync w
where
  sync (w : Writer α) : Bool × Writer α :=
    let w := { w with
      file := w.file ++ frame
      sequence := w.sequence + 1
      journalBytes := w.journalBytes + frame.length }
    if (C.fsyncAlways || forceFsync) && fate.fsyncFails then (false, w.drop.failLocked)
    else (true, { w with reported := w.reported ++ [entry] })

/-- `_append_locked`, but for what a cap then calls for: `none` where the
entry met one. -/
def tryAppend (entry : JournalEntry α) (forceFsync bypassCaps : Bool) (fate : WriteFate)
    (w : Writer α) : Option (Bool × Writer α) :=
  if !w.descriptor || w.degraded then some (false, w.drop)
  else if !w.journalComplete && !bypassCaps then
    some (false, { w with droppedRecords := w.droppedRecords + 1 }.drop)
  else
    match C.codec.encode entry with
    | none => some (false, w.drop.failLocked)
    | some plaintext =>
        match encodeFrame (w.sequence + 1)
            (C.bodyOf w.journalId (w.sequence + 1) fate.nonce plaintext) C.maxFrameBytes with
        -- `struct.error` is not caught
        | .error .length => some (false, w.drop)
        | .error .sequence | .error .tooLarge => none
        | .ok frame =>
            if !bypassCaps && (C.maxJournalBytes < w.journalBytes + frame.length ||
                C.maxRecords ≤ w.sequence) then none
            else some (w.writeFrame C forceFsync fate entry frame)

/-- `_exhaust_locked`. The marker's own frame may be too large, which finds
the journal incomplete already. -/
def exhaustLocked (marker : WriteFate) (w : Writer α) : Writer α :=
  let w := { w with
    droppedRecords := w.droppedRecords + 1
    capDrops := w.capDrops ++ [w.reported.length] }.drop
  if !w.journalComplete then w
  else
    let w := { w with journalComplete := false }
    match w.tryAppend C (.exhausted REASON_JOURNAL_FULL) true true marker with
    | some (_, w) => w
    | none => { w with droppedRecords := w.droppedRecords + 1 }

/-- `_append_locked` -/
def appendLocked (entry : JournalEntry α) (forceFsync bypassCaps : Bool) (fate marker : WriteFate)
    (w : Writer α) : Bool × Writer α :=
  match w.tryAppend C entry forceFsync bypassCaps fate with
  | some result => result
  | none => (false, w.exhaustLocked C marker)

/-- `open_journal`, on a journal that could be created or not. -/
def openJournal (created : Bool) (header : JournalOpen α) (fate marker : WriteFate) : Writer α :=
  let w : Writer α :=
    { journalId := header.journalId
      descriptor := created
      file := []
      sequence := 0
      journalBytes := 0
      degraded := !created
      journalComplete := created
      droppedRecords := 0
      finalized := false
      reported := []
      drops := []
      capDrops := [] }
  if created then
    (w.appendLocked C
      (.opened { header with journalFormatVersion := JOURNAL_FORMAT_VERSION }) true false
      fate marker).2
  else w

/-- The appends a recorder makes. -/
inductive Append (α : Type) where
  | record (value : α)
  | limit (value : α)
  | operationOpen (value : α)

def Append.entry : Append α → JournalEntry α
  | .record value => .record value
  | .limit value => .limit value
  | .operationOpen value => .operationOpen value

inductive Op (α : Type) where
  | append (append : Append α) (fate marker : WriteFate)
  | finalize (rest : α) (fate marker : WriteFate)
  /-- The interval's `fsync` fails. -/
  | fsyncFailed

/-- `finalize` -/
def finalize (rest : α) (fate marker : WriteFate) (w : Writer α) : Writer α :=
  if !w.descriptor || w.finalized then w
  else
    let (ok, w) := w.appendLocked C (.finalize w.journalComplete rest) true true fate marker
    if ok then { w with finalized := true } else w

def step (w : Writer α) : Op α → Writer α
  | .append append fate marker => (w.appendLocked C append.entry false false fate marker).2
  | .finalize rest fate marker => w.finalize C rest fate marker
  | .fsyncFailed => w.failLocked

end Writer

/-! ## The reader -/

/-- What `read_bytes` keeps while it scans. -/
structure Reading (α : Type) where
  decoded : List (JournalEntry α)
  journalId : Option String
  finalized : Bool

structure JournalReplay (α : Type) where
  header : JournalOpen α
  entries : List (JournalEntry α)
  lastSequence : ℕ
  tornTailBytes : ℕ
  /-- `after_finalize` -/
  afterFinalize : Bool
  stopReason : Option ScanStop
  totalBytes : ℕ

/-- `finalize`: whether the journal was complete. -/
def JournalReplay.finalize (replay : JournalReplay α) : Option Bool :=
  match replay.entries.getLast? with
  | some (.finalize journalComplete _) => some journalComplete
  | _ => none

/-- `_decrypt` -/
def CheckpointConfig.decrypt (journalId : Option String) (sequence : ℕ) (body : Bytes) :
    Option Bytes :=
  match C.cipher with
  | none => some body
  | some cipher =>
      if body.length ≤ AT_REST_NONCE_BYTES then none
      else if 1 < sequence ∧ journalId.isNone then none
      else
        cipher.decrypt (body.take AT_REST_NONCE_BYTES) (body.drop AT_REST_NONCE_BYTES)
          (frameAad (journalId.getD "") sequence)

/-- `open_body` of `read_bytes` -/
def CheckpointConfig.openBody (reading : Reading α) (sequence : ℕ) (body : Bytes) :
    Option (Reading α × Bytes) :=
  if reading.finalized then none
  else
    (C.decrypt reading.journalId sequence body).bind fun plaintext =>
      (C.codec.decode plaintext).bind fun entry =>
        match entry, sequence with
        | .opened header, 1 =>
            if header.journalFormatVersion = JOURNAL_FORMAT_VERSION then
              some (⟨reading.decoded ++ [entry], some header.journalId, false⟩, plaintext)
            else none
        | _, 1 => none
        | .opened _, _ => none
        | entry, _ =>
            some (⟨reading.decoded ++ [entry], reading.journalId, entry.isFinalize⟩, plaintext)

/-- `read_bytes`: `none` for a journal with no readable header. -/
def CheckpointConfig.readBytes (maxFrameBytes : ℕ) (data : Bytes) : Option (JournalReplay α) :=
  let (scan, reading) := scanFramesWith maxFrameBytes C.openBody ⟨[], none, false⟩ 1 data
  match reading.decoded with
  | .opened header :: entries =>
      some
        { header := header
          entries := entries
          lastSequence := scan.lastSequence
          tornTailBytes := scan.tornTailBytes
          afterFinalize := reading.finalized && 0 < scan.tornTailBytes
          stopReason := scan.stopReason
          totalBytes := data.length }
  | _ => none

end Checkpoint

end Earshot
