import Earshot.Sidecars.Calls
import Earshot.Common.Crash
/-!
# The registry's ledgers

One call's share of a durable registry: the sidecar file, the size of the
journal, and the call while it is in memory. A drain is processed by a program
whose every file operation may fail or be the last before a crash. A sidecar
is written where an intent is persisted, where the append is committed, where
a pending intent is undone, where a drain the journal has no room for is
released, where a call expires or is sealed, and where a legacy ledger is
given its call's metadata.

What the live registry answers, what the journal's reader makes of the file,
and what the recorder does with a drain's facts are taken as they are found
(`Surroundings`), and nothing is assumed of them. What a drain is answered is
left out. A request that is refused before its call is looked up leaves
everything as it was.
-/

namespace Earshot.Sidecars

open Crash

/-! ## What is found -/

/-- What the journal's file gives its reader: with its entries, the largest
number of a fact. -/
inductive JournalRead where
  | tooLarge
  | missing
  | unreadable
  | corrupt
  | entries (maxFactSequence : ℕ)
  deriving DecidableEq

/-- The metadata a legacy journal holds, against the drain's. -/
inductive LegacyMetadata where
  | unrecoverable
  | differs
  | agrees
  deriving DecidableEq

structure Surroundings where
  /-- The live session is there when the call is looked up. -/
  contains : Bool
  journal : JournalRead
  legacy : LegacyMetadata
  /-- A live session is there, or can be rebuilt of the journal. -/
  rebuilt : Bool
  /-- The session's close was observed; `none` where there is no session. -/
  closeObserved : Option Bool
  /-- There is room for another call. -/
  room : Bool
  /-- A verb of the recorder raised. -/
  raised : Bool
  turnSequence : ℕ
  /-- Why the live registry takes none of the drain's entries, if it does not. -/
  refusal : Option CaptureError
  /-- How much the journal grows. -/
  payload : ℕ
  /-- The live session is there when a drain is released. -/
  preserved : Bool
  /-- The live session was abandoned for long enough. -/
  abandoned : Bool
  projectActive : Bool
  deriving DecidableEq

/-! ## The state -/

/-- A call's files: `temporary` is a sidecar that was not renamed. -/
structure LedgerFiles where
  sidecar : Option Document
  temporary : Bool
  journal : Option ℕ
  deriving DecidableEq

structure LedgerRegistry where
  files : LedgerFiles
  /-- `_calls` -/
  call : Option CaptureCall
  /-- The sidecars `write_sidecar` was given. Nothing reads it. -/
  written : List CaptureSidecar

/-- A program over a call's share of the registry. -/
abbrev LedgerProg (α : Type) := Prog LedgerRegistry CaptureError α

namespace LedgerRegistry

/-- A registry that holds nothing in memory, of the files it finds. -/
def opened (files : LedgerFiles) : LedgerRegistry where
  files := files
  call := none
  written := []

def setCall (call : CaptureCall) (w : LedgerRegistry) : LedgerRegistry :=
  { w with call := some call }

def setSidecar (document : Option Document) (w : LedgerRegistry) : LedgerRegistry :=
  { w with files := { w.files with sidecar := document } }

def setTemporary (temporary : Bool) (w : LedgerRegistry) : LedgerRegistry :=
  { w with files := { w.files with temporary := temporary } }

def setJournal (journal : Option ℕ) (w : LedgerRegistry) : LedgerRegistry :=
  { w with files := { w.files with journal := journal } }

def noteWritten (sidecar : CaptureSidecar) (w : LedgerRegistry) : LedgerRegistry :=
  { w with written := w.written ++ [sidecar] }

/-! ## File operations -/

/-- A file is opened, read or inspected. -/
def touch : LedgerProg Unit := Prog.effect (fun _ => id) id .os

/-- A change that is made or not, and then synced. -/
def change (f : LedgerRegistry → LedgerRegistry) : LedgerProg Unit :=
  Prog.effect (fun progress w => if progress = 0 then w else f w) f .os

/-- `write_sidecar`: the temporary file is opened, written and renamed over
the sidecar, and the directory synced; a failure unlinks the temporary
file. -/
def writeSidecar (sidecar : CaptureSidecar) : LedgerProg Unit := do
  Prog.modify (noteWritten sidecar)
  Prog.tryCatch
    (Prog.effect
      (fun progress w =>
        if progress = 0 then w
        else if progress = 1 then setTemporary true w
        else setTemporary false (setSidecar (some (dumps sidecar.toJson)) w))
      (fun w => setTemporary false (setSidecar (some (dumps sidecar.toJson)) w)) .os)
    fun error => do
      Prog.suppress (change (setTemporary false))
      Prog.throw error

/-- `read_sidecar`: a ledger that cannot be read is none. -/
def readSidecar (C : LedgerConfig) : LedgerProg (Option CaptureSidecar) :=
  Prog.tryCatch
    (do
      touch
      let w ← Prog.get
      return w.files.sidecar.bind fun document =>
        (CaptureSidecar.fromJson C.floatOf document).toOption)
    fun _ => return none

/-- An I/O error where the request is answered that the journal is
unavailable. -/
def orUnavailable {α : Type} (m : LedgerProg α) : LedgerProg α :=
  Prog.tryCatch m fun error => Prog.throw (if error = .os then .journalUnavailable else error)

/-- `recover_pending_sidecar` -/
def recoverPending (sidecar : CaptureSidecar) : LedgerProg CaptureSidecar :=
  match sidecar.pendingSequence with
  | none => return sidecar
  | some _ => do
      touch
      let w ← Prog.get
      let size := w.files.journal.getD 0
      let pending := sidecar.pendingJournalSize.getD 0
      if size < pending then
        Prog.throw .os
      if pending = 0 then
        if w.files.journal.isSome then
          change (setJournal none)
      else if pending < size then
        change (setJournal (some pending))
      writeSidecar sidecar.recovered
      return sidecar.recovered

/-- `discard_rejected_first_drain` -/
def discardRejectedFirstDrain (C : LedgerConfig) (sidecar : CaptureSidecar) : LedgerProg Unit := do
  if sidecar.applied ≠ 0 ∨ sidecar.pendingSequence.isSome ∨ sidecar.retrySequence.isNone ∨
      sidecar.finalized ∨ sidecar.sealed then
    Prog.throw .os
  touch
  let held ← readSidecar C
  if held ≠ some sidecar then
    Prog.throw .os
  touch
  let w ← Prog.get
  if w.files.journal.isSome then
    Prog.throw .os
  change (setSidecar none)

/-! ## Finding the call -/

variable (C : LedgerConfig) (around : Surroundings) (drain : CaptureDrain)

/-- A legacy ledger given its call's metadata, and written. -/
def migrate (sidecar : CaptureSidecar) : LedgerProg CaptureSidecar :=
  if sidecar.callMetadataBound then return sidecar
  else do
    orUnavailable (writeSidecar (sidecar.migrated C drain))
    return sidecar.migrated C drain

/-- What is rebuilt of a ledger that is not sealed; none of a ledger that
committed nothing and fences nothing. -/
def rebuildFromJournal (sidecar : CaptureSidecar) : LedgerProg (Option CaptureCall) := do
  let sidecar ← orUnavailable (recoverPending sidecar)
  if sidecar.applied = 0 ∧ sidecar.retrySequence.isSome then
    return some (.rebuildFenced C drain sidecar true)
  match around.journal with
  | .missing =>
      if 0 < sidecar.applied then
        Prog.throw .journalUnavailable
      if sidecar.retrySequence.isNone then
        return none
      else
        return some (.rebuildFenced C drain sidecar sidecar.callMetadataBound)
  | .tooLarge | .unreadable | .corrupt => Prog.throw .journalUnavailable
  | .entries maxFactSequence =>
      if !sidecar.callMetadataBound ∧ around.legacy = .unrecoverable then
        Prog.throw .journalUnavailable
      if !sidecar.callMetadataBound ∧ around.legacy = .differs then
        Prog.throw (.conflict .metadata drain.drainSequence)
      let sidecar ← migrate C drain sidecar
      if !around.rebuilt then
        Prog.throw .journalUnavailable
      match around.closeObserved with
      | none => Prog.throw .journalUnavailable
      | some finalized => return some (.rebuild C drain sidecar maxFactSequence finalized)

/-- `_rebuild_call` -/
def rebuildCall : LedgerProg (Option CaptureCall) := do
  orUnavailable touch
  let sidecar ← readSidecar C
  match sidecar with
  | none =>
      orUnavailable touch
      orUnavailable touch
      let w ← Prog.get
      if w.files.journal.isSome ∨ w.files.temporary ∨ w.files.sidecar.isSome then
        Prog.throw .journalUnavailable
      return none
  | some sidecar =>
      if sidecar.callKey ≠ C.callKey ∨ sidecar.projectId ≠ C.projectId ∨
          sidecar.correlationKeyId ≠ C.correlationKeyId then
        Prog.throw .journalUnavailable
      match sidecar.preflight C drain with
      | .error error => Prog.throw error
      | .ok () =>
          if sidecar.sealed then do
            let sidecar ← migrate C drain sidecar
            match CaptureCall.rebuildFinalizedLedger C drain sidecar with
            | .error error => Prog.throw error
            | .ok call => return some call
          else rebuildFromJournal C around drain sidecar

/-- The call a drain would be given without rebuilding one. -/
def kept (w : LedgerRegistry) : Option CaptureCall :=
  w.call.filter fun call => call.finalized || around.contains

/-- `_call_for` -/
def callFor : LedgerProg CaptureCall := do
  let w ← Prog.get
  match kept around w with
  | some call => return call
  | none =>
      Prog.modify fun w => { w with call := none }
      let rebuilt ← rebuildCall C around drain
      match rebuilt with
      | some call =>
          Prog.modify (setCall call)
          return call
      | none =>
          if !around.room then
            Prog.throw .callCapacity
          Prog.modify (setCall (.fresh C drain true))
          return .fresh C drain true

/-! ## Processing a drain -/

/-- `accept_records`: the frames are appended and synced, and the ledger is
committed; an append that failed is cut back. -/
def acceptRecords (settled : CaptureCall) : LedgerProg Unit :=
  match around.refusal with
  | some error => Prog.throw error
  | none => do
      let w ← Prog.get
      let prior := w.files.journal
      Prog.tryCatch
        (Prog.effect
          (fun progress => setJournal (some (prior.getD 0 + min progress around.payload)))
          (setJournal (some (prior.getD 0 + around.payload))) .os)
        fun error => do
          Prog.suppress (change (setJournal prior))
          Prog.throw error
      writeSidecar settled.ledger
      Prog.modify (setCall { settled with intentPending := false })

/-- The intent is persisted before anything else of the drain. -/
def persistIntent (call : CaptureCall) : LedgerProg Unit := do
  touch
  let w ← Prog.get
  orUnavailable (writeSidecar (call.intent C drain (w.files.journal.getD 0)))
  Prog.modify (setCall { call with intentPending := true })

/-- A drain that is next: recorded and taken. -/
def applyDrain (call : CaptureCall) (decision : Decision) : LedgerProg Unit := do
  persistIntent C drain call
  let before : CaptureCall := { call with intentPending := true }
  let recorded : CaptureCall :=
    { before.observed drain decision with turnSequence := around.turnSequence }
  Prog.modify (setCall recorded)
  if around.raised then
    Prog.throw .value
  let settled := recorded.settled drain (call.digest C drain) (call.digestVersionFor drain)
  Prog.modify (setCall settled)
  Prog.tryCatch (acceptRecords around settled) fun error =>
    if error = .os then do
      Prog.modify (setCall (settled.restored before))
      Prog.throw .journalUnavailable
    else Prog.throw error

/-- `_process_drain` -/
def processDrain (call : CaptureCall) : LedgerProg Unit :=
  match call.classify C drain with
  | .error error => Prog.throw error
  | .ok .replay => return ()
  | .ok decision =>
      if call.finalized then Prog.throw .closed
      else applyDrain C around drain call decision

/-! ## Releasing a drain that failed -/

/-- The sidecar is the drain's own commit. -/
def committedBefore (call : CaptureCall) (sidecar : CaptureSidecar) : Bool :=
  sidecar.pendingSequence.isNone && sidecar.applied = drain.drainSequence &&
    sidecar.digests.get drain.drainSequence = some (call.digest C drain)

/-- The pending append undone. A drain the journal has no room for keeps no
fence, nor a first one its ledger. -/
def releasePending (error : CaptureError) (sidecar : Option CaptureSidecar) : LedgerProg Unit :=
  match sidecar.filter (·.pendingSequence.isSome) with
  | none => return ()
  | some sidecar => do
      let recovered ← recoverPending sidecar
      if error = .journalLimit then
        if recovered.applied = 0 then
          discardRejectedFirstDrain C recovered
        else
          writeSidecar { recovered with
            retrySequence := none
            retryDigest := none
            retryDigestVersion := none }

def letGo (w : LedgerRegistry) : LedgerRegistry := { w with call := none }

/-- `_drain_serialized`'s recovery: the call is let go, unless the drain began
nothing. -/
def recoverFailed (error : CaptureError) : LedgerProg Unit := do
  let sidecar ← readSidecar C
  let w ← Prog.get
  match w.call with
  | none => Prog.throw error
  | some call =>
      if call.intentPending ∨ sidecar.any (·.pendingSequence.isSome) ∨
          sidecar.any (committedBefore C drain call) then
        Prog.withCleanup
          (Prog.tryCatch (releasePending C error sidecar) fun _ =>
            Prog.throw (if error = .journalLimit then .journalUnavailable else .os))
          letGo
        Prog.throw error
      else Prog.throw error

/-- `_drain_serialized` -/
def drainSerialized : LedgerProg Unit := do
  let call ← callFor C around drain
  Prog.tryCatch (processDrain C around drain call) (recoverFailed C drain)

/-! ## Other requests -/

/-- `rebuild_from_disk`, of one call's files. -/
def rebuildFromDisk : LedgerProg Unit := do
  let sidecar ← readSidecar C
  match sidecar with
  | none => return ()
  | some sidecar =>
      if sidecar.correlationKeyId ≠ C.correlationKeyId then return ()
      else if sidecar.sealed then Prog.suppress (change (setJournal none))
      else if !around.projectActive then return ()
      else do
        let recovered ← Prog.tryCatch (do
          let recovered ← recoverPending sidecar
          return some recovered) fun _ => return none
        match recovered with
        | none => return ()
        | some sidecar =>
            if (around.journal = .missing ∨ around.journal = .unreadable) ∧ sidecar.applied = 0 ∧
                sidecar.retrySequence.isNone then
              Prog.suppress (change (setSidecar none))

/-- `expire_session` -/
def expireSession : LedgerProg Unit := do
  if around.abandoned then
    touch
    let sidecar ← readSidecar C
    match sidecar with
    | none => Prog.throw .os
    | some sidecar =>
        if sidecar.projectId ≠ C.projectId ∨ sidecar.callKey ≠ C.callKey ∨
            sidecar.correlationKeyId ≠ C.correlationKeyId ∨ sidecar.finalized ∨
            sidecar.sealed then
          Prog.throw .os
        let sidecar ← recoverPending sidecar
        if !sidecar.expired then
          writeSidecar { sidecar with expired := true }

/-- `mark_sealed`: the ledger says so before the journal goes. -/
def markSealed : LedgerProg Unit := do
  orUnavailable touch
  let sidecar ← readSidecar C
  match sidecar with
  | none => Prog.throw .journalUnavailable
  | some sidecar =>
      if sidecar.callKey ≠ C.callKey ∨ sidecar.projectId ≠ C.projectId ∨ !sidecar.finalized ∨
          sidecar.pendingSequence.isSome ∨ sidecar.retrySequence.isSome then
        Prog.throw .journalUnavailable
      if !sidecar.sealed then
        orUnavailable (writeSidecar { sidecar with sealed := true, expired := false })
      orUnavailable (change (setJournal none))
      Prog.modify letGo

/-- The ledger and the journal are unlinked: the project is deleted, or a
sealed ledger is no longer retained. -/
def erase : LedgerProg Unit := do
  Prog.modify letGo
  Prog.suppress (change (setJournal none))
  Prog.suppress (change (setSidecar none))
  Prog.suppress (change (setTemporary false))

/-! ## Runs -/

/-- What reaches the registry, with what it finds and the fates its file
operations meet. -/
inductive LedgerOp where
  | drain (drain : CaptureDrain) (around : Surroundings) (fates : List Fate)
  | restart (around : Surroundings) (fates : List Fate)
  | rescan (around : Surroundings) (fates : List Fate)
  | expire (around : Surroundings) (fates : List Fate)
  | seal (fates : List Fate)
  | erase (fates : List Fate)

/-- The state an operation leaves: memory is lost with the process. -/
def settle {α : Type} (ended : Ended LedgerRegistry CaptureError α) : LedgerRegistry :=
  match ended.exit with
  | .ok _ | .error _ => ended.state
  | .crash => letGo ended.state

def step (w : LedgerRegistry) : LedgerOp → LedgerRegistry
  | .drain drain around fates => settle (drainSerialized C around drain fates w)
  | .restart around fates => settle (rebuildFromDisk C around fates (letGo w))
  | .rescan around fates => settle (rebuildFromDisk C around fates w)
  | .expire around fates => settle (expireSession C around fates w)
  | .seal fates => settle (markSealed C fates w)
  | .erase fates => settle (erase fates w)

def run (w : LedgerRegistry) (ops : List LedgerOp) : LedgerRegistry := ops.foldl (step C) w

end LedgerRegistry

end Earshot.Sidecars
