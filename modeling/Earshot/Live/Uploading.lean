import Earshot.Live.Registry
import Earshot.Checkpoint.Scans
/-!
# Uploading a journal

An uploader tails one journal file and posts its new frames to a backend in
batches of whole frames. Where it is in the file is kept in a marker beside
it, so that a restarted uploader goes on from there; a backend that has
forgotten the session is sent the file again from its first byte.
-/

namespace Earshot

namespace Live

open Checkpoint

variable {α κ π : Type} [DecidableEq κ] (R : Governance α κ π) (config : LiveConfig)

def MAX_CHECKPOINT_BATCH_BYTES : ℕ := 1024 * 1024

def MAX_CHECKPOINT_FRAME_BYTES : ℕ := MAX_CHECKPOINT_BATCH_BYTES

/-! ## A batch -/

/-- `_BatchPlan`: where the next batch ends, or the sequence and the size of
the frame that makes there be none. -/
structure BatchPlan where
  stop : ℕ
  undeliverable : Option (ℕ × ℕ)
  deriving DecidableEq

/-- The loop of `_plan_batch`, over what is left: the bytes that are taken.
Every turn takes a frame, so the length of the data is fuel enough. -/
def planFrames (budget : ℕ) : ℕ → ℕ → Bytes → ℕ × Option (ℕ × ℕ)
  | 0, taken, _ => (taken, none)
  | fuel + 1, taken, rest =>
      if rest.length < HEADER_SIZE then (taken, none)
      else if rest.headD 0 ≠ SEPARATOR then (taken, none)
      else
        let size := HEADER_SIZE + fromBigEndian ((rest.drop 5).take 4) + CHECKSUM_SIZE
        if MAX_CHECKPOINT_FRAME_BYTES < size then
          if 0 < taken then (taken, none)
          else (taken, some (fromBigEndian ((rest.drop 1).take 4), size))
        else if rest.length < size then (taken, none)
        else if budget < taken + size ∧ 0 < taken then (taken, none)
        else planFrames budget fuel (taken + size) (rest.drop size)

/-- `_plan_batch` -/
def planBatch (data : Bytes) (offset budget : ℕ) : BatchPlan :=
  let planned := planFrames budget data.length 0 (data.drop offset)
  ⟨offset + planned.1, planned.2⟩

/-! ## The marker -/

/-- The marker names a byte that begins a frame, or the end of the file. -/
def markerTrusted (data : Bytes) (offset : ℕ) : Bool :=
  decide (0 < offset) && decide (offset ≤ data.length) &&
    (decide (offset = data.length) || decide ((data.drop offset).headD 0 = SEPARATOR))

/-- `_load_offset`, of a marker that was read: `none` where it is missing, or
no number. -/
def loadOffset (data : Bytes) : Option Int → ℕ
  | none => 0
  | some offset => if markerTrusted data offset.toNat then offset.toNat else 0

/-! ## The uploader, and its backend -/

inductive UploaderState where
  | ready
  | degraded
  | undeliverable (sequence size : ℕ)
  deriving DecidableEq

/-- One journal, numbered from its header, and where it is sent. -/
structure UploadTask where
  frames : List Frame
  maxBodyBytes : ℕ
  numbered : Numbered maxBodyBytes 1 frames
  projectId : String
  sessionId : String
  budget : ℕ

/-- What becomes of a request. -/
inductive Fate where
  | lost
  | unacknowledged
  | answered
  deriving DecidableEq

structure Uploading (κ π : Type) where
  /-- How much of the file is written. -/
  written : ℕ
  offset : ℕ
  state : UploaderState
  registry : Registry κ π
  /-- The batches that were posted. Nothing reads it. -/
  sent : List Bytes

inductive UploadOp where
  /-- The journal grows, by whole frames or by parts of them. -/
  | grow (bytes : ℕ)
  /-- The file can be read or not, and what becomes of up to two requests. -/
  | flush (readable : Bool) (now : ℕ) (first second : Fate)
  /-- A new uploader finds this marker. -/
  | restart (marker : Option Int)
  /-- The backend restarts. -/
  | forget

namespace Uploading

variable (task : UploadTask) (sys : Uploading κ π)

/-- The file. -/
def data (task : UploadTask) (written : ℕ) : Bytes := (encoded task.frames).take written

def uploadOf (task : UploadTask) (now : ℕ) (batch : Bytes) : Upload :=
  ⟨task.projectId, task.sessionId, batch, now⟩

/-- `_post`: none where no answer comes. -/
def post (now : ℕ) (batch : Bytes) :
    Fate → Uploading κ π × Option (Except AcceptError (List LiveEvent))
  | .lost => ({ sys with sent := sys.sent ++ [batch] }, none)
  | .unacknowledged =>
      ({ sys with
        registry := (acceptFrames R config sys.registry (uploadOf task now batch)).2
        sent := sys.sent ++ [batch] }, none)
  | .answered =>
      ({ sys with
        registry := (acceptFrames R config sys.registry (uploadOf task now batch)).2
        sent := sys.sent ++ [batch] },
        some (acceptFrames R config sys.registry (uploadOf task now batch)).1)

/-- `_fail` -/
def fail : Uploading κ π := { sys with state := .degraded }

/-- `_backend_lost_session` -/
def lostSession : AcceptError → Bool
  | .sequence 1 => true
  | _ => false

/-- The journal from its first byte, for a backend that has lost it. -/
def replay (now : ℕ) (fate : Fate) : Uploading κ π :=
  let data := data task sys.written
  let planned := planBatch data 0 task.budget
  if planned.stop = 0 then sys.fail
  else
    match sys.post R config task now (data.take planned.stop) fate with
    | (sys, some (.ok _)) => { sys with offset := planned.stop }
    | (sys, _) => sys.fail

/-- `flush` -/
def flush (readable : Bool) (now : ℕ) (first second : Fate) : Uploading κ π :=
  if sys.state ≠ .ready then sys
  else if !readable then sys.fail
  else
    let data := data task sys.written
    let planned := planBatch data sys.offset task.budget
    if planned.stop ≤ sys.offset then
      match planned.undeliverable with
      | some (sequence, size) => { sys with state := .undeliverable sequence size }
      | none => sys
    else
      match sys.post R config task now
          ((data.drop sys.offset).take (planned.stop - sys.offset)) first with
      | (sys', some (.ok _)) => { sys' with offset := planned.stop }
      | (sys', some (.error e)) =>
          if sys.offset = 0 ∨ lostSession e = false then sys'.fail
          else sys'.replay R config task now second
      | (sys', none) => sys'.fail

def step : UploadOp → Uploading κ π
  | .grow bytes => { sys with written := sys.written + bytes }
  | .flush readable now first second => sys.flush R config task readable now first second
  | .restart marker =>
      { sys with
        offset := loadOffset (data task sys.written) marker
        state := .ready }
  | .forget => { sys with registry := Registry.empty }

def run (ops : List UploadOp) : Uploading κ π := ops.foldl (step R config task) sys

/-- A new journal, and a backend that holds nothing. -/
def init : Uploading κ π := ⟨0, 0, .ready, Registry.empty, []⟩

end Uploading

end Live

end Earshot
