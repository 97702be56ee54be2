import Earshot.Checkpoint.Framing
import Earshot.Common.Run
import Earshot.Common.Table
import Earshot.Common.Volume
/-!
# The blobs of a server's disk

`LocalBlobStore` as its writers, readers and sweeps share it. Each file
operation of `write`, `commit`, `abort`, `delete` and `sweep` is a step of its
own, so that any number of them interleave, any of them fails, the process
ends between any two, and so does the power. A writer's spool file is named
by the writer: `mkstemp` takes a name no file has.
-/

namespace Earshot.Blobs

open Relational

/-- The `/`-separated components of a key, innermost first. -/
abbrev Path := List String

/-- A file, by the writer that made it; `synced` once `fsync` returned. -/
structure File where
  inode : ℕ
  bytes : Bytes
  synced : Bool
  deriving DecidableEq

/-- How far a writer has come: each constructor names the file operation it
makes next. -/
inductive Phase where
  /-- Open: `write`, `commit` or `abort`. -/
  | writing
  /-- `flush` and `fsync` of the spool file. -/
  | flushing
  /-- `mkdir` of the missing directories, outermost first. -/
  | makingParents (missing : List Path)
  /-- `_fsync_directory` of what holds the directory just made. -/
  | syncingParent (created : Path) (missing : List Path)
  | replacing
  /-- `_fsync_directory` of the destination's directory. -/
  | syncingDestination
  /-- `_fsync_directory` of the spool. -/
  | syncingSpool
  /-- `_release_spool_file` -/
  | releasing
  | committed
  /-- `unlink` of the spool file. -/
  | discarding
  | syncingDiscard
  | releasingDiscard
  | aborted
  /-- The process ended under it. -/
  | gone
  deriving DecidableEq

/-- `_LocalWriter`: `streamed` is what `_hash` has been fed, and `asked` the
`expected_sha256` of a `commit` that found it. -/
structure Writer where
  id : ℕ
  key : Path
  streamed : Bytes
  size : ℕ
  asked : Option (Option Bytes)
  phase : Phase

/-- The store: its files and directories, the spool and its `_live_spool_files`,
and the deletes and sweeps under way. -/
structure LocalStore where
  writers : Table Writer.id
  spool : Table File.inode
  live : List ℕ
  volume : Volume String File
  deleting : List Path
  sweeping : List ℕ
  swept : ℕ

namespace LocalStore

def empty : LocalStore := ⟨.empty, .empty, [], .empty, [], [], 0⟩

/-- The writer comes to its next file operation. -/
def turn (s : LocalStore) (w : Writer) (phase : Phase) : LocalStore :=
  { s with writers := s.writers.put { w with phase := phase } }

/-- `_make_parents`: the directories to create, outermost first. -/
def missing (s : LocalStore) : Path → List Path
  | [] => []
  | n :: d => if s.volume.isDir (n :: d) then [] else s.missing d ++ [n :: d]

/-- The next file operation of the writer is done. -/
def advance (s : LocalStore) (w : Writer) : Option LocalStore :=
  match w.phase with
  | .flushing =>
    some ({ s with spool := s.spool.put ⟨w.id, w.streamed, true⟩ }.turn w
      (.makingParents (s.missing w.key.tail)))
  | .makingParents [] => some (s.turn w .replacing)
  | .makingParents (d :: missing) =>
    -- `FileExistsError` is let pass, and then nothing is synced
    if s.volume.isDir d then some (s.turn w (.makingParents missing))
    else if s.volume.isDir d.tail then
      some ({ s with volume := s.volume.mkdir d }.turn w (.syncingParent d missing))
    else none
  | .syncingParent d missing =>
    some ({ s with volume := s.volume.sync d.tail }.turn w (.makingParents missing))
  | .replacing =>
    (s.spool.find? w.id).map fun file =>
      { s with
        spool := s.spool.delete fun f => decide (f.inode = w.id)
        volume := s.volume.write w.key (some file) }.turn w .syncingDestination
  | .syncingDestination =>
    some ({ s with volume := s.volume.sync w.key.tail }.turn w .syncingSpool)
  | .syncingSpool => some (s.turn w .releasing)
  | .releasing => some ({ s with live := s.live.filter (· ≠ w.id) }.turn w .committed)
  | .discarding =>
    some ({ s with spool := s.spool.delete fun f => decide (f.inode = w.id) }.turn w
      .syncingDiscard)
  | .syncingDiscard => some (s.turn w .releasingDiscard)
  | .releasingDiscard => some ({ s with live := s.live.filter (· ≠ w.id) }.turn w .aborted)
  | .writing | .committed | .aborted | .gone => none

/-- It fails. A failed write or commit aborts the writer, and a failed discard
still releases its spool file. -/
def fail (s : LocalStore) (w : Writer) : Option LocalStore :=
  match w.phase with
  | .writing | .flushing | .makingParents _ | .syncingParent _ _ | .replacing
  | .syncingDestination | .syncingSpool => some (s.turn w .discarding)
  | .discarding | .syncingDiscard => some (s.turn w .releasingDiscard)
  | .releasing | .committed | .releasingDiscard | .aborted | .gone => none

/-- A writer whose process ends: one that has returned is left as it is. -/
def ended (w : Writer) : Writer :=
  match w.phase with
  | .committed | .aborted => w
  | _ => { w with phase := .gone }

theorem ended_id (w : Writer) : (ended w).id = w.id := by
  unfold ended
  split <;> rfl

end LocalStore

inductive LocalOp where
  /-- `begin_put`: `mkstemp` and `_live_spool_files.add`, under the lock. -/
  | beginPut (id : ℕ) (key : Path)
  | write (id : ℕ) (chunk : Bytes)
  | commit (id : ℕ) (expected : Option Bytes)
  | abort (id : ℕ)
  | advance (id : ℕ)
  | fail (id : ℕ)
  /-- `delete`: `unlink`, then its directory is synced. -/
  | unlink (key : Path)
  | syncDelete (key : Path)
  /-- `sweep`: the spool is listed, then each name looked at under the lock. -/
  | sweep
  | sweepNext
  /-- The process ends; what the system was handed is kept. -/
  | kill
  /-- The power fails: the spool may hold anything under the names it had. -/
  | powerLoss (pick : Path → ℕ) (kept : Path → Bool) (torn : File → Bytes)
      (left : List (ℕ × Bytes))

namespace LocalStore

/-- What a power loss leaves of a file: one that was synced is whole. -/
def faded (torn : File → Bytes) (f : File) : File :=
  if f.synced then f else { f with bytes := torn f }

/-- One file operation, or `none` where it is refused. -/
def step (sha256 : Bytes → Bytes) (s : LocalStore) : LocalOp → Option LocalStore
  | .beginPut id key =>
    if s.writers.find? id = none ∧ s.spool.find? id = none then
      some { s with
        writers := s.writers.put ⟨id, key, [], 0, none, .writing⟩
        spool := s.spool.put ⟨id, [], false⟩
        live := id :: s.live }
    else none
  | .write id chunk =>
    (s.writers.find? id).bind fun w =>
      if w.phase = .writing then
        some { s with
          writers := s.writers.put { w with
            streamed := w.streamed ++ chunk, size := w.size + chunk.length }
          spool := s.spool.put ⟨id, w.streamed ++ chunk, false⟩ }
      else none
  | .commit id expected =>
    (s.writers.find? id).bind fun w =>
      if w.phase = .writing then
        -- `hmac.compare_digest`: the streamed digest against the expected one
        if expected.all (· = sha256 w.streamed) then
          some (s.turn { w with asked := some expected } .flushing)
        else some (s.turn w .discarding)
      else none
  | .abort id =>
    (s.writers.find? id).bind fun w =>
      if w.phase = .writing then some (s.turn w .discarding) else none
  | .advance id => (s.writers.find? id).bind s.advance
  | .fail id => (s.writers.find? id).bind s.fail
  | .unlink key =>
    (s.volume.entry key).map fun _ =>
      { s with volume := s.volume.write key none, deleting := key :: s.deleting }
  | .syncDelete key =>
    if key ∈ s.deleting then
      some { s with
        volume := s.volume.sync key.tail, deleting := s.deleting.erase key }
    else none
  | .sweep => some { s with sweeping := s.sweeping ++ s.spool.rows.map File.inode }
  | .sweepNext =>
    match s.sweeping with
    | [] => none
    | id :: rest =>
      if id ∈ s.live then some { s with sweeping := rest }
      else some { s with
        spool := s.spool.delete fun f => decide (f.inode = id)
        sweeping := rest
        swept := s.swept + 1 }
  | .kill => some { s with
      writers := s.writers.patch ended ended_id
      live := []
      deleting := []
      sweeping := [] }
  | .powerLoss pick kept torn left => some { s with
      writers := s.writers.patch ended ended_id
      spool := (Table.empty : Table File.inode).insertAll
        ((left.filter fun name => (s.writers.find? name.1).isSome).map fun name =>
          ⟨name.1, name.2, false⟩)
      live := []
      volume := s.volume.powerLoss pick kept (faded torn)
      deleting := []
      sweeping := [] }

abbrev run (sha256 : Bytes → Bytes) : LocalStore → List LocalOp → LocalStore :=
  Transition.run (step sha256)

/-- A step of a writer is one of the writer that is found. -/
theorem writer_of_bind {s s' : LocalStore} {id : ℕ} {f : Writer → Option LocalStore}
    (h : (s.writers.find? id).bind f = some s') :
    ∃ w, w.id = id ∧ s.writers.find? w.id = some w ∧ f w = some s' := by
  obtain ⟨w, hw, hf⟩ := Option.bind_eq_some_iff.mp h
  obtain rfl := Table.key_of_find? hw
  exact ⟨w, rfl, hw, hf⟩

end LocalStore

end Earshot.Blobs
