import Mathlib.Data.List.Basic
import Mathlib.Data.Nat.Notation
/-!
# Journal frames

A journal is frames one after the other: a separator, the frame's number,
its length, its body, and the checksum of the body. `scanFrames` takes the
frames a byte string begins with, and stops at the first that is short,
damaged, or out of order. It loses no frame that is whole, and admits none
that is not one: what it took, encoded again, is what it consumed.
-/

namespace Earshot

abbrev Bytes := List UInt8

/-! ## Big-endian words, and the checksum -/

/-- `struct.pack(">I", n)` -/
def packU32 (n : ℕ) : Bytes :=
  [.ofNat (n / 16777216), .ofNat (n / 65536), .ofNat (n / 256), .ofNat n]

/-- `int.from_bytes(bytes, "big")` -/
def fromBigEndian (bytes : Bytes) : ℕ := bytes.foldl (fun n byte => n * 256 + byte.toNat) 0

/-- One byte of CRC-32, a bit at a time. -/
def crc32Byte (crc : UInt32) (byte : UInt8) : UInt32 :=
  Nat.repeat (fun crc => if crc &&& 1 = 1 then (crc >>> 1) ^^^ 0xEDB88320 else crc >>> 1) 8
    (crc ^^^ byte.toUInt32)

/-- `zlib.crc32` -/
def crc32 (body : Bytes) : ℕ := ((body.foldl crc32Byte 0xFFFFFFFF) ^^^ 0xFFFFFFFF).toNat

example : crc32 [0x31, 0x32, 0x33, 0x34, 0x35, 0x36, 0x37, 0x38, 0x39] = 0xCBF43926 := by
  decide +kernel

@[simp] theorem length_packU32 (n : ℕ) : (packU32 n).length = 4 := rfl

theorem fromBigEndian_packU32 {n : ℕ} (h : n < 4294967296) : fromBigEndian (packU32 n) = n := by
  simp only [fromBigEndian, packU32, List.foldl_cons, List.foldl_nil, UInt8.toNat_ofNat']
  omega

theorem fromBigEndian_lt {bytes : Bytes} (h : bytes.length = 4) :
    fromBigEndian bytes < 4294967296 := by
  obtain ⟨a, b, c, d, rfl⟩ := List.length_eq_four.mp h
  have ha := a.toNat_lt
  have hb := b.toNat_lt
  have hc := c.toNat_lt
  have hd := d.toNat_lt
  simp only [fromBigEndian, List.foldl_cons, List.foldl_nil]
  omega

theorem packU32_fromBigEndian {bytes : Bytes} (h : bytes.length = 4) :
    packU32 (fromBigEndian bytes) = bytes := by
  obtain ⟨a, b, c, d, rfl⟩ := List.length_eq_four.mp h
  have ha := a.toNat_lt
  have hb := b.toNat_lt
  have hc := c.toNat_lt
  have hd := d.toNat_lt
  simp only [packU32, fromBigEndian, List.foldl_cons, List.foldl_nil]
  congr 1
  · rw [← UInt8.toNat_inj, UInt8.toNat_ofNat']
    omega
  · congr 1
    · rw [← UInt8.toNat_inj, UInt8.toNat_ofNat']
      omega
    · congr 1
      · rw [← UInt8.toNat_inj, UInt8.toNat_ofNat']
        omega
      · congr 1
        rw [← UInt8.toNat_inj, UInt8.toNat_ofNat']
        omega

theorem crc32_lt (body : Bytes) : crc32 body < 4294967296 := UInt32.toNat_lt _

/-! ## Frames -/

def SEPARATOR : UInt8 := 0x1E
def HEADER_SIZE : ℕ := 9
def CHECKSUM_SIZE : ℕ := 4
def MAX_SEQUENCE : ℕ := 0xFFFFFFFF

structure Frame where
  sequence : ℕ
  body : Bytes
  deriving DecidableEq

/-- A frame's bytes. -/
def Frame.bytes (frame : Frame) : Bytes :=
  SEPARATOR :: packU32 frame.sequence ++ packU32 frame.body.length ++ frame.body ++
    packU32 (crc32 frame.body)

/-- Why a frame is not encoded. -/
inductive EncodeError where
  | sequence
  | tooLarge
  /-- `struct.error`: the length is no 32-bit word. -/
  | length
  deriving DecidableEq

/-- `encode_frame` -/
def encodeFrame (sequence : ℕ) (body : Bytes) (maxBodyBytes : ℕ) : Except EncodeError Bytes :=
  if ¬ (1 ≤ sequence ∧ sequence ≤ MAX_SEQUENCE) then .error .sequence
  else if maxBodyBytes < body.length then .error .tooLarge
  else if MAX_SEQUENCE < body.length then .error .length
  else .ok (Frame.bytes ⟨sequence, body⟩)

/-- Bodies encoded one after the other, numbered from `sequence`. -/
def encodeFrames (maxBodyBytes : ℕ) : ℕ → List Bytes → Except EncodeError Bytes
  | _, [] => .ok []
  | sequence, body :: bodies => do
      let frame ← encodeFrame sequence body maxBodyBytes
      let frames ← encodeFrames maxBodyBytes (sequence + 1) bodies
      return frame ++ frames

/-- Why the scan stopped. -/
inductive ScanStop where
  | truncatedHeader
  | truncatedBody
  | badSeparator
  | badChecksum
  | sequenceGap
  | frameTooLarge
  | unreadableBody
  deriving DecidableEq

/-- The maximal intact prefix, and what stopped the scan. -/
structure FrameScan where
  frames : List Frame
  consumedBytes : ℕ
  tornTailBytes : ℕ
  stopReason : Option ScanStop
  deriving DecidableEq

def FrameScan.lastSequence (scan : FrameScan) : ℕ := (scan.frames.getLast?.map (·.sequence)).getD 0

/-- One turn of the scan: the frame `data` begins with, and what follows. -/
def splitFrame (maxBodyBytes expectedSequence : ℕ) (data : Bytes) :
    Except ScanStop (Frame × Bytes) :=
  if data.length < HEADER_SIZE then .error .truncatedHeader
  else
    let sequence := fromBigEndian ((data.drop 1).take 4)
    let length := fromBigEndian ((data.drop 5).take 4)
    if data.headD 0 ≠ SEPARATOR then .error .badSeparator
    else if maxBodyBytes < length then .error .frameTooLarge
    else if data.length < HEADER_SIZE + length + CHECKSUM_SIZE then .error .truncatedBody
    else
      let body := (data.drop HEADER_SIZE).take length
      let checksum := fromBigEndian ((data.drop (HEADER_SIZE + length)).take CHECKSUM_SIZE)
      if checksum ≠ crc32 body then .error .badChecksum
      else if sequence ≠ expectedSequence then .error .sequenceGap
      else .ok (⟨sequence, body⟩, data.drop (HEADER_SIZE + length + CHECKSUM_SIZE))

/-- A scan under way: what it took, and what is left. -/
structure Scanning (σ : Type) where
  frames : List Frame
  rest : Bytes
  stopReason : Option ScanStop
  state : σ

/-- The scan's loop. `openBody` gives the body to be taken, and may keep a
state; every turn consumes a frame, so the length of the data is fuel
enough. -/
def scanLoop {σ : Type} (maxBodyBytes : ℕ) (openBody : σ → ℕ → Bytes → Option (σ × Bytes)) :
    ℕ → σ → ℕ → Bytes → Scanning σ
  | _, state, _, [] => ⟨[], [], none, state⟩
  | 0, state, _, data => ⟨[], data, none, state⟩
  | fuel + 1, state, expectedSequence, data =>
      match splitFrame maxBodyBytes expectedSequence data with
      | .error stop => ⟨[], data, some stop, state⟩
      | .ok (frame, rest) =>
          match openBody state frame.sequence frame.body with
          | none => ⟨[], data, some .unreadableBody, state⟩
          | some (state, body) =>
              let scanning := scanLoop maxBodyBytes openBody fuel state (expectedSequence + 1) rest
              { scanning with frames := ⟨frame.sequence, body⟩ :: scanning.frames }

/-- `scan_frames`, with the state of its `open_body`. -/
def scanFramesWith {σ : Type} (maxBodyBytes : ℕ) (openBody : σ → ℕ → Bytes → Option (σ × Bytes))
    (state : σ) (firstSequence : ℕ) (data : Bytes) : FrameScan × σ :=
  let scanning := scanLoop maxBodyBytes openBody data.length state firstSequence data
  (⟨scanning.frames, data.length - scanning.rest.length, scanning.rest.length,
    scanning.stopReason⟩, scanning.state)

/-- `scan_frames` without an `open_body`. -/
def scanFrames (maxBodyBytes firstSequence : ℕ) (data : Bytes) : FrameScan :=
  (scanFramesWith maxBodyBytes (fun (_ : Unit) _ body => some ((), body)) () firstSequence data).1

end Earshot
