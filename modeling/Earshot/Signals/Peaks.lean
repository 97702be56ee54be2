import Mathlib.Data.List.FinRange
import Mathlib.Data.Int.Basic
import Mathlib.Algebra.BigOperators.Group.List.Basic
import Mathlib.Tactic.Ring
import Earshot.Common.Run
/-!
# Peaks files

An audiowaveform `.dat` file built block by block. Each pixel holds every
channel's minimum and maximum over 256 samples, and what does not fill a
pixel waits for the next block. The file written is the whole track's, and
its header is read back.
-/

namespace Earshot.Signals

/-! ## The header -/

def VERSION : ℤ := 2
def FLAG_8_BIT : ℕ := 1
def SAMPLES_PER_PIXEL : ℕ := 256
/-- `HEADER.size` -/
def HEADER_SIZE : ℕ := 24

structure PeaksHeader where
  sampleRate : ℤ
  samplesPerPixel : ℤ
  length : ℕ
  channels : ℤ
  deriving DecidableEq

/-- Four bytes, little-endian. -/
def bytesOf (n : ℕ) : List UInt8 :=
  [UInt8.ofNat n, UInt8.ofNat (n / 256), UInt8.ofNat (n / 65536), UInt8.ofNat (n / 16777216)]

/-- `struct`'s `i`: it refuses what does not fit. -/
def packInt (v : ℤ) : Option (List UInt8) :=
  if -2147483648 ≤ v ∧ v < 2147483648 then some (bytesOf (v % 4294967296).toNat) else none

/-- `struct`'s `I` -/
def packUInt (v : ℕ) : Option (List UInt8) := if v < 4294967296 then some (bytesOf v) else none

/-- `PeaksHeader.pack`: `<iIiiIi` -/
def PeaksHeader.pack (h : PeaksHeader) : Option (List UInt8) := do
  let version ← packInt VERSION
  let flags ← packUInt FLAG_8_BIT
  let rate ← packInt h.sampleRate
  let perPixel ← packInt h.samplesPerPixel
  let length ← packUInt h.length
  let channels ← packInt h.channels
  return version ++ flags ++ rate ++ perPixel ++ length ++ channels

/-- The number at `offset`. -/
def unpackUInt (data : List UInt8) (offset : ℕ) : ℕ :=
  (data[offset]?.getD 0).toNat + 256 * (data[offset + 1]?.getD 0).toNat +
    65536 * (data[offset + 2]?.getD 0).toNat + 16777216 * (data[offset + 3]?.getD 0).toNat

def unpackInt (data : List UInt8) (offset : ℕ) : ℤ :=
  if unpackUInt data offset < 2147483648 then unpackUInt data offset
  else (unpackUInt data offset : ℤ) - 4294967296

/-- `read_header` -/
def readHeader (data : List UInt8) : Except String PeaksHeader :=
  if data.length < HEADER_SIZE then .error "too short for a .dat header"
  else
    let version := unpackInt data 0
    let flags := unpackUInt data 4
    let rate := unpackInt data 8
    let perPixel := unpackInt data 12
    let length := unpackUInt data 16
    let channels := unpackInt data 20
    if version ≠ VERSION ∨ flags ≠ FLAG_8_BIT ∨ rate ≤ 0 ∨ perPixel ≤ 0 ∨ channels ≤ 0 then
      .error "not an 8-bit audiowaveform .dat version 2 file"
    else if (data.length : ℤ) ≠ HEADER_SIZE + 2 * length * channels then
      .error "the body does not match the header"
    else .ok ⟨rate, perPixel, length, channels⟩

theorem unpackUInt_bytesOf {data : List UInt8} (before after : List UInt8) {n offset : ℕ}
    (h : n < 4294967296)
    (hdata : data = before ++ (bytesOf n ++ after)) (hoffset : before.length = offset) :
    unpackUInt data offset = n := by
  subst hdata hoffset
  have hbyte : ∀ j, j < 4 →
      (before ++ (bytesOf n ++ after))[before.length + j]? = (bytesOf n)[j]? := by
    intro j hj
    rw [List.getElem?_append_right (Nat.le_add_right _ _), Nat.add_sub_cancel_left,
      List.getElem?_append_left hj]
  have h0 := hbyte 0 (by omega)
  have h1 := hbyte 1 (by omega)
  have h2 := hbyte 2 (by omega)
  have h3 := hbyte 3 (by omega)
  rw [Nat.add_zero] at h0
  unfold unpackUInt
  rw [h0, h1, h2, h3]
  simp only [bytesOf, List.getElem?_cons_zero, List.getElem?_cons_succ, Option.getD_some,
    UInt8.toNat_ofNat']
  omega

theorem unpackInt_bytesOf {data : List UInt8} (before after : List UInt8) {v : ℤ} {offset : ℕ}
    (hlow : -2147483648 ≤ v) (hhigh : v < 2147483648)
    (hdata : data = before ++ (bytesOf (v % 4294967296).toNat ++ after))
    (hoffset : before.length = offset) : unpackInt data offset = v := by
  unfold unpackInt
  rw [unpackUInt_bytesOf before after (by omega) hdata hoffset]
  split <;> omega

/-- **A header is packed when it fits.** -/
theorem PeaksHeader.pack_eq_some_iff {h : PeaksHeader} {bytes : List UInt8} :
    h.pack = some bytes ↔
      (-2147483648 ≤ h.sampleRate ∧ h.sampleRate < 2147483648) ∧
        (-2147483648 ≤ h.samplesPerPixel ∧ h.samplesPerPixel < 2147483648) ∧
        h.length < 4294967296 ∧ (-2147483648 ≤ h.channels ∧ h.channels < 2147483648) ∧
        bytes = bytesOf 2 ++ bytesOf 1 ++ bytesOf (h.sampleRate % 4294967296).toNat ++
          bytesOf (h.samplesPerPixel % 4294967296).toNat ++ bytesOf h.length ++
          bytesOf (h.channels % 4294967296).toNat := by
  unfold PeaksHeader.pack packInt packUInt
  by_cases hrate : -2147483648 ≤ h.sampleRate ∧ h.sampleRate < 2147483648
  · by_cases hper : -2147483648 ≤ h.samplesPerPixel ∧ h.samplesPerPixel < 2147483648
    · by_cases hlength : h.length < 4294967296
      · by_cases hchannels : -2147483648 ≤ h.channels ∧ h.channels < 2147483648
        · rw [if_pos hrate, if_pos hper, if_pos hlength, if_pos hchannels]
          constructor
          · intro heq
            exact ⟨hrate, hper, hlength, hchannels, (Option.some.inj heq).symm⟩
          · rintro ⟨-, -, -, -, rfl⟩
            rfl
        · rw [if_neg hchannels, if_pos hrate, if_pos hper, if_pos hlength]
          exact ⟨by rintro ⟨⟩, fun heq => absurd heq.2.2.2.1 hchannels⟩
      · rw [if_neg hlength, if_pos hrate, if_pos hper]
        exact ⟨by rintro ⟨⟩, fun heq => absurd heq.2.2.1 hlength⟩
    · rw [if_neg hper, if_pos hrate]
      exact ⟨by rintro ⟨⟩, fun heq => absurd heq.2.1 hper⟩
  · rw [if_neg hrate]
    exact ⟨by rintro ⟨⟩, fun heq => absurd heq.1 hrate⟩

/-- **What is packed is read back**, before a body that matches. -/
theorem readHeader_pack {h : PeaksHeader} {bytes : List UInt8} (hpack : h.pack = some bytes)
    (hrate : 0 < h.sampleRate) (hper : 0 < h.samplesPerPixel) (hchannels : 0 < h.channels)
    (body : List UInt8) (hbody : (body.length : ℤ) = 2 * h.length * h.channels) :
    readHeader (bytes ++ body) = .ok h := by
  obtain ⟨hr, hp, hl, hc, rfl⟩ := PeaksHeader.pack_eq_some_iff.mp hpack
  set rate := bytesOf (h.sampleRate % 4294967296).toNat with hrateBytes
  set per := bytesOf (h.samplesPerPixel % 4294967296).toNat with hperBytes
  set count := bytesOf (h.channels % 4294967296).toNat with hcountBytes
  have hlength : (bytesOf 2 ++ bytesOf 1 ++ rate ++ per ++ bytesOf h.length ++ count ++ body).length
      = 24 + body.length := by
    simp only [List.length_append]
    rfl
  have hversion : unpackInt (bytesOf 2 ++ bytesOf 1 ++ rate ++ per ++ bytesOf h.length ++ count ++
      body) 0 = 2 :=
    unpackInt_bytesOf []
      (bytesOf 1 ++ rate ++ per ++ bytesOf h.length ++ count ++ body)
      (by omega) (by omega) (by simp only [List.append_assoc]; rfl) rfl
  have hflags : unpackUInt (bytesOf 2 ++ bytesOf 1 ++ rate ++ per ++ bytesOf h.length ++ count ++
      body) 4 = 1 :=
    unpackUInt_bytesOf (bytesOf 2)
      (rate ++ per ++ bytesOf h.length ++ count ++ body)
      (by omega) (by simp only [List.append_assoc]) rfl
  have hrateEq : unpackInt (bytesOf 2 ++ bytesOf 1 ++ rate ++ per ++ bytesOf h.length ++ count ++
      body) 8 = h.sampleRate :=
    unpackInt_bytesOf (bytesOf 2 ++ bytesOf 1)
      (per ++ bytesOf h.length ++ count ++ body) hr.1 hr.2
      (by simp only [List.append_assoc, hrateBytes]) rfl
  have hperEq : unpackInt (bytesOf 2 ++ bytesOf 1 ++ rate ++ per ++ bytesOf h.length ++ count ++
      body) 12 = h.samplesPerPixel :=
    unpackInt_bytesOf (bytesOf 2 ++ bytesOf 1 ++ rate)
      (bytesOf h.length ++ count ++ body) hp.1 hp.2
      (by simp only [List.append_assoc, hperBytes]) rfl
  have hlengthEq : unpackUInt (bytesOf 2 ++ bytesOf 1 ++ rate ++ per ++ bytesOf h.length ++ count ++
      body) 16 = h.length :=
    unpackUInt_bytesOf (bytesOf 2 ++ bytesOf 1 ++ rate ++ per)
      (count ++ body) hl (by simp only [List.append_assoc]) rfl
  have hchannelsEq : unpackInt (bytesOf 2 ++ bytesOf 1 ++ rate ++ per ++ bytesOf h.length ++ count ++
      body) 20 = h.channels :=
    unpackInt_bytesOf (bytesOf 2 ++ bytesOf 1 ++ rate ++ per ++ bytesOf h.length)
      (body) hc.1 hc.2 (by simp only [List.append_assoc, hcountBytes]) rfl
  unfold readHeader
  dsimp only
  rw [hversion, hflags, hrateEq, hperEq, hlengthEq, hchannelsEq, hlength,
    if_neg (by unfold HEADER_SIZE; omega), if_neg (by unfold VERSION FLAG_8_BIT; omega),
    if_neg (by unfold HEADER_SIZE; push_cast; omega)]

/-! ## The pixels -/

section Pixels

variable {channels : ℕ}

/-- A pixel's minimum and maximum, by channel. -/
def pixelOf (rows : List (Fin channels → ℤ)) (c : Fin channels) : ℤ × ℤ :=
  (((rows.map (· c)).min?.getD 0) >>> (8 : ℕ), ((rows.map (· c)).max?.getD 0) >>> (8 : ℕ))

/-- A signed byte. -/
def toByte (v : ℤ) : UInt8 := UInt8.ofNat (v % 256).toNat

/-- `body.tobytes()` -/
def bodyOf (pixels : List (Fin channels → ℤ × ℤ)) : List UInt8 :=
  pixels.flatMap fun pixel => (List.finRange channels).flatMap fun c =>
    [toByte (pixel c).1, toByte (pixel c).2]

/-- `Peaks`, of a source's rate and channels. -/
structure Peaks (channels : ℕ) where
  rate : ℤ
  parts : List (List (Fin channels → ℤ × ℤ))
  pending : List (Fin channels → ℤ)

namespace Peaks

def new (channels : ℕ) (rate : ℤ) : Peaks channels := ⟨rate, [], []⟩

/-- `_pixels`: the rows, as many as a pixel's at a time. -/
def pixels (data : List (Fin channels → ℤ)) : List (Fin channels → ℤ × ℤ) :=
  (List.range (data.length / SAMPLES_PER_PIXEL)).map fun k =>
    pixelOf ((data.drop (SAMPLES_PER_PIXEL * k)).take SAMPLES_PER_PIXEL)

/-- `feed` -/
def feed (p : Peaks channels) (block : List (Fin channels → ℤ)) : Peaks channels :=
  let data := if p.pending = [] then block else p.pending ++ block
  let whole := data.length / SAMPLES_PER_PIXEL * SAMPLES_PER_PIXEL
  { p with
    parts := if whole = 0 then p.parts else p.parts ++ [pixels (data.take whole)]
    pending := data.drop whole }

/-- `finish` -/
def finish (p : Peaks channels) : Option (List UInt8) :=
  let parts := if p.pending = [] then p.parts else p.parts ++ [[pixelOf p.pending]]
  let header : PeaksHeader := ⟨p.rate, SAMPLES_PER_PIXEL, parts.flatten.length, channels⟩
  header.pack.map (· ++ bodyOf parts.flatten)

end Peaks

/-- **The pixels of a whole track**: pixel `k` is of its samples from `256 k` up
to `256 (k + 1)`, or of what is left. -/
def trackPixels (track : List (Fin channels → ℤ)) : List (Fin channels → ℤ × ℤ) :=
  (List.range ((track.length + (SAMPLES_PER_PIXEL - 1)) / SAMPLES_PER_PIXEL)).map fun k =>
    pixelOf ((track.drop (SAMPLES_PER_PIXEL * k)).take SAMPLES_PER_PIXEL)

namespace Peaks

variable {p : Peaks channels} {track block : List (Fin channels → ℤ)}

/-- What is held after some samples. -/
structure Holds (rate : ℤ) (track : List (Fin channels → ℤ)) (p : Peaks channels) : Prop where
  rate_eq : p.rate = rate
  parts : p.parts.flatten = pixels track
  pending : p.pending = track.drop (track.length / SAMPLES_PER_PIXEL * SAMPLES_PER_PIXEL)

theorem pixels_nil : pixels ([] : List (Fin channels → ℤ)) = [] := by
  rw [pixels, List.length_nil, Nat.zero_div, List.range_zero, List.map_nil]

theorem holds_new (channels : ℕ) (rate : ℤ) : (new channels rate).Holds rate [] :=
  ⟨rfl, pixels_nil.symm, List.drop_nil.symm⟩

/-- Whole pixels of what is fed, after those of what was. -/
theorem pixels_append (track block : List (Fin channels → ℤ)) :
    pixels (track ++ block) = pixels track ++
      pixels (track.drop (track.length / SAMPLES_PER_PIXEL * SAMPLES_PER_PIXEL) ++ block) := by
  unfold pixels SAMPLES_PER_PIXEL
  have hlength : (track ++ block).length / 256 = track.length / 256 +
      (track.drop (track.length / 256 * 256) ++ block).length / 256 := by
    rw [List.length_append, List.length_append, List.length_drop]
    omega
  rw [hlength, List.range_add, List.map_append, List.map_map]
  congr 1
  · refine List.map_congr_left fun k hk => ?_
    have hk := List.mem_range.mp hk
    rw [List.drop_append_of_le_length (by omega), List.take_append_of_le_length
      (by rw [List.length_drop]; omega)]
  · refine List.map_congr_left fun k _ => ?_
    rw [Function.comp_apply, Nat.mul_add, ← List.drop_drop]
    congr 3
    rw [Nat.mul_comm 256, List.drop_append_of_le_length (by omega)]

/-- The whole pixels are those of the samples that fill them. -/
theorem pixels_take (data : List (Fin channels → ℤ)) :
    pixels (data.take (data.length / SAMPLES_PER_PIXEL * SAMPLES_PER_PIXEL)) = pixels data := by
  unfold pixels SAMPLES_PER_PIXEL
  have hlength : (data.take (data.length / 256 * 256)).length / 256 = data.length / 256 := by
    rw [List.length_take]
    omega
  rw [hlength]
  refine List.map_congr_left fun k hk => ?_
  have hk := List.mem_range.mp hk
  rw [List.drop_take, List.take_take, Nat.min_eq_left (by omega)]

theorem Holds.feed {rate : ℤ} (hp : p.Holds rate track) (block : List (Fin channels → ℤ)) :
    (p.feed block).Holds rate (track ++ block) := by
  have hdata : (if p.pending = [] then block else p.pending ++ block) =
      track.drop (track.length / SAMPLES_PER_PIXEL * SAMPLES_PER_PIXEL) ++ block := by
    rw [← hp.pending]
    split
    · rename_i h
      rw [h, List.nil_append]
    · rfl
  unfold Peaks.feed
  rw [hdata]
  set data := track.drop (track.length / SAMPLES_PER_PIXEL * SAMPLES_PER_PIXEL) ++ block with hd
  refine ⟨hp.rate_eq, ?_, ?_⟩
  · dsimp only
    rw [pixels_append, ← hp.parts, ← hd, ← pixels_take data]
    split
    · rename_i h
      rw [h, List.take_zero, pixels_nil, List.append_nil]
    · rw [List.flatten_append, List.flatten_singleton]
  · dsimp only
    have hlt : track.length / SAMPLES_PER_PIXEL * SAMPLES_PER_PIXEL ≤ track.length :=
      Nat.div_mul_le_self _ _
    have htotal : (track ++ block).length / SAMPLES_PER_PIXEL * SAMPLES_PER_PIXEL =
        track.length / SAMPLES_PER_PIXEL * SAMPLES_PER_PIXEL +
          data.length / SAMPLES_PER_PIXEL * SAMPLES_PER_PIXEL := by
      rw [hd]
      unfold SAMPLES_PER_PIXEL
      rw [List.length_append, List.length_append, List.length_drop]
      omega
    rw [htotal, ← List.drop_drop, List.drop_append_of_le_length hlt, ← hd]

/-- What is held depends on the samples, and not on the blocks. -/
theorem holds_feed (rate : ℤ) (blocks : List (List (Fin channels → ℤ))) :
    (blocks.foldl Peaks.feed (new channels rate)).Holds rate blocks.flatten := by
  have hrun : ∀ (blocks : List (List (Fin channels → ℤ))) {p : Peaks channels}
      {track : List (Fin channels → ℤ)}, p.Holds rate track →
        (blocks.foldl Peaks.feed p).Holds rate (track ++ blocks.flatten) := by
    intro blocks
    induction blocks with
    | nil => intro p track hp; rwa [List.flatten_nil, List.append_nil]
    | cons block blocks ih =>
      intro p track hp
      rw [List.foldl_cons, List.flatten_cons, ← List.append_assoc]
      exact ih (hp.feed block)
  exact hrun blocks (holds_new channels rate)

/-- The last pixel is of what is left. -/
theorem trackPixels_eq (track : List (Fin channels → ℤ)) :
    trackPixels track = pixels track ++
      if track.drop (track.length / SAMPLES_PER_PIXEL * SAMPLES_PER_PIXEL) = [] then []
      else [pixelOf (track.drop (track.length / SAMPLES_PER_PIXEL * SAMPLES_PER_PIXEL))] := by
  unfold trackPixels pixels SAMPLES_PER_PIXEL
  split
  · rename_i h
    have h := List.drop_eq_nil_iff.mp h
    rw [List.append_nil, show (track.length + (256 - 1)) / 256 = track.length / 256 by omega]
  · rename_i h
    have h : ¬ track.length ≤ track.length / 256 * 256 := fun hle =>
      h (List.drop_eq_nil_iff.mpr hle)
    rw [show (track.length + (256 - 1)) / 256 = track.length / 256 + 1 by omega, List.range_succ,
      List.map_append, List.map_singleton, Nat.mul_comm 256, List.take_of_length_le]
    rw [List.length_drop]
    omega

/-- **The file written is the whole track's**: a header, and a pixel for every
256 samples and for what is left. -/
theorem finish_feed (rate : ℤ) (blocks : List (List (Fin channels → ℤ))) :
    (blocks.foldl Peaks.feed (new channels rate)).finish =
      (PeaksHeader.pack ⟨rate, SAMPLES_PER_PIXEL, (trackPixels blocks.flatten).length,
        channels⟩).map (· ++ bodyOf (trackPixels blocks.flatten)) := by
  have hp := holds_feed rate blocks
  set p := blocks.foldl Peaks.feed (new channels rate)
  have hparts : (if p.pending = [] then p.parts else p.parts ++ [[pixelOf p.pending]]).flatten =
      trackPixels blocks.flatten := by
    rw [trackPixels_eq, ← hp.parts, ← hp.pending]
    split
    · exact (List.append_nil _).symm
    · rw [List.flatten_append, List.flatten_singleton]
  unfold finish
  dsimp only
  rw [hparts, hp.rate_eq]

theorem length_bodyOf (pixels : List (Fin channels → ℤ × ℤ)) :
    (bodyOf pixels).length = pixels.length * (channels * 2) := by
  have hpixel : ∀ pixel : Fin channels → ℤ × ℤ, ((List.finRange channels).flatMap fun c =>
      [toByte (pixel c).1, toByte (pixel c).2]).length = channels * 2 := by
    intro pixel
    rw [List.length_flatMap]
    show ((List.finRange channels).map fun _ => 2).sum = _
    rw [List.map_const', List.sum_replicate, List.length_finRange, Nat.nsmul_eq_mul]
  rw [bodyOf, List.length_flatMap]
  simp only [hpixel]
  rw [List.map_const', List.sum_replicate, Nat.nsmul_eq_mul]

/-- **Its header is read back.** -/
theorem readHeader_finish {rate : ℤ} (hrate : 0 < rate) (hchannels : 0 < channels)
    {blocks : List (List (Fin channels → ℤ))} {file : List UInt8}
    (h : (blocks.foldl Peaks.feed (new channels rate)).finish = some file) :
    readHeader file =
      .ok ⟨rate, SAMPLES_PER_PIXEL, (trackPixels blocks.flatten).length, channels⟩ := by
  rw [finish_feed, Option.map_eq_some_iff] at h
  obtain ⟨header, hpack, rfl⟩ := h
  refine readHeader_pack hpack hrate (Int.natCast_pos.mpr (by decide))
    (Int.natCast_pos.mpr hchannels) _ ?_
  rw [length_bodyOf]
  push_cast
  ring

/-! ## The body -/

/-- A byte as it is read, with its sign. -/
def signed (b : UInt8) : ℤ := if b.toNat < 128 then b.toNat else (b.toNat : ℤ) - 256

theorem signed_toByte {v : ℤ} (hlow : -128 ≤ v) (hhigh : v ≤ 127) : signed (toByte v) = v := by
  unfold signed toByte
  rw [UInt8.toNat_ofNat']
  split <;> omega

theorem shiftRight_bounds {v : ℤ} (h : -32768 ≤ v ∧ v ≤ 32767) :
    -128 ≤ v >>> (8 : ℕ) ∧ v >>> (8 : ℕ) ≤ 127 := by
  rw [Int.shiftRight_eq_div_pow]
  norm_num
  omega

/-- A pixel of 16-bit samples is of bytes. -/
theorem pixelOf_bounds {rows : List (Fin channels → ℤ)} {c : Fin channels}
    (h : ∀ row ∈ rows, -32768 ≤ row c ∧ row c ≤ 32767) :
    (-128 ≤ (pixelOf rows c).1 ∧ (pixelOf rows c).1 ≤ 127) ∧
      (-128 ≤ (pixelOf rows c).2 ∧ (pixelOf rows c).2 ≤ 127) := by
  have hall : ∀ v ∈ rows.map (· c), -32768 ≤ v ∧ v ≤ 32767 := by
    intro v hv
    obtain ⟨row, hrow, rfl⟩ := List.mem_map.mp hv
    exact h row hrow
  refine ⟨shiftRight_bounds ?_, shiftRight_bounds ?_⟩
  · cases hmin : (rows.map (· c)).min? with
    | none => exact ⟨by decide, by decide⟩
    | some v => exact hall v (List.min?_mem hmin)
  · cases hmax : (rows.map (· c)).max? with
    | none => exact ⟨by decide, by decide⟩
    | some v => exact hall v (List.max?_mem hmax)

/-- **The body of a file of 16-bit samples holds its pixels.** -/
theorem signed_bodyOf_trackPixels {track : List (Fin channels → ℤ)}
    (h : ∀ row ∈ track, ∀ c, -32768 ≤ row c ∧ row c ≤ 32767) :
    (bodyOf (trackPixels track)).map signed = (trackPixels track).flatMap fun pixel =>
      (List.finRange channels).flatMap fun c => [(pixel c).1, (pixel c).2] := by
  rw [bodyOf, List.map_flatMap]
  refine List.flatMap_congr fun pixel hpixel => ?_
  rw [List.map_flatMap]
  refine List.flatMap_congr fun c _ => ?_
  obtain ⟨k, -, rfl⟩ := List.mem_map.mp hpixel
  obtain ⟨hmin, hmax⟩ := pixelOf_bounds (c := c) fun row hrow =>
    h row (List.mem_of_mem_drop (List.mem_of_mem_take hrow)) c
  rw [List.map_cons, List.map_singleton, signed_toByte hmin.1 hmin.2, signed_toByte hmax.1 hmax.2]

end Peaks

end Pixels

end Earshot.Signals
