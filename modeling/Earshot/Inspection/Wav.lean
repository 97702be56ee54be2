import Earshot.Common.Run
import Earshot.Inspection.Bodies
/-!
# WAV headers

The header of a streamed WAV body: the `fmt ` and `data` chunks of a
RIFF/WAVE file, found in the first mebibyte. The reader keeps what it has
read and goes on from the last whole chunk; what it finds is what a walk of
the whole body finds (`WavHeader`), wherever the body was cut.
-/

namespace Earshot.Inspection

/-! ## The reader -/

/-- `WAV_HEADER_LIMIT` -/
def WAV_HEADER_LIMIT : ℕ := 1024 * 1024
def RIFF_PREAMBLE : ℕ := 12
def CHUNK_HEADER : ℕ := 8
def FMT_MINIMUM : ℕ := 16
def OPEN_ENDED_SIZE : ℕ := 4294967295
def SAMPLE_FORMATS : List ℕ := [1, 3, 6, 7]
def CONSTANT_RATE_CODECS : List ℕ := [2, 17, 49]
def EXTENSIBLE : ℕ := 65534
def EXTENSIBLE_FMT_MINIMUM : ℕ := 26

/-- The bytes of `RIFF`, `WAVE`, `fmt ` and `data`. -/
def RIFF : List UInt8 := [82, 73, 70, 70]
def WAVE : List UInt8 := [87, 65, 86, 69]
def FMT : List UInt8 := [102, 109, 116, 32]
def DATA : List UInt8 := [100, 97, 116, 97]

/-- What a `fmt ` chunk says. -/
structure WavFormat where
  channels : ℕ
  sampleRate : ℕ
  blockAlign : ℕ
  formatTag : ℕ
  byteRate : ℕ

/-- `_read_fmt` -/
def readFmt (fmt : List UInt8) : Except Failure WavFormat :=
  if fmt.length < FMT_MINIMUM then .error (.header "the WAV fmt chunk is too short")
  else do
    let tag ← unpack fmt 0 2
    let channels ← unpack fmt 2 2
    let sampleRate ← unpack fmt 4 4
    let byteRate ← unpack fmt 8 4
    let blockAlign ← unpack fmt 12 2
    if channels < 1 ∨ sampleRate < 1 ∨ blockAlign < 1 then
      .error (.header "the WAV fmt chunk describes no audio")
    else if tag = EXTENSIBLE ∧ EXTENSIBLE_FMT_MINIMUM ≤ fmt.length then do
      let tag ← unpack fmt 24 2
      return ⟨channels, sampleRate, blockAlign, tag, byteRate⟩
    else return ⟨channels, sampleRate, blockAlign, tag, byteRate⟩

/-- How far `_parse` got: to the next chunk, which is not whole yet, or to the
`data` chunk. -/
inductive Walk where
  | stopped (next : ℕ) (fmt : Option WavFormat)
  | complete (fmt : WavFormat) (offset size : ℕ)

/-- The `data` chunk, which ends the header. -/
def dataChunk (fmt : Option WavFormat) (body size : ℕ) : Except Failure Walk :=
  match fmt with
  | none => .error (.header "the WAV data chunk comes before its fmt chunk")
  | some format =>
    if size = 0 then .error (.header "the WAV data chunk declares no audio")
    else .ok (.complete format body size)

/-- The loop of `_parse`. -/
def walk (buffer : List UInt8) (offset : ℕ) (fmt : Option WavFormat) : Except Failure Walk :=
  if h : offset + CHUNK_HEADER ≤ buffer.length then
    let name := slice buffer offset 4
    (unpack buffer (offset + 4) 4).bind fun size =>
      let body := offset + CHUNK_HEADER
      if name = DATA then dataChunk fmt body size
      else
        let stop := body + size + size % 2
        if WAV_HEADER_LIMIT < stop then
          .error (.header "the WAV header does not end within its bound")
        else if buffer.length < body + size then .ok (.stopped offset fmt)
        else if name = FMT then
          (readFmt (slice buffer body size)).bind fun format => walk buffer stop (some format)
        else walk buffer stop fmt
  else .ok (.stopped offset fmt)
  termination_by buffer.length + 1 - offset
  decreasing_by all_goals (unfold CHUNK_HEADER at *; omega)

/-- `_parse`; a next chunk at 0 is before the preamble. -/
def parse (buffer : List UInt8) (next : ℕ) (fmt : Option WavFormat) : Except Failure Walk :=
  if next = 0 then
    if buffer.length < RIFF_PREAMBLE then .ok (.stopped 0 fmt)
    else if slice buffer 0 4 ≠ RIFF ∨ slice buffer 8 4 ≠ WAVE then
      .error (.header "the body is not a RIFF/WAVE file")
    else walk buffer RIFF_PREAMBLE fmt
  else walk buffer next fmt

/-- `WavInspector`; a `fmt ` chunk seen is `some`. -/
structure WavInspector where
  buffer : List UInt8
  nextChunk : ℕ
  fmt : Option WavFormat
  /-- The `data` chunk's offset and size, once the header is complete. -/
  found : Option (WavFormat × ℕ × ℕ)

namespace WavInspector

def new : WavInspector := ⟨[], 0, none, none⟩

/-- What `_parse` leaves. -/
def parsed (buffer : List UInt8) : Walk → WavInspector
  | .stopped next fmt => ⟨buffer, next, fmt, none⟩
  | .complete fmt offset size => ⟨buffer, 0, some fmt, some (fmt, offset, size)⟩

/-- `feed` -/
def feed (w : WavInspector) (chunk : List UInt8) : Except Failure WavInspector :=
  if w.found.isSome = true ∨ chunk = [] then .ok w
  else
    let buffer := w.buffer ++ chunk.take (WAV_HEADER_LIMIT + 1 - w.buffer.length)
    (parse buffer w.nextChunk w.fmt).bind fun walked =>
      let w := parsed buffer walked
      if w.found = none ∧ WAV_HEADER_LIMIT < buffer.length then
        .error (.header "the WAV header does not end within its bound")
      else .ok w

end WavInspector

/-- The bytes of audio a body of `total` bytes holds. -/
def wavAudio (offset size total : ℕ) : ℕ :=
  let available := total - offset
  if size = OPEN_ENDED_SIZE ∨ available < size then available else size

/-- The bytes a second takes, or 0 where the format does not say. -/
def bytesPerSecond (fmt : WavFormat) : ℕ :=
  if fmt.formatTag ∈ SAMPLE_FORMATS then fmt.sampleRate * fmt.blockAlign
  else if fmt.formatTag ∈ CONSTANT_RATE_CODECS ∧ 0 < fmt.byteRate then fmt.byteRate
  else 0

/-- The duration `finish` fixes. -/
def wavDuration (fmt : WavFormat) (audio : ℕ) : Option ℕ :=
  let duration := if bytesPerSecond fmt ≠ 0 then some (audio * 1000 / bytesPerSecond fmt) else none
  if ∃ d ∈ duration, MAX_DURATION_MS < d then none else duration

/-- `finish` and `duration_ms` -/
def WavInspector.finish (w : WavInspector) (total : ℕ) : Outcome :=
  match w.found with
  | none => .error (.header "the body ends before its WAV header does")
  | some (fmt, offset, size) =>
    let audio := wavAudio offset size total
    if audio < fmt.blockAlign then
      .error (.header "the WAV holds no audio: not one whole block of samples")
    else .ok (fmt.channels, wavDuration fmt audio)

/-- An upload in chunks, and its end. -/
def inspectWav (chunks : List (List UInt8)) : Outcome :=
  (Streaming.feedAll WavInspector.feed WavInspector.new chunks).bind fun w =>
    w.finish chunks.flatten.length

/-! ## The whole body -/

/-- The name and the size of the chunk at an offset, where its header is whole. -/
def chunkAt (buffer : List UInt8) (offset : ℕ) : Option (List UInt8 × ℕ) :=
  if offset + CHUNK_HEADER ≤ buffer.length then
    some (slice buffer offset 4, leNat (slice buffer (offset + 4) 4))
  else none

/-- **The `data` chunk of a header**, from an offset on, with the format of the
last `fmt ` chunk before it. -/
inductive WavChunks (buffer : List UInt8) (fmt : WavFormat) (start size : ℕ) :
    ℕ → Option WavFormat → Prop
  | data {offset : ℕ} : chunkAt buffer offset = some (DATA, size) → size ≠ 0 →
      start = offset + CHUNK_HEADER → WavChunks buffer fmt start size offset (some fmt)
  | fmt {offset n : ℕ} {last : Option WavFormat} {next : WavFormat} :
      chunkAt buffer offset = some (FMT, n) →
      offset + CHUNK_HEADER + n + n % 2 ≤ WAV_HEADER_LIMIT →
      offset + CHUNK_HEADER + n ≤ buffer.length →
      readFmt (slice buffer (offset + CHUNK_HEADER) n) = .ok next →
      WavChunks buffer fmt start size (offset + CHUNK_HEADER + n + n % 2) (some next) →
      WavChunks buffer fmt start size offset last
  | other {offset n : ℕ} {last : Option WavFormat} {name : List UInt8} :
      chunkAt buffer offset = some (name, n) → name ≠ DATA → name ≠ FMT →
      offset + CHUNK_HEADER + n + n % 2 ≤ WAV_HEADER_LIMIT →
      offset + CHUNK_HEADER + n ≤ buffer.length →
      WavChunks buffer fmt start size (offset + CHUNK_HEADER + n + n % 2) last →
      WavChunks buffer fmt start size offset last

/-- **A WAV header**: a RIFF/WAVE preamble and its chunks up to the audio, all
within the limit. -/
def WavHeader (body : List UInt8) (fmt : WavFormat) (start size : ℕ) : Prop :=
  RIFF_PREAMBLE ≤ body.length ∧ slice body 0 4 = RIFF ∧ slice body 8 4 = WAVE ∧
    WavChunks body fmt start size RIFF_PREAMBLE none ∧ start ≤ WAV_HEADER_LIMIT

theorem chunkAt_eq {buffer : List UInt8} {offset : ℕ} (h : offset + CHUNK_HEADER ≤ buffer.length) :
    chunkAt buffer offset =
      some (slice buffer offset 4, leNat (slice buffer (offset + 4) 4)) :=
  if_pos h

theorem chunkAt_le {buffer : List UInt8} {offset : ℕ} {chunk : List UInt8 × ℕ}
    (h : chunkAt buffer offset = some chunk) : offset + CHUNK_HEADER ≤ buffer.length := by
  unfold chunkAt at h
  split at h
  · assumption
  · cases h

/-- One round of the walk. -/
theorem walk_eq {buffer : List UInt8} {offset : ℕ} (fmt : Option WavFormat)
    (h : offset + CHUNK_HEADER ≤ buffer.length) {name : List UInt8} {size : ℕ}
    (hchunk : chunkAt buffer offset = some (name, size)) :
    walk buffer offset fmt =
      if name = DATA then dataChunk fmt (offset + CHUNK_HEADER) size
      else if WAV_HEADER_LIMIT < offset + CHUNK_HEADER + size + size % 2 then
        .error (.header "the WAV header does not end within its bound")
      else if buffer.length < offset + CHUNK_HEADER + size then .ok (.stopped offset fmt)
      else if name = FMT then
        (readFmt (slice buffer (offset + CHUNK_HEADER) size)).bind fun format =>
          walk buffer (offset + CHUNK_HEADER + size + size % 2) (some format)
      else walk buffer (offset + CHUNK_HEADER + size + size % 2) fmt := by
  rw [chunkAt_eq h] at hchunk
  obtain ⟨rfl, rfl⟩ := Prod.mk.inj (Option.some.inj hchunk)
  rw [walk, dif_pos h, unpack_eq (by unfold CHUNK_HEADER at h; omega)]
  rfl

/-- A chunk whose header is not whole is waited for. -/
theorem walk_of_short {buffer : List UInt8} {offset : ℕ} (fmt : Option WavFormat)
    (h : ¬ offset + CHUNK_HEADER ≤ buffer.length) :
    walk buffer offset fmt = .ok (.stopped offset fmt) := by
  rw [walk, dif_neg h]

/-- To go on where a walk got to. -/
def resume (buffer : List UInt8) : Walk → Except Failure Walk
  | .stopped next fmt => walk buffer next fmt
  | .complete fmt offset size => .ok (.complete fmt offset size)

/-- **A walk goes on as if it had read all at once.** -/
theorem walk_append (buffer more : List UInt8) (offset : ℕ) (fmt : Option WavFormat) :
    walk (buffer ++ more) offset fmt =
      (walk buffer offset fmt).bind (resume (buffer ++ more)) := by
  induction hn : buffer.length + 1 - offset using Nat.strongRecOn
    generalizing offset fmt with
  | _ n ih =>
    by_cases h : offset + CHUNK_HEADER ≤ buffer.length
    · have hlong : offset + CHUNK_HEADER ≤ (buffer ++ more).length := by
        rw [List.length_append]
        omega
      have hchunk := chunkAt_eq h
      have hchunk' : chunkAt (buffer ++ more) offset =
          some (slice buffer offset 4, leNat (slice buffer (offset + 4) 4)) := by
        rw [chunkAt_eq hlong, slice_append (by unfold CHUNK_HEADER at h; omega),
          slice_append (by unfold CHUNK_HEADER at h; omega)]
      set size := leNat (slice buffer (offset + 4) 4)
      rw [walk_eq fmt h hchunk, walk_eq fmt hlong hchunk']
      by_cases hdata : slice buffer offset 4 = DATA
      · rw [if_pos hdata, if_pos hdata]
        cases fmt with
        | none => rfl
        | some format =>
          unfold dataChunk
          dsimp only
          split <;> rfl
      rw [if_neg hdata, if_neg hdata]
      by_cases hlimit : WAV_HEADER_LIMIT < offset + CHUNK_HEADER + size + size % 2
      · rw [if_pos hlimit, if_pos hlimit]
        rfl
      rw [if_neg hlimit, if_neg hlimit]
      by_cases hbody : buffer.length < offset + CHUNK_HEADER + size
      · -- The chunk is read again once it is whole.
        rw [if_pos hbody]
        show _ = walk (buffer ++ more) offset fmt
        rw [walk_eq fmt hlong hchunk', if_neg hdata, if_neg hlimit]
      have hwhole : ¬ (buffer ++ more).length < offset + CHUNK_HEADER + size := by
        rw [List.length_append]
        omega
      have hnext : buffer.length + 1 - (offset + CHUNK_HEADER + size + size % 2) < n := by
        unfold CHUNK_HEADER at *
        omega
      rw [if_neg hbody, if_neg hwhole]
      by_cases hfmt : slice buffer offset 4 = FMT
      · rw [if_pos hfmt, if_pos hfmt, slice_append (by omega)]
        cases readFmt (slice buffer (offset + CHUNK_HEADER) size) with
        | error e => rfl
        | ok format => exact ih _ hnext _ (some format) rfl
      · rw [if_neg hfmt, if_neg hfmt]
        exact ih _ hnext _ fmt rfl
    · rw [walk_of_short fmt h]
      rfl

theorem readFmt_error {fmt : List UInt8} {e : Failure} (h : readFmt fmt = .error e) :
    ∃ text, e = .header text := by
  unfold readFmt at h
  split at h
  · exact ⟨_, (Except.error.inj h).symm⟩
  · rename_i hlong
    unfold FMT_MINIMUM at hlong
    rw [unpack_eq (by omega), unpack_eq (by omega), unpack_eq (by omega), unpack_eq (by omega),
      unpack_eq (by omega)] at h
    dsimp only [bind, Except.bind] at h
    split at h
    · exact ⟨_, (Except.error.inj h).symm⟩
    · split at h
      · rename_i hextensible
        have hsub := hextensible.2
        unfold EXTENSIBLE_FMT_MINIMUM at hsub
        rw [unpack_eq (by omega)] at h
        cases h
      · cases h

/-- A walk only goes forward. -/
theorem walk_next {buffer : List UInt8} {offset next : ℕ} {fmt fmt' : Option WavFormat}
    (h : walk buffer offset fmt = .ok (.stopped next fmt')) : offset ≤ next := by
  induction hn : buffer.length + 1 - offset using Nat.strongRecOn generalizing offset fmt with
  | _ n ih =>
    by_cases hlong : offset + CHUNK_HEADER ≤ buffer.length
    · rw [walk_eq fmt hlong (chunkAt_eq hlong)] at h
      have hnext : buffer.length + 1 - (offset + CHUNK_HEADER +
          leNat (slice buffer (offset + 4) 4) + leNat (slice buffer (offset + 4) 4) % 2) < n := by
        unfold CHUNK_HEADER at *
        omega
      split at h
      · unfold dataChunk at h
        cases fmt with
        | none => cases h
        | some format =>
          dsimp only at h
          split at h <;> cases h
      split at h
      · cases h
      split at h
      · cases h
        exact Nat.le_refl _
      split at h
      · cases hread : readFmt (slice buffer (offset + CHUNK_HEADER)
            (leNat (slice buffer (offset + 4) 4))) with
        | error e =>
          rw [hread] at h
          cases h
        | ok format =>
          rw [hread] at h
          have := ih _ hnext h rfl
          omega
      · have := ih _ hnext h rfl
        omega
    · rw [walk_of_short fmt hlong] at h
      cases h
      exact Nat.le_refl _

/-- A walk fails with a header error. -/
theorem walk_error {buffer : List UInt8} {offset : ℕ} {fmt : Option WavFormat} {e : Failure}
    (h : walk buffer offset fmt = .error e) : ∃ text, e = .header text := by
  induction hn : buffer.length + 1 - offset using Nat.strongRecOn generalizing offset fmt with
  | _ n ih =>
    by_cases hlong : offset + CHUNK_HEADER ≤ buffer.length
    · rw [walk_eq fmt hlong (chunkAt_eq hlong)] at h
      split at h
      · cases fmt with
        | none => exact ⟨_, (Except.error.inj h).symm⟩
        | some format =>
          unfold dataChunk at h
          dsimp only at h
          split at h
          · exact ⟨_, (Except.error.inj h).symm⟩
          · cases h
      split at h
      · exact ⟨_, (Except.error.inj h).symm⟩
      split at h
      · cases h
      have hnext : buffer.length + 1 - (offset + CHUNK_HEADER +
          leNat (slice buffer (offset + 4) 4) + leNat (slice buffer (offset + 4) 4) % 2) < n := by
        unfold CHUNK_HEADER at *
        omega
      split at h
      · cases hread : readFmt (slice buffer (offset + CHUNK_HEADER)
            (leNat (slice buffer (offset + 4) 4))) with
        | error e' =>
          rw [hread] at h
          obtain rfl := Except.error.inj h
          exact readFmt_error hread
        | ok format =>
          rw [hread] at h
          exact ih _ hnext h rfl
      · exact ih _ hnext h rfl
    · rw [walk_of_short fmt hlong] at h
      cases h

/-- **A walk ends at the header's `data` chunk.** -/
theorem walk_complete_iff {buffer : List UInt8} {format : WavFormat} {start size offset : ℕ}
    {fmt : Option WavFormat} :
    walk buffer offset fmt = .ok (.complete format start size) ↔
      WavChunks buffer format start size offset fmt := by
  constructor
  · intro h
    induction hn : buffer.length + 1 - offset using Nat.strongRecOn generalizing offset fmt with
    | _ n ih =>
      by_cases hlong : offset + CHUNK_HEADER ≤ buffer.length
      · have hchunk := chunkAt_eq hlong
        set name := slice buffer offset 4
        set length := leNat (slice buffer (offset + 4) 4)
        rw [walk_eq fmt hlong hchunk] at h
        have hnext : buffer.length + 1 - (offset + CHUNK_HEADER + length + length % 2) < n := by
          unfold CHUNK_HEADER at *
          omega
        by_cases hdata : name = DATA
        · rw [if_pos hdata] at h
          unfold dataChunk at h
          cases fmt with
          | none => cases h
          | some format' =>
            dsimp only at h
            split at h
            · cases h
            · rename_i hsize
              obtain ⟨hformat, hstart, hlength⟩ := Walk.complete.inj (Except.ok.inj h)
              rw [← hformat, ← hstart, ← hlength]
              exact .data (hdata ▸ hchunk) hsize rfl
        · rw [if_neg hdata] at h
          by_cases hlimit : WAV_HEADER_LIMIT < offset + CHUNK_HEADER + length + length % 2
          · rw [if_pos hlimit] at h
            cases h
          rw [if_neg hlimit] at h
          by_cases hbody : buffer.length < offset + CHUNK_HEADER + length
          · rw [if_pos hbody] at h
            cases h
          rw [if_neg hbody] at h
          by_cases hfmt : name = FMT
          · rw [if_pos hfmt] at h
            cases hread : readFmt (slice buffer (offset + CHUNK_HEADER) length) with
            | error e =>
              rw [hread] at h
              cases h
            | ok next =>
              rw [hread] at h
              exact .fmt (hfmt ▸ hchunk) (Nat.le_of_not_lt hlimit) (Nat.le_of_not_lt hbody) hread
                (ih _ hnext h rfl)
          · rw [if_neg hfmt] at h
            exact .other hchunk hdata hfmt (Nat.le_of_not_lt hlimit) (Nat.le_of_not_lt hbody)
              (ih _ hnext h rfl)
      · rw [walk_of_short fmt hlong] at h
        cases h
  · intro h
    induction h with
    | data hchunk hsize hstart =>
      rw [walk_eq _ (chunkAt_le hchunk) hchunk, if_pos rfl, dataChunk, if_neg hsize, hstart]
    | fmt hchunk hlimit hbody hread _ ih =>
      rw [walk_eq _ (chunkAt_le hchunk) hchunk, if_neg (by decide), if_neg (Nat.not_lt.mpr hlimit),
        if_neg (Nat.not_lt.mpr hbody), if_pos rfl, hread]
      exact ih
    | other hchunk hdata hfmt hlimit hbody _ ih =>
      rw [walk_eq _ (chunkAt_le hchunk) hchunk, if_neg hdata, if_neg (Nat.not_lt.mpr hlimit),
        if_neg (Nat.not_lt.mpr hbody), if_neg hfmt]
      exact ih

/-! ## Chunk by chunk -/

/-- The walk of a whole buffer. -/
def parseAll (buffer : List UInt8) : Except Failure Walk := parse buffer 0 none

/-- A parse goes on as if it had read all at once, the preamble included. -/
theorem parse_append {buffer more : List UInt8} {next : ℕ} {fmt : Option WavFormat}
    (h : parseAll buffer = .ok (.stopped next fmt)) :
    parse (buffer ++ more) next fmt = parseAll (buffer ++ more) := by
  unfold parseAll parse at *
  rw [if_pos rfl] at h ⊢
  by_cases hshort : buffer.length < RIFF_PREAMBLE
  · rw [if_pos hshort] at h
    obtain ⟨rfl, rfl⟩ := Walk.stopped.inj (Except.ok.inj h)
    rw [if_pos rfl]
  · have hlong : ¬ (buffer ++ more).length < RIFF_PREAMBLE := by
      rw [List.length_append]
      omega
    have hpreamble : 12 ≤ buffer.length := Nat.le_of_not_lt hshort
    rw [if_neg hshort] at h
    by_cases hmagic : slice buffer 0 4 ≠ RIFF ∨ slice buffer 8 4 ≠ WAVE
    · rw [if_pos hmagic] at h
      cases h
    · rw [if_neg hmagic] at h
      have hnext : next ≠ 0 := by
        have := walk_next h
        unfold RIFF_PREAMBLE at this
        omega
      rw [if_neg hnext, if_neg hlong, slice_append (by omega), slice_append (by omega),
        if_neg hmagic, walk_append buffer more RIFF_PREAMBLE, h]
      rfl

/-- What ends a parse ends it for good. -/
theorem parseAll_ended {buffer : List UInt8} {result : Except Failure Walk}
    (h : parseAll buffer = result) (hended : ∀ next fmt, result ≠ .ok (.stopped next fmt))
    (more : List UInt8) : parseAll (buffer ++ more) = result := by
  unfold parseAll parse at *
  rw [if_pos rfl] at h ⊢
  by_cases hshort : buffer.length < RIFF_PREAMBLE
  · rw [if_pos hshort] at h
    exact absurd h.symm (hended _ _)
  have hlong : ¬ (buffer ++ more).length < RIFF_PREAMBLE := by
    rw [List.length_append]
    omega
  have hpreamble : 12 ≤ buffer.length := Nat.le_of_not_lt hshort
  rw [if_neg hshort] at h
  rw [if_neg hlong, slice_append (by omega), slice_append (by omega)]
  by_cases hmagic : slice buffer 0 4 ≠ RIFF ∨ slice buffer 8 4 ≠ WAVE
  · rw [if_pos hmagic] at h ⊢
    exact h
  · rw [if_neg hmagic] at h ⊢
    rw [walk_append, h]
    cases result with
    | error e => rfl
    | ok walked =>
      cases walked with
      | stopped next fmt => exact absurd rfl (hended next fmt)
      | complete fmt offset size => rfl

theorem parse_error {buffer : List UInt8} {next : ℕ} {fmt : Option WavFormat} {e : Failure}
    (h : parse buffer next fmt = .error e) : ∃ text, e = .header text := by
  unfold parse at h
  split at h
  · split at h
    · cases h
    split at h
    · exact ⟨_, (Except.error.inj h).symm⟩
    · exact walk_error h
  · exact walk_error h

/-- Chunks whose headers and bodies are within the bytes read. -/
theorem chunkAt_take {body : List UInt8} {offset n : ℕ} (h : offset + CHUNK_HEADER ≤ n) :
    chunkAt (body.take n) offset = chunkAt body offset := by
  unfold chunkAt
  rw [slice_take (by unfold CHUNK_HEADER at h; omega),
    slice_take (by unfold CHUNK_HEADER at h; omega), List.length_take]
  by_cases hwhole : offset + CHUNK_HEADER ≤ body.length
  · rw [if_pos hwhole, if_pos (by omega)]
  · rw [if_neg hwhole, if_neg (by omega)]

/-- **The bytes read hold the header's chunks.** Chunks start at even offsets,
so the audio does not start at the one byte read past the limit. -/
theorem wavChunks_take_iff {body : List UInt8} {fmt : WavFormat} {start size offset : ℕ}
    {last : Option WavFormat} (heven : offset % 2 = 0) :
    WavChunks (body.take (WAV_HEADER_LIMIT + 1)) fmt start size offset last ↔
      WavChunks body fmt start size offset last ∧ start ≤ WAV_HEADER_LIMIT := by
  constructor
  · intro h
    induction h with
    | @data offset hchunk hsize hstart =>
      have hle := chunkAt_le hchunk
      rw [chunkAt_take (by rw [List.length_take] at hle; omega)] at hchunk
      refine ⟨.data hchunk hsize hstart, ?_⟩
      rw [List.length_take] at hle
      unfold CHUNK_HEADER WAV_HEADER_LIMIT at *
      omega
    | @fmt offset n _ _ hchunk hlimit hbody hread _ ih =>
      obtain ⟨hrest, hstart⟩ := ih (by unfold CHUNK_HEADER; omega)
      rw [chunkAt_take (by omega)] at hchunk
      rw [slice_take (by omega)] at hread
      exact ⟨.fmt hchunk hlimit (Nat.le_trans hbody (List.length_take_le' _ _)) hread hrest, hstart⟩
    | @other offset n _ _ hchunk hdata hfmt hlimit hbody _ ih =>
      obtain ⟨hrest, hstart⟩ := ih (by unfold CHUNK_HEADER; omega)
      rw [chunkAt_take (by omega)] at hchunk
      exact ⟨.other hchunk hdata hfmt hlimit (Nat.le_trans hbody (List.length_take_le' _ _)) hrest,
        hstart⟩
  · rintro ⟨h, hstart⟩
    induction h with
    | @data offset hchunk hsize hoffset =>
      exact .data ((chunkAt_take (by omega)).trans hchunk) hsize hoffset
    | @fmt offset n _ _ hchunk hlimit hbody hread _ ih =>
      refine .fmt ((chunkAt_take (by omega)).trans hchunk) hlimit ?_
        ((congrArg readFmt (slice_take (by omega))).trans hread) (ih (by unfold CHUNK_HEADER; omega))
      rw [List.length_take]
      omega
    | @other offset n _ _ hchunk hdata hfmt hlimit hbody _ ih =>
      refine .other ((chunkAt_take (by omega)).trans hchunk) hdata hfmt hlimit ?_
        (ih (by unfold CHUNK_HEADER; omega))
      rw [List.length_take]
      omega

/-- The `data` chunk of a whole body. -/
theorem parseAll_complete_iff {body : List UInt8} {fmt : WavFormat} {start size : ℕ} :
    parseAll (body.take (WAV_HEADER_LIMIT + 1)) = .ok (.complete fmt start size) ↔
      WavHeader body fmt start size := by
  have hlength : (body.take (WAV_HEADER_LIMIT + 1)).length < RIFF_PREAMBLE ↔
      ¬ RIFF_PREAMBLE ≤ body.length := by
    rw [List.length_take]
    unfold WAV_HEADER_LIMIT RIFF_PREAMBLE
    omega
  unfold parseAll parse WavHeader
  rw [if_pos rfl]
  by_cases hshort : RIFF_PREAMBLE ≤ body.length
  · rw [if_neg (fun h => hlength.mp h hshort), slice_take (by decide), slice_take (by decide)]
    by_cases hmagic : slice body 0 4 ≠ RIFF ∨ slice body 8 4 ≠ WAVE
    · rw [if_pos hmagic]
      refine ⟨by rintro ⟨⟩, fun ⟨_, hriff, hwave, _⟩ => ?_⟩
      rcases hmagic with h | h
      · exact absurd hriff h
      · exact absurd hwave h
    · obtain ⟨hriff, hwave⟩ := not_or.mp hmagic
      rw [if_neg hmagic, walk_complete_iff, wavChunks_take_iff (by decide)]
      exact ⟨fun h => ⟨hshort, not_not.mp hriff, not_not.mp hwave, h⟩, fun h => h.2.2.2⟩
  · rw [if_pos (hlength.mpr hshort)]
    exact ⟨by rintro ⟨⟩, fun h => absurd h.1 hshort⟩

namespace WavInspector

/-- **What an inspector holds**: all the bytes and how far their walk got, or
the header they hold. -/
def Holds (bytes : List UInt8) (w : WavInspector) : Prop :=
  (w.found = none ∧ w.buffer = bytes ∧ bytes.length ≤ WAV_HEADER_LIMIT ∧
      parseAll bytes = .ok (.stopped w.nextChunk w.fmt)) ∨
    ∃ fmt offset size, w.found = some (fmt, offset, size) ∧
      parseAll (bytes.take (WAV_HEADER_LIMIT + 1)) = .ok (.complete fmt offset size)

/-- **Why an inspector failed**: the walk did, or it did not end in the limit. -/
def Fails (bytes : List UInt8) (e : Failure) : Prop :=
  (∃ text, e = .header text) ∧
    ((∃ e', parseAll (bytes.take (WAV_HEADER_LIMIT + 1)) = .error e') ∨
      WAV_HEADER_LIMIT < bytes.length ∧
        ∃ next fmt, parseAll (bytes.take (WAV_HEADER_LIMIT + 1)) = .ok (.stopped next fmt))

theorem holds_new : Holds [] new :=
  .inl ⟨rfl, rfl, Nat.zero_le _, rfl⟩

/-- The bytes a reader keeps, as it reads on. -/
theorem take_append (bytes chunk : List UInt8) (n : ℕ) :
    (bytes ++ chunk).take n = bytes.take n ++ chunk.take (n - bytes.length) :=
  List.take_append

/-- One chunk, where the header is not complete. -/
theorem feed_eq {w : WavInspector} {bytes chunk : List UInt8} (hfound : w.found = none)
    (hbuffer : w.buffer = bytes) (hlength : bytes.length ≤ WAV_HEADER_LIMIT)
    (hparse : parseAll bytes = .ok (.stopped w.nextChunk w.fmt)) (hchunk : chunk ≠ []) :
    w.feed chunk =
      (parseAll ((bytes ++ chunk).take (WAV_HEADER_LIMIT + 1))).bind fun walked =>
        let w := parsed ((bytes ++ chunk).take (WAV_HEADER_LIMIT + 1)) walked
        if w.found = none ∧
            WAV_HEADER_LIMIT < ((bytes ++ chunk).take (WAV_HEADER_LIMIT + 1)).length then
          .error (.header "the WAV header does not end within its bound")
        else .ok w := by
  have hidle : ¬ (w.found.isSome = true ∨ chunk = []) := by
    rw [hfound]
    rintro (h | h)
    · cases h
    · exact hchunk h
  have htake : (bytes ++ chunk).take (WAV_HEADER_LIMIT + 1) =
      bytes ++ chunk.take (WAV_HEADER_LIMIT + 1 - bytes.length) := by
    rw [take_append, List.take_of_length_le (by omega)]
  rw [feed, if_neg hidle, htake, ← parse_append hparse, hbuffer]

/-- **A chunk fed is read as if it had come with the bytes before.** -/
theorem holds_feed {w w' : WavInspector} {bytes chunk : List UInt8} (hw : Holds bytes w)
    (h : w.feed chunk = .ok w') : Holds (bytes ++ chunk) w' := by
  rcases hw with ⟨hfound, hbuffer, hlength, hparse⟩ | ⟨fmt, offset, size, hfound, hparse⟩
  · by_cases hchunk : chunk = []
    · rw [feed, if_pos (.inr hchunk)] at h
      obtain rfl := Except.ok.inj h
      rw [hchunk, List.append_nil]
      exact .inl ⟨hfound, hbuffer, hlength, hparse⟩
    · rw [feed_eq hfound hbuffer hlength hparse hchunk] at h
      cases hall : parseAll ((bytes ++ chunk).take (WAV_HEADER_LIMIT + 1)) with
      | error e =>
        rw [hall] at h
        cases h
      | ok walked =>
        rw [hall] at h
        dsimp only [Except.bind] at h
        split at h
        · cases h
        · rename_i hbound
          obtain rfl := Except.ok.inj h
          cases walked with
          | stopped next fmt =>
            have hshort : ((bytes ++ chunk).take (WAV_HEADER_LIMIT + 1)).length ≤
                WAV_HEADER_LIMIT :=
              Nat.le_of_not_lt fun hlong => hbound ⟨rfl, hlong⟩
            have hwhole : (bytes ++ chunk).length ≤ WAV_HEADER_LIMIT := by
              rw [List.length_take] at hshort
              omega
            have htake : (bytes ++ chunk).take (WAV_HEADER_LIMIT + 1) = bytes ++ chunk :=
              List.take_of_length_le (by omega)
            exact .inl ⟨rfl, htake, hwhole, htake ▸ hall⟩
          | complete fmt offset size => exact .inr ⟨fmt, offset, size, rfl, hall⟩
  · rw [feed, if_pos (.inl (by rw [hfound]; rfl))] at h
    obtain rfl := Except.ok.inj h
    refine .inr ⟨fmt, offset, size, hfound, ?_⟩
    rw [take_append]
    exact parseAll_ended hparse (by rintro _ _ ⟨⟩) _

theorem fails_feed {w : WavInspector} {bytes chunk : List UInt8} {e : Failure}
    (hw : Holds bytes w) (h : w.feed chunk = .error e) : Fails (bytes ++ chunk) e := by
  rcases hw with ⟨hfound, hbuffer, hlength, hparse⟩ | ⟨fmt, offset, size, hfound, _⟩
  · by_cases hchunk : chunk = []
    · rw [feed, if_pos (.inr hchunk)] at h
      cases h
    · rw [feed_eq hfound hbuffer hlength hparse hchunk] at h
      cases hall : parseAll ((bytes ++ chunk).take (WAV_HEADER_LIMIT + 1)) with
      | error e' =>
        rw [hall] at h
        obtain rfl := Except.error.inj h
        exact ⟨parse_error hall, .inl ⟨_, hall⟩⟩
      | ok walked =>
        rw [hall] at h
        dsimp only [Except.bind] at h
        split at h
        · rename_i hbound
          refine ⟨⟨_, (Except.error.inj h).symm⟩, .inr ⟨?_, ?_⟩⟩
          · have := hbound.2
            rw [List.length_take] at this
            omega
          · cases walked with
            | stopped next fmt => exact ⟨next, fmt, hall⟩
            | complete fmt offset size => cases hbound.1
        · cases h
  · rw [feed, if_pos (.inl (by rw [hfound]; rfl))] at h
    cases h

/-- A failure is for good. -/
theorem fails_append {bytes : List UInt8} {e : Failure} (h : Fails bytes e)
    (more : List UInt8) : Fails (bytes ++ more) e := by
  obtain ⟨htext, ⟨e', herror⟩ | ⟨hlong, next, fmt, hstopped⟩⟩ := h
  · refine ⟨htext, .inl ⟨e', ?_⟩⟩
    rw [take_append]
    exact parseAll_ended herror (by rintro _ _ ⟨⟩) _
  · refine ⟨htext, .inr ⟨?_, next, fmt, ?_⟩⟩
    · rw [List.length_append]
      omega
    · rw [List.take_append_of_le_length (by omega)]
      exact hstopped

/-- What is held of an upload, or why it failed. -/
theorem fed (chunks : List (List UInt8)) :
    (∀ w, Streaming.feedAll feed new chunks = .ok w → Holds chunks.flatten w) ∧
      ∀ e, Streaming.feedAll feed new chunks = .error e → Fails chunks.flatten e :=
  Streaming.feedAll_spec (fun _ _ _ _ hw h => holds_feed hw h)
    (fun _ _ _ _ hw h => fails_feed hw h) (fun _ _ h => fails_append h) holds_new chunks

end WavInspector

/-! ## The outcome -/

/-- **What a WAV body holds**: the channels of its header's format, and the
duration of the audio after it. -/
def WavBody (body : List UInt8) (channels : ℕ) (duration : Option ℕ) : Prop :=
  ∃ fmt start size, WavHeader body fmt start size ∧
    fmt.blockAlign ≤ wavAudio start size body.length ∧ channels = fmt.channels ∧
    duration = wavDuration fmt (wavAudio start size body.length)

/-- **An upload is its body.** -/
theorem inspectWav_iff (chunks : List (List UInt8)) (channels : ℕ) (duration : Option ℕ) :
    inspectWav chunks = .ok (channels, duration) ↔ WavBody chunks.flatten channels duration := by
  obtain ⟨hok, herror⟩ := WavInspector.fed chunks
  unfold inspectWav WavBody
  simp only [← parseAll_complete_iff]
  cases hfeed : Streaming.feedAll WavInspector.feed WavInspector.new chunks with
  | error e =>
    refine ⟨by rintro ⟨⟩, fun ⟨fmt, start, size, hparse, _⟩ => ?_⟩
    obtain ⟨_, ⟨e', he⟩ | ⟨_, next, fmt', hs⟩⟩ := herror e hfeed
    · cases he.symm.trans hparse
    · cases hs.symm.trans hparse
  | ok w =>
    show w.finish _ = _ ↔ _
    unfold WavInspector.finish
    rcases hok w hfeed with ⟨hfound, _, hlength, hparse⟩ | ⟨fmt, start, size, hfound, hparse⟩
    · rw [hfound]
      refine ⟨by rintro ⟨⟩, fun ⟨fmt, start, size, hcomplete, _⟩ => ?_⟩
      rw [List.take_of_length_le (by omega)] at hcomplete
      cases hparse.symm.trans hcomplete
    · rw [hfound]
      dsimp only
      constructor
      · intro h
        split at h
        · cases h
        · rename_i haudio
          obtain ⟨rfl, rfl⟩ := Prod.mk.inj (Except.ok.inj h)
          exact ⟨fmt, start, size, hparse, Nat.le_of_not_lt haudio, rfl, rfl⟩
      · rintro ⟨fmt', start', size', hparse', haudio, rfl, rfl⟩
        obtain ⟨rfl, rfl, rfl⟩ :=
          Walk.complete.inj (Except.ok.inj (hparse.symm.trans hparse'))
        rw [if_neg (Nat.not_lt.mpr haudio)]

/-- An upload that is refused is refused for its header. -/
theorem inspectWav_error {chunks : List (List UInt8)} {e : Failure}
    (h : inspectWav chunks = .error e) : ∃ text, e = .header text := by
  unfold inspectWav at h
  cases hfeed : Streaming.feedAll WavInspector.feed WavInspector.new chunks with
  | error e' =>
    rw [hfeed] at h
    obtain rfl := Except.error.inj h
    exact ((WavInspector.fed chunks).2 e' hfeed).1
  | ok w =>
    rw [hfeed] at h
    change w.finish _ = _ at h
    unfold WavInspector.finish at h
    split at h
    · exact ⟨_, (Except.error.inj h).symm⟩
    · dsimp only at h
      split at h
      · exact ⟨_, (Except.error.inj h).symm⟩
      · cases h

/-- A duration given is in bounds. -/
theorem wavDuration_le {fmt : WavFormat} {audio d : ℕ} (h : wavDuration fmt audio = some d) :
    d ≤ MAX_DURATION_MS := by
  unfold wavDuration at h
  by_cases hbound : ∃ d' ∈ (if bytesPerSecond fmt ≠ 0 then
      some (audio * 1000 / bytesPerSecond fmt) else none), MAX_DURATION_MS < d'
  · rw [if_pos hbound] at h
    cases h
  · rw [if_neg hbound] at h
    exact Nat.le_of_not_lt fun hlong => hbound ⟨d, h, hlong⟩

end Earshot.Inspection
