import Earshot.Common.Run
import Earshot.Inspection.Bodies
/-!
# FLAC headers

The first 42 bytes of a streamed FLAC body: the signature, a block header and
the STREAMINFO block, which gives the channels, the rate and the samples.
-/

namespace Earshot.Inspection

/-- `_HEADER` -/
def FLAC_HEADER : ℕ := 42

/-- The bytes of `fLaC`. -/
def FLAC : List UInt8 := [102, 76, 97, 67]

/-- What STREAMINFO gives. -/
structure StreamInfo where
  sampleRate : ℕ
  channels : ℕ
  totalSamples : ℕ

/-- The fields of the packed word. -/
def streamInfo (packed : ℕ) : StreamInfo :=
  ⟨packed >>> 44, (packed >>> 41 &&& 7) + 1, packed &&& 68719476735⟩

/-- `FlacInspector`; the header is complete once its STREAMINFO is found. -/
structure FlacInspector where
  buffer : List UInt8
  found : Option StreamInfo

/-- The end of `feed`, once the buffer holds the header. -/
def readStreamInfo (buffer : List UInt8) : Except Failure StreamInfo := do
  let blockType ← unpackBig buffer 4 1
  let blockSize ← unpackBig buffer 5 3
  if blockType &&& 127 ≠ 0 ∨ blockSize ≠ 34 then
    .error (.header "the FLAC stream does not start with its STREAMINFO block")
  else do
    let packed ← unpackBig buffer 18 8
    let info := streamInfo packed
    if info.sampleRate = 0 then
      .error (.header "the FLAC STREAMINFO describes no audio")
    else if info.totalSamples = 0 then
      .error (.header "the FLAC STREAMINFO declares no samples")
    else return info

namespace FlacInspector

def new : FlacInspector := ⟨[], none⟩

/-- `feed` -/
def feed (w : FlacInspector) (chunk : List UInt8) : Except Failure FlacInspector :=
  if w.found.isSome = true ∨ chunk = [] then .ok w
  else
    let buffer := w.buffer ++ chunk.take (FLAC_HEADER - w.buffer.length)
    if 4 ≤ buffer.length ∧ buffer.take 4 ≠ FLAC then
      .error (.header "the body is not a FLAC stream")
    else if buffer.length < FLAC_HEADER then .ok { w with buffer := buffer }
    else (readStreamInfo buffer).bind fun info => .ok ⟨buffer, some info⟩

/-- `finish` and `duration_ms`; a rate of 0 would not divide. -/
def finish (w : FlacInspector) (total : ℕ) : Outcome :=
  match w.found with
  | none => .error (.header "the body ends before its FLAC header does")
  | some info =>
    if info.sampleRate = 0 then .error .other
    else .ok (info.channels, plausibleDurationMs
      (boundedDurationMs (info.totalSamples * 1000 / info.sampleRate)) total)

end FlacInspector

/-- An upload in chunks, and its end. -/
def inspectFlac (chunks : List (List UInt8)) : Outcome :=
  (Streaming.feedAll FlacInspector.feed FlacInspector.new chunks).bind fun w =>
    w.finish chunks.flatten.length

/-! ## The whole body -/

/-- **A FLAC header**: the signature, a STREAMINFO block header, and a
STREAMINFO that declares audio. -/
structure FlacHeader (body : List UInt8) (info : StreamInfo) : Prop where
  whole : FLAC_HEADER ≤ body.length
  signature : body.take 4 = FLAC
  blockType : beNat (slice body 4 1) &&& 127 = 0
  blockSize : beNat (slice body 5 3) = 34
  info_eq : info = streamInfo (beNat (slice body 18 8))
  sampleRate : info.sampleRate ≠ 0
  totalSamples : info.totalSamples ≠ 0

/-- **What a FLAC body holds**: the channels and the duration its STREAMINFO
declares, where the body can hold it. -/
def FlacBody (body : List UInt8) (channels : ℕ) (duration : Option ℕ) : Prop :=
  ∃ info, FlacHeader body info ∧ channels = info.channels ∧
    duration = plausibleDurationMs
      (boundedDurationMs (info.totalSamples * 1000 / info.sampleRate)) body.length

/-- A header is the first bytes of a body. -/
theorem flacHeader_take_iff {body : List UInt8} {info : StreamInfo} :
    FlacHeader (body.take FLAC_HEADER) info ↔ FlacHeader body info := by
  have hlength : FLAC_HEADER ≤ (body.take FLAC_HEADER).length ↔ FLAC_HEADER ≤ body.length := by
    rw [List.length_take]
    omega
  have htake : (body.take FLAC_HEADER).take 4 = body.take 4 := by
    rw [List.take_take]
    rfl
  have hslice : ∀ {offset count : ℕ}, offset + count ≤ FLAC_HEADER →
      slice (body.take FLAC_HEADER) offset count = slice body offset count := slice_take
  constructor
  · rintro ⟨h, hsignature, htype, hsize, hinfo, hrate, hsamples⟩
    rw [hslice (by decide)] at htype hsize hinfo
    exact ⟨hlength.mp h, htake ▸ hsignature, htype, hsize, hinfo, hrate, hsamples⟩
  · rintro ⟨h, hsignature, htype, hsize, hinfo, hrate, hsamples⟩
    refine ⟨hlength.mpr h, htake.trans hsignature, ?_, ?_, ?_, hrate, hsamples⟩
    · rw [hslice (by decide)]
      exact htype
    · rw [hslice (by decide)]
      exact hsize
    · rw [hslice (by decide)]
      exact hinfo

theorem flacHeader_append {body more : List UInt8} {info : StreamInfo}
    (h : FLAC_HEADER ≤ body.length) :
    FlacHeader (body ++ more) info ↔ FlacHeader body info := by
  rw [← flacHeader_take_iff, List.take_append_of_le_length h, flacHeader_take_iff]

/-- **STREAMINFO as the header has it.** -/
theorem readStreamInfo_iff {buffer : List UInt8} (hlength : FLAC_HEADER ≤ buffer.length)
    (hsignature : buffer.take 4 = FLAC) (info : StreamInfo) :
    readStreamInfo buffer = .ok info ↔ FlacHeader buffer info := by
  have hlong : 42 ≤ buffer.length := hlength
  unfold readStreamInfo
  rw [unpackBig_eq (by omega), unpackBig_eq (by omega), unpackBig_eq (by omega)]
  dsimp only [bind, Except.bind]
  constructor
  · intro h
    split at h
    · cases h
    rename_i hblock
    obtain ⟨htype, hsize⟩ := not_or.mp hblock
    split at h
    · cases h
    rename_i hrate
    split at h
    · cases h
    rename_i hsamples
    obtain rfl := Except.ok.inj h
    exact ⟨hlength, hsignature, not_not.mp htype, not_not.mp hsize, rfl, hrate, hsamples⟩
  · rintro ⟨_, _, htype, hsize, rfl, hrate, hsamples⟩
    rw [if_neg (by rintro (h | h); exacts [h htype, h hsize]), if_neg hrate, if_neg hsamples]
    rfl

theorem readStreamInfo_error {buffer : List UInt8} (hlength : FLAC_HEADER ≤ buffer.length)
    {e : Failure} (h : readStreamInfo buffer = .error e) : ∃ text, e = .header text := by
  have hlong : 42 ≤ buffer.length := hlength
  unfold readStreamInfo at h
  rw [unpackBig_eq (by omega), unpackBig_eq (by omega), unpackBig_eq (by omega)] at h
  dsimp only [bind, Except.bind] at h
  split at h
  · exact ⟨_, (Except.error.inj h).symm⟩
  split at h
  · exact ⟨_, (Except.error.inj h).symm⟩
  split at h
  · exact ⟨_, (Except.error.inj h).symm⟩
  · cases h

/-! ## Chunk by chunk -/

namespace FlacInspector

/-- **What an inspector holds**: the bytes so far, or the header they hold. -/
def Holds (bytes : List UInt8) (w : FlacInspector) : Prop :=
  (w.found = none ∧ w.buffer = bytes ∧ bytes.length < FLAC_HEADER) ∨
    ∃ info, w.found = some info ∧ FlacHeader bytes info

/-- **Why an inspector failed**: no body that starts with these bytes has a header. -/
def Fails (bytes : List UInt8) (e : Failure) : Prop :=
  (∃ text, e = .header text) ∧ ∀ more info, ¬ FlacHeader (bytes ++ more) info

/-- The bytes kept are the first of the body. -/
theorem buffer_eq {bytes chunk : List UInt8} (h : bytes.length < FLAC_HEADER) :
    bytes ++ chunk.take (FLAC_HEADER - bytes.length) = (bytes ++ chunk).take FLAC_HEADER := by
  rw [List.take_append, List.take_of_length_le (Nat.le_of_lt h)]

/-- **A chunk fed is read as if it had come with the bytes before.** -/
theorem holds_feed {w w' : FlacInspector} {bytes chunk : List UInt8} (hw : Holds bytes w)
    (h : w.feed chunk = .ok w') : Holds (bytes ++ chunk) w' := by
  unfold feed at h
  rcases hw with ⟨hfound, rfl, hlength⟩ | ⟨info, hfound, hheader⟩
  · split at h
    · rename_i hidle
      obtain rfl := Except.ok.inj h
      rcases hidle with h | rfl
      · rw [hfound] at h
        cases h
      · rw [List.append_nil]
        exact .inl ⟨hfound, rfl, hlength⟩
    dsimp only at h
    rw [buffer_eq hlength] at h
    split at h
    · cases h
    rename_i hsignature
    split at h
    · rename_i hshort
      obtain rfl := Except.ok.inj h
      have hwhole : (w.buffer ++ chunk).length < FLAC_HEADER := by
        rw [List.length_take] at hshort
        omega
      exact .inl ⟨hfound, List.take_of_length_le (Nat.le_of_lt hwhole), hwhole⟩
    · rename_i hlong
      have hlong := Nat.le_of_not_lt hlong
      have hsignature : ((w.buffer ++ chunk).take FLAC_HEADER).take 4 = FLAC :=
        not_not.mp fun hne => hsignature ⟨Nat.le_trans (by decide) hlong, hne⟩
      cases hread : readStreamInfo ((w.buffer ++ chunk).take FLAC_HEADER) with
      | error e =>
        rw [hread] at h
        cases h
      | ok info =>
        rw [hread] at h
        obtain rfl := Except.ok.inj h
        exact .inr ⟨info, rfl,
          flacHeader_take_iff.mp ((readStreamInfo_iff hlong hsignature info).mp hread)⟩
  · rw [if_pos (.inl (by rw [hfound]; rfl))] at h
    obtain rfl := Except.ok.inj h
    exact .inr ⟨info, hfound, (flacHeader_append hheader.whole).mpr hheader⟩

theorem fails_feed {w : FlacInspector} {bytes chunk : List UInt8} {e : Failure}
    (hw : Holds bytes w) (h : w.feed chunk = .error e) : Fails (bytes ++ chunk) e := by
  unfold feed at h
  rcases hw with ⟨hfound, rfl, hlength⟩ | ⟨info, hfound, hheader⟩
  · split at h
    · cases h
    dsimp only at h
    rw [buffer_eq hlength] at h
    split at h
    · -- The signature is not that of any longer body.
      rename_i hsignature
      refine ⟨⟨_, (Except.error.inj h).symm⟩, fun more info hheader => hsignature.2 ?_⟩
      have hfour : 4 ≤ (w.buffer ++ chunk).length := by
        have := hsignature.1
        rw [List.length_take] at this
        omega
      rw [List.take_take, show min 4 FLAC_HEADER = 4 from rfl,
        ← List.take_append_of_le_length hfour]
      exact hheader.signature
    rename_i hsignature
    split at h
    · cases h
    · rename_i hlong
      have hlong := Nat.le_of_not_lt hlong
      have hsignature : ((w.buffer ++ chunk).take FLAC_HEADER).take 4 = FLAC :=
        not_not.mp fun hne => hsignature ⟨Nat.le_trans (by decide) hlong, hne⟩
      cases hread : readStreamInfo ((w.buffer ++ chunk).take FLAC_HEADER) with
      | ok info =>
        rw [hread] at h
        cases h
      | error e' =>
        rw [hread] at h
        obtain rfl := Except.error.inj h
        refine ⟨readStreamInfo_error hlong hread, fun more info hheader => ?_⟩
        have hwhole : FLAC_HEADER ≤ (w.buffer ++ chunk).length := by
          rw [List.length_take] at hlong
          omega
        rw [flacHeader_append hwhole, ← flacHeader_take_iff,
          ← readStreamInfo_iff hlong hsignature] at hheader
        cases hread.symm.trans hheader
  · rw [if_pos (.inl (by rw [hfound]; rfl))] at h
    cases h

/-- A failure is for good. -/
theorem fails_append {bytes : List UInt8} {e : Failure} (h : Fails bytes e)
    (more : List UInt8) : Fails (bytes ++ more) e := by
  refine ⟨h.1, fun more' info => ?_⟩
  rw [List.append_assoc]
  exact h.2 _ info

/-- What is held of an upload, or why it failed. -/
theorem fed (chunks : List (List UInt8)) :
    (∀ w, Streaming.feedAll feed new chunks = .ok w → Holds chunks.flatten w) ∧
      ∀ e, Streaming.feedAll feed new chunks = .error e → Fails chunks.flatten e :=
  Streaming.feedAll_spec (fun _ _ _ _ hw h => holds_feed hw h)
    (fun _ _ _ _ hw h => fails_feed hw h) (fun _ _ h => fails_append h)
    (.inl ⟨rfl, rfl, by decide⟩) chunks

end FlacInspector

/-! ## The outcome -/

/-- **An upload is its body.** -/
theorem inspectFlac_iff (chunks : List (List UInt8)) (channels : ℕ) (duration : Option ℕ) :
    inspectFlac chunks = .ok (channels, duration) ↔
      FlacBody chunks.flatten channels duration := by
  obtain ⟨hok, herror⟩ := FlacInspector.fed chunks
  unfold inspectFlac FlacBody
  cases hfeed : Streaming.feedAll FlacInspector.feed FlacInspector.new chunks with
  | error e =>
    refine ⟨by rintro ⟨⟩, fun ⟨info, hheader, _⟩ => ?_⟩
    have := (herror e hfeed).2 [] info
    rw [List.append_nil] at this
    exact absurd hheader this
  | ok w =>
    show w.finish _ = _ ↔ _
    unfold FlacInspector.finish
    rcases hok w hfeed with ⟨hfound, _, hlength⟩ | ⟨info, hfound, hheader⟩
    · rw [hfound]
      refine ⟨by rintro ⟨⟩, fun ⟨info, hheader, _⟩ => ?_⟩
      exact absurd hheader.whole (Nat.not_le.mpr hlength)
    · rw [hfound]
      dsimp only
      rw [if_neg hheader.sampleRate]
      constructor
      · intro h
        obtain ⟨rfl, rfl⟩ := Prod.mk.inj (Except.ok.inj h)
        exact ⟨info, hheader, rfl, rfl⟩
      · rintro ⟨info', hheader', rfl, rfl⟩
        obtain rfl := hheader.info_eq.trans hheader'.info_eq.symm
        rfl

/-- An upload that is refused is refused for its header. -/
theorem inspectFlac_error {chunks : List (List UInt8)} {e : Failure}
    (h : inspectFlac chunks = .error e) : ∃ text, e = .header text := by
  unfold inspectFlac at h
  cases hfeed : Streaming.feedAll FlacInspector.feed FlacInspector.new chunks with
  | error e' =>
    rw [hfeed] at h
    obtain rfl := Except.error.inj h
    exact ((FlacInspector.fed chunks).2 e' hfeed).1
  | ok w =>
    rw [hfeed] at h
    change w.finish _ = _ at h
    unfold FlacInspector.finish at h
    rcases (FlacInspector.fed chunks).1 w hfeed with ⟨hfound, _, _⟩ | ⟨info, hfound, hheader⟩
    · rw [hfound] at h
      exact ⟨_, (Except.error.inj h).symm⟩
    · rw [hfound] at h
      dsimp only at h
      rw [if_neg hheader.sampleRate] at h
      cases h

end Earshot.Inspection
