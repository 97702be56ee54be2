import Earshot.Checkpoint.Framing
import Mathlib.Data.List.Induction
/-!
# What a scan takes

A frame is split off exactly where its bytes stand (`splitFrame_eq_ok_iff`),
so a scan of frames followed by anything takes them first, and a scan of
anything takes a run of frames that encode to what it consumed. A frame cut
short is none, whatever it is cut from.
-/

namespace Earshot

variable {σ : Type} {maxBodyBytes expectedSequence : ℕ} {frame : Frame} {data rest : Bytes}

/-! ## One frame -/

/-- A frame a reader with this bound may meet where this number is expected. -/
structure Frame.Fits (frame : Frame) (maxBodyBytes sequence : ℕ) : Prop where
  sequence : frame.sequence = sequence
  word : frame.sequence ≤ MAX_SEQUENCE
  bounded : frame.body.length ≤ maxBodyBytes
  length : frame.body.length ≤ MAX_SEQUENCE

theorem Frame.length_bytes (frame : Frame) :
    frame.bytes.length = HEADER_SIZE + frame.body.length + CHECKSUM_SIZE := by
  simp only [Frame.bytes, List.length_cons, List.length_append, length_packU32, HEADER_SIZE,
    CHECKSUM_SIZE]

theorem Frame.bytes_ne_nil (frame : Frame) : frame.bytes ≠ [] := by
  simp [Frame.bytes]

/-- What is encoded is the frame's bytes, where the frame may be met. -/
theorem encodeFrame_eq_ok_iff {sequence : ℕ} {body bytes : Bytes} :
    encodeFrame sequence body maxBodyBytes = .ok bytes ↔
      1 ≤ sequence ∧ Frame.Fits ⟨sequence, body⟩ maxBodyBytes sequence ∧
        bytes = Frame.bytes ⟨sequence, body⟩ := by
  unfold encodeFrame
  constructor
  · intro h
    split at h
    · cases h
    · next hsequence =>
      split at h
      · cases h
      · split at h
        · cases h
        · have hbytes := Except.ok.inj h
          exact ⟨by omega, ⟨rfl, by show sequence ≤ _; omega, by show body.length ≤ _; omega,
            by show body.length ≤ _; omega⟩, hbytes.symm⟩
  · rintro ⟨hpos, hfits, rfl⟩
    have hword : sequence ≤ MAX_SEQUENCE := hfits.word
    have hbounded : body.length ≤ maxBodyBytes := hfits.bounded
    have hlength : body.length ≤ MAX_SEQUENCE := hfits.length
    rw [if_neg (by omega), if_neg (by omega), if_neg (by omega)]

/-- The parts of a frame that is followed by anything. -/
theorem Frame.parts (frame : Frame) (rest : Bytes) :
    (frame.bytes ++ rest).headD 0 = SEPARATOR ∧
      ((frame.bytes ++ rest).drop 1).take 4 = packU32 frame.sequence ∧
      ((frame.bytes ++ rest).drop 5).take 4 = packU32 frame.body.length ∧
      ((frame.bytes ++ rest).drop HEADER_SIZE).take frame.body.length = frame.body ∧
      ((frame.bytes ++ rest).drop (HEADER_SIZE + frame.body.length)).take CHECKSUM_SIZE =
        packU32 (crc32 frame.body) ∧
      (frame.bytes ++ rest).drop (HEADER_SIZE + frame.body.length + CHECKSUM_SIZE) = rest := by
  have hhead : (frame.bytes ++ rest).drop HEADER_SIZE =
      frame.body ++ (packU32 (crc32 frame.body) ++ rest) := by
    simp [Frame.bytes, packU32, HEADER_SIZE]
  refine ⟨by simp [Frame.bytes], by simp [Frame.bytes, packU32],
    by simp [Frame.bytes, packU32], ?_, ?_, ?_⟩
  · rw [hhead, List.take_left']
    rfl
  · rw [← List.drop_drop, hhead, List.drop_left' rfl, CHECKSUM_SIZE,
      List.take_left' (length_packU32 _)]
  · rw [Nat.add_assoc, ← List.drop_drop, hhead, ← List.drop_drop, List.drop_left' rfl,
      CHECKSUM_SIZE, List.drop_left' (length_packU32 _)]

/-- The bytes a header and a body are read from. -/
theorem eq_parts {length : ℕ} (hsize : HEADER_SIZE + length + CHECKSUM_SIZE ≤ data.length)
    (hseparator : data.headD 0 = SEPARATOR) :
    data = SEPARATOR :: (data.drop 1).take 4 ++ (data.drop 5).take 4 ++
      (data.drop HEADER_SIZE).take length ++
      (data.drop (HEADER_SIZE + length)).take CHECKSUM_SIZE ++
      data.drop (HEADER_SIZE + length + CHECKSUM_SIZE) := by
  have hcut (n m : ℕ) : data.drop n = (data.drop n).take m ++ data.drop (n + m) := by
    rw [← List.drop_drop, List.take_append_drop]
  cases data with
  | nil =>
      simp only [List.length_nil, HEADER_SIZE] at hsize
      omega
  | cons byte data =>
      have hbyte : byte = SEPARATOR := hseparator
      have hdrop := hcut 1 4
      rw [hcut 5 4, show 5 + 4 = HEADER_SIZE from rfl, hcut HEADER_SIZE length,
        hcut (HEADER_SIZE + length) CHECKSUM_SIZE] at hdrop
      rw [← hbyte]
      simp only [List.cons_append, List.append_assoc] at hdrop ⊢
      rw [List.drop_one, List.tail_cons] at hdrop
      rw [List.drop_one, List.tail_cons]
      exact congrArg (byte :: ·) hdrop

/-- **A frame is split off** exactly where its bytes stand. -/
theorem splitFrame_eq_ok_iff :
    splitFrame maxBodyBytes expectedSequence data = .ok (frame, rest) ↔
      frame.Fits maxBodyBytes expectedSequence ∧ data = frame.bytes ++ rest := by
  constructor
  · intro h
    unfold splitFrame at h
    split at h
    · cases h
    · dsimp only at h
      split at h
      · cases h
      · next hseparator =>
        split at h
        · cases h
        · next hbounded =>
          split at h
          · cases h
          · next hsize =>
            split at h
            · cases h
            · next hchecksum =>
              split at h
              · cases h
              · next hsequence =>
                rw [not_not] at hseparator hchecksum hsequence
                rw [Nat.not_lt] at hbounded hsize
                obtain ⟨length, hlength⟩ : ∃ length,
                    fromBigEndian ((data.drop 5).take 4) = length := ⟨_, rfl⟩
                rw [hlength] at hbounded hsize hchecksum h
                obtain ⟨hframe, hrest⟩ := Prod.mk.inj (Except.ok.inj h)
                have hbody : frame.body = (data.drop HEADER_SIZE).take length := by rw [← hframe]
                have hseq : frame.sequence = fromBigEndian ((data.drop 1).take 4) := by
                  rw [← hframe]
                have hsizes : HEADER_SIZE + length + CHECKSUM_SIZE ≤ data.length := hsize
                simp only [HEADER_SIZE, CHECKSUM_SIZE] at hsizes
                have hfour (n : ℕ) (hn : n + 4 ≤ data.length) :
                    ((data.drop n).take 4).length = 4 := by
                  rw [List.length_take, List.length_drop]
                  omega
                have hlen : frame.body.length = length := by
                  rw [hbody, List.length_take, List.length_drop, HEADER_SIZE]
                  omega
                have hword := fromBigEndian_lt (hfour 1 (by omega))
                have hlengthWord := fromBigEndian_lt (hfour 5 (by omega))
                rw [hlength] at hlengthWord
                refine ⟨⟨hseq.trans hsequence, ?_, by omega, ?_⟩, ?_⟩
                · rw [hseq, MAX_SEQUENCE]
                  omega
                · rw [hlen, MAX_SEQUENCE]
                  omega
                · have hsequenceBytes : packU32 frame.sequence = (data.drop 1).take 4 := by
                    rw [hseq, packU32_fromBigEndian (hfour 1 (by omega))]
                  have hlengthBytes : packU32 frame.body.length = (data.drop 5).take 4 := by
                    rw [hlen, ← hlength, packU32_fromBigEndian (hfour 5 (by omega))]
                  have hchecksumBytes : packU32 (crc32 frame.body) =
                      (data.drop (HEADER_SIZE + length)).take CHECKSUM_SIZE := by
                    rw [hbody, ← hchecksum]
                    exact packU32_fromBigEndian (hfour _ (by rw [HEADER_SIZE]; omega))
                  rw [Frame.bytes, hsequenceBytes, hlengthBytes, hchecksumBytes, hbody, ← hrest]
                  exact eq_parts hsize hseparator
  · rintro ⟨hfits, rfl⟩
    obtain ⟨hseparator, hsequence, hlength, hbody, hchecksum, hrest⟩ := frame.parts rest
    have hword := hfits.word
    have hlen := hfits.length
    have hbounded := hfits.bounded
    simp only [MAX_SEQUENCE] at hword hlen
    have hsize := frame.length_bytes
    unfold splitFrame
    rw [if_neg (by rw [List.length_append, hsize]; omega)]
    dsimp only
    rw [hseparator, hsequence, hlength, fromBigEndian_packU32 (by omega),
      fromBigEndian_packU32 (by omega), hbody, hchecksum, hrest,
      fromBigEndian_packU32 (crc32_lt _), if_neg (by simp), if_neg (by omega),
      if_neg (by rw [List.length_append, hsize]; omega), if_neg (by simp),
      if_neg (by simp [hfits.sequence])]

/-- A frame cut short is none. -/
theorem splitFrame_of_prefix {cut : Bytes} (hfits : frame.Fits maxBodyBytes expectedSequence)
    (hcut : cut <+: frame.bytes) (hne : cut ≠ frame.bytes) :
    ∃ stop, splitFrame maxBodyBytes expectedSequence cut = .error stop := by
  cases h : splitFrame maxBodyBytes expectedSequence cut with
  | error stop => exact ⟨stop, rfl⟩
  | ok split =>
      obtain ⟨other, rest⟩ := split
      obtain ⟨hother, hbytes⟩ := splitFrame_eq_ok_iff.mp h
      obtain ⟨tail, htail⟩ := hcut
      have hwhole : splitFrame maxBodyBytes expectedSequence frame.bytes = .ok (frame, []) :=
        splitFrame_eq_ok_iff.mpr ⟨hfits, by simp⟩
      have hagain : splitFrame maxBodyBytes expectedSequence frame.bytes =
          .ok (other, rest ++ tail) :=
        splitFrame_eq_ok_iff.mpr ⟨hother, by rw [← htail, hbytes, List.append_assoc]⟩
      rw [hwhole] at hagain
      have hnil : rest ++ tail = [] := (Prod.mk.inj (Except.ok.inj hagain)).2.symm
      rw [(List.append_eq_nil_iff.mp hnil).2, List.append_nil] at htail
      exact absurd htail hne

/-! ## Runs of frames -/

/-- Frames numbered from `sequence`, each of which may be met. -/
def Numbered (maxBodyBytes : ℕ) : ℕ → List Frame → Prop
  | _, [] => True
  | sequence, frame :: frames =>
      frame.Fits maxBodyBytes sequence ∧ Numbered maxBodyBytes (sequence + 1) frames

/-- Frames' bytes, one after the other. -/
def encoded (frames : List Frame) : Bytes := frames.flatMap Frame.bytes

@[simp] theorem encoded_nil : encoded [] = [] := rfl

@[simp] theorem encoded_cons (frame : Frame) (frames : List Frame) :
    encoded (frame :: frames) = frame.bytes ++ encoded frames := rfl

theorem encoded_append (frames frames' : List Frame) :
    encoded (frames ++ frames') = encoded frames ++ encoded frames' := List.flatMap_append

theorem Numbered.sequence {frames : List Frame} {first : ℕ} (h : Numbered maxBodyBytes first frames)
    (i : ℕ) (hi : i < frames.length) : frames[i].sequence = first + i := by
  induction frames generalizing first i with
  | nil => simp at hi
  | cons frame frames ih =>
    obtain ⟨hfits, hrest⟩ := h
    cases i with
    | zero => exact hfits.sequence
    | succ i =>
      rw [List.getElem_cons_succ, ih hrest i (by simpa using hi)]
      omega

theorem numbered_append {frames frames' : List Frame} {first : ℕ} :
    Numbered maxBodyBytes first (frames ++ frames') ↔
      Numbered maxBodyBytes first frames ∧
        Numbered maxBodyBytes (first + frames.length) frames' := by
  induction frames generalizing first with
  | nil => simp [Numbered]
  | cons frame frames ih =>
    simp only [List.cons_append, Numbered, ih, List.length_cons, and_assoc]
    rw [show first + 1 + frames.length = first + (frames.length + 1) by omega]

/-! ## The loop -/

section Loop

variable {openBody : σ → ℕ → Bytes → Option (σ × Bytes)} {state : σ} {first : ℕ}

/-- The scan of what is left. -/
def scanRest (maxBodyBytes : ℕ) (openBody : σ → ℕ → Bytes → Option (σ × Bytes)) (state : σ)
    (first : ℕ) (data : Bytes) : Scanning σ :=
  scanLoop maxBodyBytes openBody data.length state first data

/-- Every turn consumes a byte, so the fuel does not run out. -/
theorem scanLoop_eq_scanRest {fuel : ℕ} (h : data.length ≤ fuel) :
    scanLoop maxBodyBytes openBody fuel state first data =
      scanRest maxBodyBytes openBody state first data := by
  unfold scanRest
  suffices hall : ∀ fuel fuel' : ℕ, ∀ state first data, data.length ≤ fuel →
      data.length ≤ fuel' →
      scanLoop maxBodyBytes openBody fuel state first data =
        scanLoop maxBodyBytes openBody fuel' state first data from
    hall fuel data.length state first data h (Nat.le_refl _)
  intro fuel
  induction fuel with
  | zero =>
    intro fuel' state first data h h'
    have hnil : data = [] := List.eq_nil_of_length_eq_zero (by omega)
    subst hnil
    cases fuel' <;> rfl
  | succ fuel ih =>
    intro fuel' state first data h h'
    cases data with
    | nil => cases fuel' <;> rfl
    | cons byte data =>
      cases fuel' with
      | zero => simp at h'
      | succ fuel' =>
        unfold scanLoop
        cases hsplit : splitFrame maxBodyBytes first (byte :: data) with
        | error stop => rfl
        | ok split =>
          obtain ⟨frame, rest⟩ := split
          obtain ⟨-, hbytes⟩ := splitFrame_eq_ok_iff.mp hsplit
          have hlength := congrArg List.length hbytes
          rw [List.length_append, frame.length_bytes] at hlength
          simp only [HEADER_SIZE] at hlength
          dsimp only
          cases hopen : openBody state frame.sequence frame.body with
          | none => rfl
          | some opened =>
            obtain ⟨state', body⟩ := opened
            dsimp only
            rw [ih fuel' state' (first + 1) rest (by omega) (by omega)]

/-- **One turn**, where a frame stands. -/
theorem scanRest_frame (hfits : frame.Fits maxBodyBytes first) :
    scanRest maxBodyBytes openBody state first (frame.bytes ++ rest) =
      match openBody state frame.sequence frame.body with
      | none => ⟨[], frame.bytes ++ rest, some .unreadableBody, state⟩
      | some (state, body) =>
          let scanning := scanRest maxBodyBytes openBody state (first + 1) rest
          { scanning with frames := ⟨frame.sequence, body⟩ :: scanning.frames } := by
  have hsplit : splitFrame maxBodyBytes first (frame.bytes ++ rest) = .ok (frame, rest) :=
    splitFrame_eq_ok_iff.mpr ⟨hfits, rfl⟩
  have hlength : (frame.bytes ++ rest).length = frame.bytes.length + rest.length :=
    List.length_append
  have hpos : 0 < frame.bytes.length := List.length_pos_iff.mpr frame.bytes_ne_nil
  conv_lhs => unfold scanRest
  obtain ⟨fuel, hfuel⟩ : ∃ fuel, (frame.bytes ++ rest).length = fuel + 1 :=
    ⟨frame.bytes.length + rest.length - 1, by omega⟩
  rw [hfuel]
  cases hdata : frame.bytes ++ rest with
  | nil => exact absurd (List.append_eq_nil_iff.mp hdata).1 frame.bytes_ne_nil
  | cons byte data =>
    rw [hdata] at hsplit
    unfold scanLoop
    rw [hsplit]
    dsimp only
    cases hopen : openBody state frame.sequence frame.body with
    | none => rfl
    | some opened =>
      dsimp only
      rw [scanLoop_eq_scanRest (by omega)]

/-- The turn that ends it. -/
theorem scanRest_stop {stop : ScanStop} (hne : data ≠ [])
    (h : splitFrame maxBodyBytes first data = .error stop) :
    scanRest maxBodyBytes openBody state first data = ⟨[], data, some stop, state⟩ := by
  unfold scanRest
  cases data with
  | nil => exact absurd rfl hne
  | cons byte data =>
    rw [List.length_cons]
    unfold scanLoop
    rw [h]

end Loop

/-! ## A scan that opens nothing -/

section Plain

variable {first : ℕ}

/-- The scan of what is left, each body taken as it is. -/
def scanPlain (maxBodyBytes first : ℕ) (data : Bytes) : Scanning Unit :=
  scanRest maxBodyBytes (fun _ _ body => some ((), body)) () first data

theorem scanFrames_eq :
    scanFrames maxBodyBytes first data =
      ⟨(scanPlain maxBodyBytes first data).frames,
        data.length - (scanPlain maxBodyBytes first data).rest.length,
        (scanPlain maxBodyBytes first data).rest.length,
        (scanPlain maxBodyBytes first data).stopReason⟩ := rfl

/-- **Frames stand first**, so they are taken first. -/
theorem scanPlain_encoded {frames : List Frame} (h : Numbered maxBodyBytes first frames) :
    scanPlain maxBodyBytes first (encoded frames ++ rest) =
      { scanPlain maxBodyBytes (first + frames.length) rest with
        frames := frames ++ (scanPlain maxBodyBytes (first + frames.length) rest).frames } := by
  induction frames generalizing first with
  | nil => rfl
  | cons frame frames ih =>
    obtain ⟨hfits, hrest⟩ := h
    have hnumber : first + 1 + frames.length = first + (frame :: frames).length := by
      rw [List.length_cons]
      omega
    rw [encoded_cons, List.append_assoc]
    unfold scanPlain
    rw [scanRest_frame hfits]
    dsimp only
    have htail := ih hrest
    unfold scanPlain at htail
    rw [htail, hnumber]
    rfl

/-- What a scan leaves: nothing, or no frame. -/
def Stops (maxBodyBytes first : ℕ) (rest : Bytes) : Prop :=
  rest = [] ∨ ∃ stop, splitFrame maxBodyBytes first rest = .error stop

theorem scanPlain_stops (h : Stops maxBodyBytes first rest) :
    (scanPlain maxBodyBytes first rest).frames = [] ∧
      (scanPlain maxBodyBytes first rest).rest = rest := by
  rcases h with rfl | ⟨stop, hstop⟩
  · exact ⟨rfl, rfl⟩
  · cases hrest : rest with
    | nil => exact ⟨rfl, rfl⟩
    | cons byte tail =>
      rw [← hrest]
      unfold scanPlain
      rw [scanRest_stop (by rw [hrest]; simp) hstop]
      exact ⟨rfl, rfl⟩

/-- **Any bytes are frames, and what is none.** -/
theorem exists_encoded (maxBodyBytes first : ℕ) (data : Bytes) :
    ∃ frames rest, data = encoded frames ++ rest ∧ Numbered maxBodyBytes first frames ∧
      Stops maxBodyBytes (first + frames.length) rest := by
  induction hlength : data.length using Nat.strongRecOn generalizing first data with
  | _ length ih =>
    by_cases hnil : data = []
    · exact ⟨[], data, rfl, trivial, .inl hnil⟩
    · cases hsplit : splitFrame maxBodyBytes first data with
      | error stop => exact ⟨[], data, rfl, trivial, .inr ⟨stop, hsplit⟩⟩
      | ok split =>
        obtain ⟨frame, rest⟩ := split
        obtain ⟨hfits, hbytes⟩ := splitFrame_eq_ok_iff.mp hsplit
        have hpos : 0 < frame.bytes.length := List.length_pos_iff.mpr frame.bytes_ne_nil
        have hshorter : rest.length < length := by
          rw [← hlength, hbytes, List.length_append]
          omega
        obtain ⟨frames, tail, htail, hnumbered, hstops⟩ :=
          ih rest.length hshorter (first + 1) rest rfl
        refine ⟨frame :: frames, tail, ?_, ⟨hfits, hnumbered⟩, ?_⟩
        · rw [hbytes, htail, encoded_cons, List.append_assoc]
        · rw [List.length_cons, show first + (frames.length + 1) = first + 1 + frames.length by
            omega]
          exact hstops

/-- **A scan takes the frames, and leaves what is none.** -/
theorem scanFrames_spec {frames : List Frame} (hnumbered : Numbered maxBodyBytes first frames)
    (hstops : Stops maxBodyBytes (first + frames.length) rest) :
    (scanFrames maxBodyBytes first (encoded frames ++ rest)).frames = frames ∧
      (scanFrames maxBodyBytes first (encoded frames ++ rest)).consumedBytes =
        (encoded frames).length ∧
      (scanFrames maxBodyBytes first (encoded frames ++ rest)).tornTailBytes = rest.length := by
  obtain ⟨hframes, hrest⟩ := scanPlain_stops hstops
  rw [scanFrames_eq, scanPlain_encoded hnumbered]
  dsimp only
  rw [hframes, hrest, List.append_nil, List.length_append]
  exact ⟨rfl, by omega, rfl⟩

/-! ## Encoding and scanning -/

/-- The frames of bodies numbered from `sequence`. -/
def numberBodies : ℕ → List Bytes → List Frame
  | _, [] => []
  | sequence, body :: bodies => ⟨sequence, body⟩ :: numberBodies (sequence + 1) bodies

@[simp] theorem length_numberBodies (bodies : List Bytes) (sequence : ℕ) :
    (numberBodies sequence bodies).length = bodies.length := by
  induction bodies generalizing sequence with
  | nil => rfl
  | cons body bodies ih => simp [numberBodies, ih]

theorem take_numberBodies (bodies : List Bytes) (sequence m : ℕ) :
    (numberBodies sequence bodies).take m = numberBodies sequence (bodies.take m) := by
  induction bodies generalizing sequence m with
  | nil => simp [numberBodies]
  | cons body bodies ih =>
    cases m with
    | zero => rfl
    | succ m => simp [numberBodies, ih]

theorem Numbered.numberBodies_eq {frames : List Frame} (h : Numbered maxBodyBytes first frames) :
    numberBodies first (frames.map (·.body)) = frames := by
  induction frames generalizing first with
  | nil => rfl
  | cons frame frames ih =>
    obtain ⟨hfits, hrest⟩ := h
    rw [List.map_cons, numberBodies, ih hrest, ← hfits.sequence]

/-- Bodies are encoded where each may be met, as their frames' bytes. -/
theorem encodeFrames_eq_ok_iff {bodies : List Bytes} {bytes : Bytes} :
    encodeFrames maxBodyBytes first bodies = .ok bytes ↔
      (bodies ≠ [] → 1 ≤ first) ∧ Numbered maxBodyBytes first (numberBodies first bodies) ∧
        bytes = encoded (numberBodies first bodies) := by
  induction bodies generalizing first bytes with
  | nil =>
    constructor
    · rintro ⟨⟩
      exact ⟨fun h => absurd rfl h, trivial, rfl⟩
    · rintro ⟨-, -, rfl⟩
      rfl
  | cons body bodies ih =>
    unfold encodeFrames
    constructor
    · intro h
      cases hframe : encodeFrame first body maxBodyBytes with
      | error e =>
        rw [hframe] at h
        cases h
      | ok frame =>
        cases hframes : encodeFrames maxBodyBytes (first + 1) bodies with
        | error e =>
          rw [hframe, hframes] at h
          cases h
        | ok frames =>
          rw [hframe, hframes] at h
          obtain ⟨hpos, hfits, rfl⟩ := encodeFrame_eq_ok_iff.mp hframe
          obtain ⟨-, hnumbered, rfl⟩ := ih.mp hframes
          exact ⟨fun _ => hpos, ⟨hfits, hnumbered⟩, (Except.ok.inj h).symm⟩
    · rintro ⟨hpos, ⟨hfits, hnumbered⟩, rfl⟩
      have hframe := encodeFrame_eq_ok_iff.mpr ⟨hpos (by simp), hfits, rfl⟩
      have hframes := ih.mpr ⟨fun _ => by omega, hnumbered, rfl⟩
      rw [hframe, hframes]
      rfl

/-- Where a truncation falls: past some of the frames, within the next. -/
theorem exists_cut {frames : List Frame} (h : Numbered maxBodyBytes first frames) (k : ℕ) :
    ∃ m rest, m ≤ frames.length ∧ (encoded frames).take k = encoded (frames.take m) ++ rest ∧
      Stops maxBodyBytes (first + m) rest ∧ (encoded (frames.take m)).length ≤ k ∧
      (m < frames.length → k < (encoded (frames.take (m + 1))).length) := by
  induction frames generalizing first k with
  | nil =>
    refine ⟨0, [], Nat.le_refl _, by simp, .inl rfl, by simp, fun hlt => ?_⟩
    simp at hlt
  | cons frame frames ih =>
    obtain ⟨hfits, hrest⟩ := h
    by_cases hk : k < frame.bytes.length
    · refine ⟨0, frame.bytes.take k, Nat.zero_le _, ?_, .inr ?_, Nat.zero_le _, fun _ => ?_⟩
      · rw [encoded_cons, List.take_append_of_le_length (by omega)]
        rfl
      · refine splitFrame_of_prefix hfits (List.take_prefix _ _) fun heq => ?_
        have hlength := congrArg List.length heq
        rw [List.length_take] at hlength
        omega
      · simpa [encoded] using hk
    · obtain ⟨m, rest, hm, htake, hstops, hle, hlt⟩ := ih hrest (k - frame.bytes.length)
      refine ⟨m + 1, rest, by simpa using hm, ?_, ?_, ?_, ?_⟩
      · rw [encoded_cons, List.take_append, List.take_of_length_le (by omega), htake,
          List.take_succ_cons, encoded_cons, List.append_assoc]
      · rw [show first + (m + 1) = first + 1 + m by omega]
        exact hstops
      · rw [List.take_succ_cons, encoded_cons, List.length_append]
        omega
      · intro hless
        have hnext := hlt (by simpa using hless)
        rw [List.take_succ_cons, encoded_cons, List.length_append]
        omega

/-- **The maximal intact prefix, and nothing else.** Of encoded bodies cut
anywhere, the frames wholly contained are taken; of any bytes, what is taken
encodes to what was consumed, numbered from the first; and no byte that
follows takes a frame back. -/
theorem scan_maximal (maxBodyBytes : ℕ) :
    (∀ bodies bytes k, encodeFrames maxBodyBytes 1 bodies = .ok bytes →
      ∃ m ≤ bodies.length,
        (scanFrames maxBodyBytes 1 (bytes.take k)).frames = numberBodies 1 (bodies.take m) ∧
        encodeFrames maxBodyBytes 1 (bodies.take m) =
          .ok (bytes.take (scanFrames maxBodyBytes 1 (bytes.take k)).consumedBytes) ∧
        (scanFrames maxBodyBytes 1 (bytes.take k)).consumedBytes ≤ k ∧
        (∀ longer, m < bodies.length →
          encodeFrames maxBodyBytes 1 (bodies.take (m + 1)) = .ok longer → k < longer.length) ∧
        (scanFrames maxBodyBytes 1 (bytes.take k)).tornTailBytes =
          (bytes.take k).length - (scanFrames maxBodyBytes 1 (bytes.take k)).consumedBytes) ∧
    ∀ first data,
      encoded (scanFrames maxBodyBytes first data).frames =
          data.take (scanFrames maxBodyBytes first data).consumedBytes ∧
        (1 ≤ first →
          encodeFrames maxBodyBytes first
              ((scanFrames maxBodyBytes first data).frames.map (·.body)) =
            .ok (data.take (scanFrames maxBodyBytes first data).consumedBytes)) ∧
        (∀ i (hi : i < (scanFrames maxBodyBytes first data).frames.length),
          (scanFrames maxBodyBytes first data).frames[i].sequence = first + i) ∧
        (scanFrames maxBodyBytes first data).tornTailBytes =
          data.length - (scanFrames maxBodyBytes first data).consumedBytes ∧
        ∀ more, (scanFrames maxBodyBytes first data).frames <+:
          (scanFrames maxBodyBytes first (data ++ more)).frames := by
  constructor
  · intro bodies bytes k hbytes
    obtain ⟨-, hnumbered, rfl⟩ := encodeFrames_eq_ok_iff.mp hbytes
    obtain ⟨m, rest, hm, htake, hstops, hle, hlt⟩ := exists_cut hnumbered k
    rw [length_numberBodies] at hm hlt
    have hprefix : Numbered maxBodyBytes 1 ((numberBodies 1 bodies).take m) := by
      have hsplit := List.take_append_drop m (numberBodies 1 bodies)
      rw [← hsplit] at hnumbered
      exact (numbered_append.mp hnumbered).1
    have hlength : ((numberBodies 1 bodies).take m).length = m := by
      rw [List.length_take, length_numberBodies]
      omega
    obtain ⟨hframes, hconsumed, htorn⟩ := scanFrames_spec hprefix (hlength.symm ▸ hstops)
    rw [htake, hframes, hconsumed, htorn]
    rw [take_numberBodies] at hprefix htake hle ⊢
    refine ⟨m, hm, rfl, ?_, hle, fun longer hless hlonger => ?_, ?_⟩
    · refine encodeFrames_eq_ok_iff.mpr ⟨fun _ => Nat.le_refl _, hprefix, ?_⟩
      have hbytes : (encoded (numberBodies 1 bodies)).take
          (encoded (numberBodies 1 (bodies.take m))).length =
          ((encoded (numberBodies 1 bodies)).take k).take
            (encoded (numberBodies 1 (bodies.take m))).length := by
        rw [List.take_take, Nat.min_eq_left hle]
      rw [hbytes, htake, List.take_left]
    · obtain ⟨-, -, rfl⟩ := encodeFrames_eq_ok_iff.mp hlonger
      rw [← take_numberBodies]
      exact hlt hless
    · rw [List.length_append]
      omega
  · intro first data
    obtain ⟨frames, rest, rfl, hnumbered, hstops⟩ := exists_encoded maxBodyBytes first data
    obtain ⟨hframes, hconsumed, htorn⟩ := scanFrames_spec hnumbered hstops
    rw [hframes, hconsumed, htorn, List.take_left]
    refine ⟨rfl, fun hpos => ?_, fun i hi => hnumbered.sequence i hi, ?_, fun more => ?_⟩
    · refine encodeFrames_eq_ok_iff.mpr ⟨fun _ => hpos, ?_, ?_⟩
      · rw [hnumbered.numberBodies_eq]
        exact hnumbered
      · rw [hnumbered.numberBodies_eq]
    · rw [List.length_append]
      omega
    · rw [List.append_assoc, scanFrames_eq, scanPlain_encoded hnumbered]
      exact List.prefix_append _ _

/-- Two bodies, cut within the second frame: the first is taken, encoded
again, and still there when the rest arrives. -/
theorem scan_maximal_two :
    (∃ m ≤ 2, (scanFrames 8 1 ((encoded (numberBodies 1 [[7], [8, 9]])).take 20)).frames =
      numberBodies 1 ([[7], [8, 9]].take m)) ∧
    encodeFrames 8 1 ((scanFrames 8 1 (encoded (numberBodies 1 [[7]]))).frames.map (·.body)) =
      .ok ((encoded (numberBodies 1 [[7]])).take
        (scanFrames 8 1 (encoded (numberBodies 1 [[7]]))).consumedBytes) := by
  constructor
  · obtain ⟨m, hm, hframes, -⟩ := (scan_maximal 8).1 [[7], [8, 9]]
      (encoded (numberBodies 1 [[7], [8, 9]])) 20 (by decide +kernel)
    exact ⟨m, hm, hframes⟩
  · exact ((scan_maximal 8).2 1 (encoded (numberBodies 1 [[7]]))).2.1 (by decide)

end Plain

end Earshot
