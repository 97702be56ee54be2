import Earshot.Checkpoint.Journal
import Earshot.Checkpoint.Scans
/-!
# What a reader makes of a journal

Frames whose bodies are entries' (`Bodies`) are read back as the entries,
under the writer's key, up to what follows them that is no frame.
-/

namespace Earshot

namespace Checkpoint

variable {α : Type} {C : CheckpointConfig α} {frames : List Frame} {entries : List (JournalEntry α)}
variable {maxFrameBytes sequence : ℕ} {journalId : String} {torn : Bytes} {frame : Frame}

/-- The frames of entries, numbered from `sequence`. -/
def Bodies (C : CheckpointConfig α) (journalId : String) :
    ℕ → List Frame → List (JournalEntry α) → Prop
  | _, [], [] => True
  | sequence, frame :: frames, entry :: entries =>
      (∃ nonce plaintext, nonce.length = AT_REST_NONCE_BYTES ∧
        C.codec.encode entry = some plaintext ∧
        frame.body = C.bodyOf journalId sequence nonce plaintext) ∧
        Bodies C journalId (sequence + 1) frames entries
  | _, _, _ => False

theorem Bodies.length_eq (h : Bodies C journalId sequence frames entries) :
    frames.length = entries.length := by
  induction frames generalizing sequence entries with
  | nil =>
    cases entries with
    | nil => rfl
    | cons entry entries => exact h.elim
  | cons frame frames ih =>
    cases entries with
    | nil => exact h.elim
    | cons entry entries => exact congrArg (· + 1) (ih h.2)

theorem Bodies.append {entry : JournalEntry α}
    (h : Bodies C journalId sequence frames entries)
    (hframe : Bodies C journalId (sequence + frames.length) [frame] [entry]) :
    Bodies C journalId sequence (frames ++ [frame]) (entries ++ [entry]) := by
  induction frames generalizing sequence entries with
  | nil =>
    cases entries with
    | nil => exact hframe
    | cons other entries => exact h.elim
  | cons other frames ih =>
    cases entries with
    | nil => exact h.elim
    | cons first entries =>
      refine ⟨h.1, ih h.2 ?_⟩
      rw [List.length_cons] at hframe
      rw [show sequence + 1 + frames.length = sequence + (frames.length + 1) by omega]
      exact hframe

/-- What was encrypted for a place is decrypted there. -/
theorem decrypt_bodyOf {known : Option String} {nonce plaintext : Bytes}
    (hnonce : nonce.length = AT_REST_NONCE_BYTES)
    (hknown : sequence ≠ 1 → known = some journalId) :
    C.decrypt known sequence (C.bodyOf journalId sequence nonce plaintext) = some plaintext := by
  unfold CheckpointConfig.decrypt CheckpointConfig.bodyOf
  cases C.cipher with
  | none => rfl
  | some cipher =>
    dsimp only
    have hne := cipher.encrypt_ne_nil nonce plaintext (frameAad journalId sequence)
    have hlength := List.length_pos_iff.mpr hne
    have haad : frameAad (known.getD "") sequence = frameAad journalId sequence := by
      unfold frameAad
      by_cases hone : sequence = 1
      · rw [if_pos hone, if_pos hone]
      · rw [hknown hone]
        rfl
    have hid : ¬ (1 < sequence ∧ known.isNone) := by
      rintro ⟨hlt, hnone⟩
      rw [hknown (by omega)] at hnone
      cases hnone
    rw [if_neg (by rw [List.length_append]; omega), if_neg hid, ← hnonce, List.take_left,
      List.drop_left, haad]
    exact cipher.decrypt_encrypt _ _ _

/-- Only the last is a finalize. -/
def Terminal (entries : List (JournalEntry α)) : Prop :=
  ∀ before entry after, entries = before ++ entry :: after → entry.isFinalize = true → after = []

theorem Terminal.tail {entry : JournalEntry α} (h : Terminal (entry :: entries)) :
    Terminal entries := by
  intro before other after heq
  exact h (entry :: before) other after (by rw [heq]; rfl)

/-! ## What is left -/

/-- A reader that has come this far takes nothing more. -/
def Left (C : CheckpointConfig α) (maxFrameBytes : ℕ) (reading : Reading α) (sequence : ℕ)
    (torn : Bytes) : Prop :=
  (scanRest maxFrameBytes C.openBody reading sequence torn).rest = torn ∧
    (scanRest maxFrameBytes C.openBody reading sequence torn).state = reading

theorem left_of_stops {reading : Reading α} (h : Stops maxFrameBytes sequence torn) :
    Left C maxFrameBytes reading sequence torn := by
  rcases h with rfl | ⟨stop, hstop⟩
  · exact ⟨rfl, rfl⟩
  · by_cases hnil : torn = []
    · subst hnil
      exact ⟨rfl, rfl⟩
    · unfold Left
      rw [scanRest_stop hnil hstop]
      exact ⟨rfl, rfl⟩

/-- No frame whose body cannot be opened is taken. -/
theorem left_of_closed {reading : Reading α} (hfits : frame.Fits maxFrameBytes sequence)
    (hclosed : C.openBody reading frame.sequence frame.body = none) (rest : Bytes) :
    Left C maxFrameBytes reading sequence (frame.bytes ++ rest) := by
  unfold Left
  rw [scanRest_frame hfits, hclosed]
  exact ⟨rfl, rfl⟩

/-- Nothing is taken after a finalize. -/
theorem left_of_finalized {reading : Reading α} (h : reading.finalized = true) (torn : Bytes) :
    Left C maxFrameBytes reading sequence torn := by
  cases hsplit : splitFrame maxFrameBytes sequence torn with
  | error stop => exact left_of_stops (.inr ⟨stop, hsplit⟩)
  | ok split =>
    obtain ⟨frame, rest⟩ := split
    obtain ⟨hfits, rfl⟩ := splitFrame_eq_ok_iff.mp hsplit
    refine left_of_closed hfits ?_ rest
    unfold CheckpointConfig.openBody
    rw [if_pos h]

/-- A frame too large for a reader is none to it. -/
theorem stops_of_tooLarge {written : ℕ} (hfits : frame.Fits written sequence)
    (hlarge : maxFrameBytes < frame.body.length) : Stops maxFrameBytes sequence frame.bytes := by
  cases hsplit : splitFrame maxFrameBytes sequence frame.bytes with
  | error stop => exact .inr ⟨stop, hsplit⟩
  | ok split =>
    obtain ⟨other, rest⟩ := split
    obtain ⟨hother, hbytes⟩ := splitFrame_eq_ok_iff.mp hsplit
    -- both are what a reader with no bound of its own splits off
    have hwide : splitFrame MAX_SEQUENCE sequence frame.bytes = .ok (frame, []) :=
      splitFrame_eq_ok_iff.mpr
        ⟨⟨hfits.sequence, hfits.word, hfits.length, hfits.length⟩, (List.append_nil _).symm⟩
    have hwide' : splitFrame MAX_SEQUENCE sequence frame.bytes = .ok (other, rest) :=
      splitFrame_eq_ok_iff.mpr
        ⟨⟨hother.sequence, hother.word, hother.length, hother.length⟩, hbytes⟩
    rw [hwide] at hwide'
    have heq : frame = other := congrArg Prod.fst (Except.ok.inj hwide')
    have hbounded := hother.bounded
    rw [← heq] at hbounded
    omega

/-! ## The entries -/

/-- **The entries are read back**, past the header. -/
theorem scanRest_bodies {decoded : List (JournalEntry α)}
    (hnumbered : Numbered maxFrameBytes sequence frames)
    (hbodies : Bodies C journalId sequence frames entries) (hsequence : 2 ≤ sequence)
    (hleft : Left C maxFrameBytes
      ⟨decoded ++ entries, some journalId, entries.any JournalEntry.isFinalize⟩
      (sequence + frames.length) torn)
    (hopened : ∀ entry ∈ entries, entry.isOpened = false) (hterminal : Terminal entries) :
    (scanRest maxFrameBytes C.openBody ⟨decoded, some journalId, false⟩ sequence
        (encoded frames ++ torn)).rest = torn ∧
      (scanRest maxFrameBytes C.openBody ⟨decoded, some journalId, false⟩ sequence
        (encoded frames ++ torn)).state.decoded = decoded ++ entries := by
  induction frames generalizing sequence entries decoded with
  | nil =>
    cases entries with
    | cons entry entries => exact hbodies.elim
    | nil =>
      rw [List.append_nil] at hleft ⊢
      exact ⟨hleft.1, congrArg Reading.decoded hleft.2⟩
  | cons frame frames ih =>
    cases entries with
    | nil => exact hbodies.elim
    | cons entry entries =>
      obtain ⟨⟨nonce, plaintext, hnonce, hencode, hbody⟩, hrest⟩ := hbodies
      obtain ⟨hfits, hnumbered⟩ := hnumbered
      have hopen : C.openBody ⟨decoded, some journalId, false⟩ frame.sequence frame.body =
          some (⟨decoded ++ [entry], some journalId, entry.isFinalize⟩, plaintext) := by
        unfold CheckpointConfig.openBody
        rw [hbody, hfits.sequence, decrypt_bodyOf hnonce (fun _ => rfl),
          Option.bind_some, C.codec.decode_encode _ _ hencode]
        have hnot : entry.isOpened = false := hopened entry (by simp)
        obtain ⟨n, rfl⟩ : ∃ n, sequence = n + 2 := ⟨sequence - 2, by omega⟩
        cases entry with
        | opened header => cases hnot
        | record | limit | operationOpen | exhausted | finalize => rfl
      have hlength : sequence + (frame :: frames).length = sequence + 1 + frames.length := by
        rw [List.length_cons]
        omega
      rw [hlength] at hleft
      rw [encoded_cons, List.append_assoc, scanRest_frame hfits, hopen]
      dsimp only
      cases hfinal : entry.isFinalize with
      | true =>
        have hnil : entries = [] := hterminal [] entry entries rfl hfinal
        subst hnil
        rw [List.any_cons, hfinal] at hleft
        cases frames with
        | cons other frames => exact hrest.elim
        | nil => exact ⟨hleft.1, congrArg Reading.decoded hleft.2⟩
      | false =>
        rw [List.any_cons, hfinal, Bool.false_or] at hleft
        have hleft' : Left C maxFrameBytes ⟨(decoded ++ [entry]) ++ entries, some journalId,
            entries.any JournalEntry.isFinalize⟩ (sequence + 1 + frames.length) torn := by
          rw [List.append_assoc]
          exact hleft
        have htail := ih hnumbered hrest (by omega) hleft'
          (fun other hother => hopened other (List.mem_cons_of_mem _ hother)) hterminal.tail
        rw [htail.1, htail.2, List.append_assoc]
        exact ⟨rfl, rfl⟩

/-- A header, and no other. -/
inductive Headed (journalId : String) : List (JournalEntry α) → Prop
  | none : Headed journalId []
  | cons (header : JournalOpen α) (entries : List (JournalEntry α))
      (version : header.journalFormatVersion = JOURNAL_FORMAT_VERSION)
      (id : header.journalId = journalId)
      (rest : ∀ entry ∈ entries, entry.isOpened = false) :
      Headed journalId (.opened header :: entries)

/-- Where a reader stands that has taken these. -/
def Reading.of (journalId : String) (entries : List (JournalEntry α)) : Reading α :=
  ⟨entries, if entries = [] then none else some journalId, entries.any JournalEntry.isFinalize⟩

/-- What a reader with its default settings reads back. -/
def CheckpointConfig.readBack (C : CheckpointConfig α) (data : Bytes) : List (JournalEntry α) :=
  match C.readBytes DEFAULT_MAX_FRAME_BYTES data with
  | none => []
  | some replay => .opened replay.header :: replay.entries

/-- The replay of what a scan decodes. -/
theorem readBytes_of_decoded {header : JournalOpen α} {data : Bytes}
    (h : (scanRest maxFrameBytes C.openBody ⟨[], none, false⟩ 1 data).state.decoded =
      .opened header :: entries) :
    ∃ replay, C.readBytes maxFrameBytes data = some replay ∧ replay.header = header ∧
      replay.entries = entries ∧ replay.tornTailBytes =
        (scanRest maxFrameBytes C.openBody ⟨[], none, false⟩ 1 data).rest.length := by
  unfold CheckpointConfig.readBytes scanFramesWith
  unfold scanRest at h ⊢
  dsimp only
  rw [h]
  exact ⟨_, rfl, rfl, rfl, rfl⟩

/-- **A journal is read back**: its entries, and the length of what follows
them. -/
theorem readBytes_bodies {reported : List (JournalEntry α)}
    (hnumbered : Numbered maxFrameBytes 1 frames) (hbodies : Bodies C journalId 1 frames reported)
    (hheaded : Headed journalId reported) (hterminal : Terminal reported)
    (hleft : Left C maxFrameBytes (Reading.of journalId reported) (1 + frames.length) torn) :
    (reported = [] ∧ C.readBytes maxFrameBytes (encoded frames ++ torn) = none) ∨
      ∃ replay, C.readBytes maxFrameBytes (encoded frames ++ torn) = some replay ∧
        .opened replay.header :: replay.entries = reported ∧
        replay.tornTailBytes = torn.length := by
  cases hheaded with
  | none =>
    cases frames with
    | cons frame frames => exact hbodies.elim
    | nil =>
      left
      refine ⟨rfl, ?_⟩
      have hdecoded : (scanRest maxFrameBytes C.openBody ⟨[], none, false⟩ 1
          (encoded [] ++ torn)).state.decoded = [] := congrArg Reading.decoded hleft.2
      unfold CheckpointConfig.readBytes scanFramesWith
      unfold scanRest at hdecoded
      dsimp only
      rw [hdecoded]
  | cons header entries hversion hid hopened =>
    cases frames with
    | nil => exact hbodies.elim
    | cons frame frames =>
      right
      obtain ⟨⟨nonce, plaintext, hnonce, hencode, hbody⟩, hrest⟩ := hbodies
      obtain ⟨hfits, hnumbered⟩ := hnumbered
      have hopen : C.openBody ⟨[], none, false⟩ frame.sequence frame.body =
          some (⟨[.opened header], some journalId, false⟩, plaintext) := by
        unfold CheckpointConfig.openBody
        rw [hbody, hfits.sequence, decrypt_bodyOf hnonce (fun h => absurd rfl h),
          Option.bind_some, C.codec.decode_encode _ _ hencode, ← hid]
        exact if_pos hversion
      have hlength : 1 + (frame :: frames).length = 1 + 1 + frames.length := by
        rw [List.length_cons]
        omega
      rw [hlength] at hleft
      have hleft' : Left C maxFrameBytes ⟨[.opened header] ++ entries, some journalId,
          entries.any JournalEntry.isFinalize⟩ (1 + 1 + frames.length) torn := hleft
      obtain ⟨hscan, hdecoded⟩ := scanRest_bodies hnumbered hrest (Nat.le_refl _) hleft' hopened
        hterminal.tail
      have hfirst : (scanRest maxFrameBytes C.openBody ⟨[], none, false⟩ 1
            (encoded (frame :: frames) ++ torn)).rest = torn ∧
          (scanRest maxFrameBytes C.openBody ⟨[], none, false⟩ 1
            (encoded (frame :: frames) ++ torn)).state.decoded = .opened header :: entries := by
        rw [encoded_cons, List.append_assoc, scanRest_frame hfits, hopen]
        exact ⟨hscan, hdecoded⟩
      obtain ⟨replay, hread, rfl, rfl, htorn⟩ := readBytes_of_decoded hfirst.2
      exact ⟨replay, hread, rfl, hfirst.1 ▸ htorn⟩

end Checkpoint

end Earshot
