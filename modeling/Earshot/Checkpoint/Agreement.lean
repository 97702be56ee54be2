import Earshot.Checkpoint.Reading
import Earshot.Common.Run
/-!
# Writer and reader agree

What a writer reports and what a reader with its default settings reads are
the same entries (`Agrees`), as long as an entry is written whole and synced
exactly where the reader takes it, and a cap leaves room for the marker
(`Writer.Fair`). The writer itself checks neither: it appends after a
finalize, and beyond the reader's own frame bound.
-/

namespace Earshot

namespace Checkpoint

variable {α : Type} {C : CheckpointConfig α} {w w' : Writer α} {entry : JournalEntry α}
variable {frames : List Frame} {torn : Bytes} {fate marker : WriteFate}

/-! ## Writer and reader agree -/

/-- **The writer and the reader agree.** -/
structure Agrees (C : CheckpointConfig α) (w : Writer α) : Prop where
  /-- What was reported is read back, in order. -/
  read : C.readBack w.file = w.reported
  /-- Nothing is read after a finalize. -/
  terminal : Terminal (C.readBack w.file)
  /-- A journal that says it is complete dropped nothing before it said so. -/
  complete : ∀ replay, C.readBytes DEFAULT_MAX_FRAME_BYTES w.file = some replay →
    replay.finalize = some true → replay.tornTailBytes = 0 →
    ∀ n ∈ w.drops, w.reported.length ≤ n
  /-- What a cap dropped is told of, or the writer is degraded and nothing is
  finalized. -/
  capped : ∀ n ∈ w.capDrops,
    (∃ m reason, n ≤ m ∧ (C.readBack w.file)[m]? = some (.exhausted reason)) ∨
      w.degraded = true ∧ ∀ entry ∈ C.readBack w.file, entry.isFinalize = false

/-! ## The condition -/

/-- The write takes the whole frame. -/
def WriteFate.Whole (fate : WriteFate) (frame : Bytes) : Prop :=
  match fate.short with
  | none => True
  | some none => False
  | some (some written) => ¬ written < frame.length

/-- No `fsync` that is due fails. -/
def CheckpointConfig.Synced (C : CheckpointConfig α) (forceFsync : Bool) (fate : WriteFate) :
    Prop :=
  ((C.fsyncAlways || forceFsync) && fate.fsyncFails) = false

namespace Writer

/-- A reader would take this entry next, in a frame of this body. -/
def Readable (w : Writer α) (entry : JournalEntry α) (body : Bytes) : Prop :=
  w.finalized = false ∧ body.length ≤ DEFAULT_MAX_FRAME_BYTES ∧
    (w.sequence = 0 → entry.isOpened = true)

/-- What is written whole is synced exactly where a reader takes it. -/
def WriteFair (C : CheckpointConfig α) (w : Writer α) (entry : JournalEntry α) (forceFsync : Bool)
    (fate : WriteFate) (body frame : Bytes) : Prop :=
  fate.Whole frame → (C.Synced forceFsync fate ↔ w.Readable entry body)

/-- A cap is met before the journal says it is complete or exhausted, and the
marker has a frame. -/
def MarkerFair (C : CheckpointConfig α) (w : Writer α) (marker : WriteFate) : Prop :=
  w.finalized = false ∧ w.journalComplete = true ∧
    ∀ plaintext, C.codec.encode (.exhausted REASON_JOURNAL_FULL) = some plaintext →
      ∃ frame, encodeFrame (w.sequence + 1)
          (C.bodyOf w.journalId (w.sequence + 1) marker.nonce plaintext) C.maxFrameBytes =
            .ok frame ∧
        w.WriteFair C (.exhausted REASON_JOURNAL_FULL) true marker
          (C.bodyOf w.journalId (w.sequence + 1) marker.nonce plaintext) frame

/-- What an append that is tried has to meet. -/
def AppendFair (C : CheckpointConfig α) (w : Writer α) (entry : JournalEntry α)
    (forceFsync bypassCaps : Bool) (fate marker : WriteFate) : Prop :=
  w.descriptor = true → w.degraded = false → (w.journalComplete = true ∨ bypassCaps = true) →
    ∀ plaintext, C.codec.encode entry = some plaintext →
      match encodeFrame (w.sequence + 1)
          (C.bodyOf w.journalId (w.sequence + 1) fate.nonce plaintext) C.maxFrameBytes with
      | .error .length => w.journalComplete = true → w.finalized = true
      | .error .sequence | .error .tooLarge => w.MarkerFair C marker
      | .ok frame =>
          if (!bypassCaps && (C.maxJournalBytes < w.journalBytes + frame.length ||
              C.maxRecords ≤ w.sequence)) = true then w.MarkerFair C marker
          else w.WriteFair C entry forceFsync fate
            (C.bodyOf w.journalId (w.sequence + 1) fate.nonce plaintext) frame

def Fair (C : CheckpointConfig α) (w : Writer α) : Op α → Prop
  | .append append fate marker => w.AppendFair C append.entry false false fate marker
  | .finalize rest fate marker =>
      w.finalized = false →
        w.AppendFair C (.finalize w.journalComplete rest) true true fate marker
  | .fsyncFailed => True

end Writer

/-- The writer a journal is opened with, before its header. -/
def Writer.created (header : JournalOpen α) : Writer α :=
  { journalId := header.journalId
    descriptor := true
    file := []
    sequence := 0
    journalBytes := 0
    degraded := false
    journalComplete := true
    droppedRecords := 0
    finalized := false
    reported := []
    drops := []
    capDrops := [] }

/-- The header as it is journaled. -/
def JournalOpen.journaled (header : JournalOpen α) : JournalOpen α :=
  { header with journalFormatVersion := JOURNAL_FORMAT_VERSION }

/-- The same of the header's append. -/
def JournalOpen.Fair (C : CheckpointConfig α) (created : Bool) (header : JournalOpen α)
    (fate marker : WriteFate) : Prop :=
  created = true →
    (Writer.created header).AppendFair C (.opened header.journaled) true false fate marker

/-! ## The invariant -/

/-- What the file holds. -/
structure Filed (C : CheckpointConfig α) (w : Writer α) (frames : List Frame) (torn : Bytes) :
    Prop where
  file : w.file = encoded frames ++ torn
  numbered : Numbered DEFAULT_MAX_FRAME_BYTES 1 frames
  bodies : Bodies C w.journalId 1 frames w.reported
  headed : Headed w.journalId w.reported
  terminal : Terminal w.reported
  left : Left C DEFAULT_MAX_FRAME_BYTES (Reading.of w.journalId w.reported) (1 + frames.length)
    torn
  whole : w.degraded = false → torn = [] ∧ w.sequence = frames.length
  descriptor : w.descriptor = false → w.degraded = true

/-- What the writer knows of it. -/
structure Told (w : Writer α) : Prop where
  complete : w.finalized = false → w.journalComplete = true → w.drops = []
  finalized : w.finalized = w.reported.any JournalEntry.isFinalize
  drops : ∀ rest, .finalize true rest ∈ w.reported → ∀ n ∈ w.drops, w.reported.length ≤ n
  degraded : w.degraded = true → w.journalComplete = false

/-- What a cap dropped is told of. -/
def Capped (w : Writer α) : Prop :=
  ∀ n ∈ w.capDrops, (∃ m reason, n ≤ m ∧ w.reported[m]? = some (.exhausted reason)) ∨
    w.degraded = true ∧ w.finalized = false

/-- **The journal's invariant.** -/
structure Kept (C : CheckpointConfig α) (w : Writer α) : Prop where
  filed : ∃ frames torn, Filed C w frames torn
  told : Told w
  capped : Capped w

/-- **What is kept agrees.** -/
theorem Kept.agrees (h : Kept C w) : Agrees C w := by
  obtain ⟨⟨frames, torn, hfiled⟩, htold, hcapped⟩ := h
  have hread := readBytes_bodies hfiled.numbered hfiled.bodies hfiled.headed hfiled.terminal
    hfiled.left
  rw [← hfiled.file] at hread
  have hback : C.readBack w.file = w.reported := by
    unfold CheckpointConfig.readBack
    rcases hread with ⟨hnil, hnone⟩ | ⟨replay, hreplay, hentries, -⟩
    · rw [hnone, hnil]
    · rw [hreplay]
      exact hentries
  refine ⟨hback, hback.symm ▸ hfiled.terminal, ?_, ?_⟩
  · intro replay hreplay hfinalize _ n hn
    rcases hread with ⟨-, hnone⟩ | ⟨replay', hreplay', hentries, -⟩
    · rw [hnone] at hreplay
      cases hreplay
    · obtain rfl : replay' = replay := Option.some.inj (hreplay'.symm.trans hreplay)
      unfold JournalReplay.finalize at hfinalize
      split at hfinalize
      · next complete rest hlast =>
        obtain rfl := Option.some.inj hfinalize
        have hmem := List.mem_cons_of_mem (.opened replay'.header) (List.mem_of_getLast? hlast)
        rw [hentries] at hmem
        exact htold.drops rest hmem n hn
      · cases hfinalize
  · intro n hn
    rw [hback]
    rcases hcapped n hn with htells | ⟨hdegraded, hopen⟩
    · exact .inl htells
    · refine .inr ⟨hdegraded, fun entry hentry => ?_⟩
      rw [htold.finalized] at hopen
      simpa using List.any_eq_false.mp hopen entry hentry

/-! ## What an append comes to -/

/-- A journal whose writer failed, with what it left of the frame. -/
def Writer.failed (w : Writer α) (torn : Bytes) (sequence journalBytes : ℕ) : Writer α :=
  { w with
    file := w.file ++ torn
    sequence := sequence
    journalBytes := journalBytes
    drops := w.drops ++ [w.reported.length]
    degraded := true
    journalComplete := false }

/-- A journal with one more entry. -/
def Writer.wrote (w : Writer α) (entry : JournalEntry α) (frame : Bytes) : Writer α :=
  { w with
    file := w.file ++ frame
    sequence := w.sequence + 1
    journalBytes := w.journalBytes + frame.length
    reported := w.reported ++ [entry] }

theorem Writer.failLocked_eq (h : w.degraded = false) :
    w.failLocked = { w with degraded := true, journalComplete := false } := by
  unfold Writer.failLocked
  rw [h]
  rfl

/-- What is left of a frame that was cut short is none, to any reader. -/
theorem stops_of_prefix {frame : Frame} {bound maxFrameBytes sequence : ℕ}
    (hfits : frame.Fits bound sequence) (hcut : torn <+: frame.bytes) (hne : torn ≠ frame.bytes) :
    Stops maxFrameBytes sequence torn := by
  cases hsplit : splitFrame maxFrameBytes sequence torn with
  | error stop => exact .inr ⟨stop, hsplit⟩
  | ok split =>
    obtain ⟨other, rest⟩ := split
    obtain ⟨hother, hbytes⟩ := splitFrame_eq_ok_iff.mp hsplit
    have hwide : splitFrame MAX_SEQUENCE sequence torn = .ok (other, rest) :=
      splitFrame_eq_ok_iff.mpr
        ⟨⟨hother.sequence, hother.word, hother.length, hother.length⟩, hbytes⟩
    obtain ⟨stop, hstop⟩ : ∃ stop, splitFrame MAX_SEQUENCE sequence torn = .error stop :=
      splitFrame_of_prefix ⟨hfits.sequence, hfits.word, hfits.length, hfits.length⟩ hcut hne
    rw [hwide] at hstop
    cases hstop

/-- What becomes of a frame: it is not all there, or it is. -/
inductive Written (C : CheckpointConfig α) (w : Writer α) (entry : JournalEntry α) :
    Bool × Writer α → Prop
  | failed (torn : Bytes) (sequence journalBytes : ℕ) (healthy : w.degraded = false)
      (left : Left C DEFAULT_MAX_FRAME_BYTES (Reading.of w.journalId w.reported)
        (1 + w.sequence) torn) :
      Written C w entry (false, w.failed torn sequence journalBytes)
  | wrote (frame : Frame) (nonce plaintext : Bytes) (healthy : w.degraded = false)
      (nonceLength : nonce.length = AT_REST_NONCE_BYTES)
      (encodes : C.codec.encode entry = some plaintext)
      (body : frame.body = C.bodyOf w.journalId (w.sequence + 1) nonce plaintext)
      (fits : frame.Fits DEFAULT_MAX_FRAME_BYTES (w.sequence + 1))
      (unfinished : w.finalized = false) (heads : w.sequence = 0 → entry.isOpened = true) :
      Written C w entry (true, w.wrote entry frame.bytes)

/-- What an append comes to: it is refused, its frame is written, or a cap is
met. -/
inductive Tried (C : CheckpointConfig α) (w : Writer α) (entry : JournalEntry α)
    (marker : WriteFate) : Option (Bool × Writer α) → Prop
  | refused (droppedRecords : ℕ)
      (incomplete : w.finalized = false → w.journalComplete = false) :
      Tried C w entry marker
        (some (false, { w with
          droppedRecords := droppedRecords
          drops := w.drops ++ [w.reported.length] }))
  | written (result : Bool × Writer α) (written : Written C w entry result) :
      Tried C w entry marker (some result)
  | capped (healthy : w.degraded = false) (fair : w.MarkerFair C marker) :
      Tried C w entry marker none

/-- A frame that cannot be encoded fails the writer. -/
theorem Written.unencodable (hhealthy : w.degraded = false) :
    Written C w entry (false, w.drop.failLocked) := by
  rw [Writer.failLocked_eq (by exact hhealthy)]
  have hfailed : Written C w entry (false, w.failed [] w.sequence w.journalBytes) :=
    .failed [] w.sequence w.journalBytes hhealthy (left_of_stops (.inl rfl))
  unfold Writer.failed at hfailed
  rw [List.append_nil] at hfailed
  exact hfailed

/-- A reader takes nothing of a frame it would not take next. -/
theorem left_of_not_readable {plaintext : Bytes} {bound : ℕ} (hfiled : Filed C w frames torn)
    (htold : Told w) (hhealthy : w.degraded = false)
    (hencode : C.codec.encode entry = some plaintext)
    (hfits : Frame.Fits ⟨w.sequence + 1,
      C.bodyOf w.journalId (w.sequence + 1) fate.nonce plaintext⟩ bound (w.sequence + 1))
    (hnot : ¬ w.Readable entry (C.bodyOf w.journalId (w.sequence + 1) fate.nonce plaintext)) :
    Left C DEFAULT_MAX_FRAME_BYTES (Reading.of w.journalId w.reported) (1 + w.sequence)
      (Frame.bytes ⟨w.sequence + 1,
        C.bodyOf w.journalId (w.sequence + 1) fate.nonce plaintext⟩) := by
  rw [Nat.add_comm 1]
  cases hfinalized : w.finalized with
  | true => exact left_of_finalized (htold.finalized.symm.trans hfinalized) _
  | false =>
    by_cases hlarge : DEFAULT_MAX_FRAME_BYTES <
        (C.bodyOf w.journalId (w.sequence + 1) fate.nonce plaintext).length
    · exact left_of_stops (stops_of_tooLarge hfits hlarge)
    · have hfirst : w.sequence = 0 ∧ entry.isOpened = false := by
        by_cases hzero : w.sequence = 0
        · cases hopened : entry.isOpened with
          | false => exact ⟨hzero, rfl⟩
          | true => exact absurd ⟨hfinalized, by omega, fun _ => hopened⟩ hnot
        · exact absurd ⟨hfinalized, by omega, fun h => absurd h hzero⟩ hnot
      have hnil : w.reported = [] := by
        have hlength := hfiled.bodies.length_eq
        rw [← (hfiled.whole hhealthy).2, hfirst.1] at hlength
        exact List.length_eq_zero_iff.mp hlength.symm
      rw [hnil, ← List.append_nil (Frame.bytes _)]
      refine left_of_closed ⟨rfl, hfits.word, Nat.not_lt.mp hlarge, hfits.length⟩ ?_ []
      unfold CheckpointConfig.openBody Reading.of
      dsimp only
      rw [List.any_nil, hfirst.1, decrypt_bodyOf fate.nonce_length (fun h => absurd rfl h),
        Option.bind_some, C.codec.decode_encode _ _ hencode]
      cases entry with
      | opened header => cases hfirst.2
      | record | limit | operationOpen | exhausted | finalize => rfl

/-- **A frame that is tried** is there, or what is left of it is none. -/
theorem writeFrame_written {plaintext frame : Bytes} {forceFsync : Bool}
    (hfiled : Filed C w frames torn) (htold : Told w) (hhealthy : w.degraded = false)
    (hencode : C.codec.encode entry = some plaintext)
    (hframe : encodeFrame (w.sequence + 1)
      (C.bodyOf w.journalId (w.sequence + 1) fate.nonce plaintext) C.maxFrameBytes = .ok frame)
    (hfair : w.WriteFair C entry forceFsync fate
      (C.bodyOf w.journalId (w.sequence + 1) fate.nonce plaintext) frame) :
    Written C w entry (w.writeFrame C forceFsync fate entry frame) := by
  obtain ⟨-, hfits, rfl⟩ := encodeFrame_eq_ok_iff.mp hframe
  have hsync (hwhole : fate.Whole (Frame.bytes ⟨w.sequence + 1,
      C.bodyOf w.journalId (w.sequence + 1) fate.nonce plaintext⟩)) :
      Written C w entry (Writer.writeFrame.sync C forceFsync fate entry
        (Frame.bytes ⟨w.sequence + 1,
          C.bodyOf w.journalId (w.sequence + 1) fate.nonce plaintext⟩) w) := by
    unfold Writer.writeFrame.sync
    dsimp only
    split
    · next hfails =>
      have hnot : ¬ w.Readable entry
          (C.bodyOf w.journalId (w.sequence + 1) fate.nonce plaintext) := by
        intro hreadable
        have hsynced := (hfair hwhole).mpr hreadable
        rw [CheckpointConfig.Synced, hfails] at hsynced
        cases hsynced
      rw [Writer.failLocked_eq (by exact hhealthy)]
      exact .failed _ (w.sequence + 1) _ hhealthy
        (left_of_not_readable hfiled htold hhealthy hencode hfits hnot)
    · next hsynced =>
      obtain ⟨hopen, hbounded, hheads⟩ := (hfair hwhole).mp (eq_false_of_ne_true hsynced)
      exact .wrote ⟨w.sequence + 1, _⟩ fate.nonce plaintext hhealthy fate.nonce_length hencode
        rfl ⟨rfl, hfits.word, hbounded, hfits.length⟩ hopen hheads
  unfold Writer.writeFrame
  unfold WriteFate.Whole at hsync
  split
  · exact .unencodable hhealthy
  · next written hshort =>
    split
    · next hless =>
      rw [Writer.failLocked_eq (by exact hhealthy)]
      refine .failed (List.take written _) w.sequence _ hhealthy (left_of_stops ?_)
      rw [Nat.add_comm 1]
      refine stops_of_prefix hfits (List.take_prefix _ _) fun heq => ?_
      have hlength := congrArg List.length heq
      rw [List.length_take] at hlength
      omega
    · next hwhole =>
      rw [hshort] at hsync
      exact hsync hwhole
  · next hshort =>
    rw [hshort] at hsync
    exact hsync trivial

/-- **An entry that is tried**, one way or another. -/
theorem tryAppend_tried {forceFsync bypassCaps : Bool} (hfiled : Filed C w frames torn)
    (htold : Told w) (hfair : w.AppendFair C entry forceFsync bypassCaps fate marker) :
    Tried C w entry marker (w.tryAppend C entry forceFsync bypassCaps fate) := by
  unfold Writer.tryAppend
  split
  · next hclosed =>
    refine .refused w.droppedRecords fun _ => htold.degraded ?_
    cases hdegraded : w.degraded with
    | true => rfl
    | false =>
      rw [hdegraded, Bool.or_false, Bool.not_eq_true'] at hclosed
      rw [← hdegraded]
      exact hfiled.descriptor hclosed
  · next hopen =>
    obtain ⟨hdescriptor, hhealthy⟩ : w.descriptor = true ∧ w.degraded = false := by
      simpa using hopen
    split
    · next hincomplete =>
      refine .refused (w.droppedRecords + 1) fun _ => ?_
      simpa using (by simpa using hincomplete : w.journalComplete = false ∧ _).1
    · next hgoes =>
      have hcomplete : w.journalComplete = true ∨ bypassCaps = true := by
        cases hjournal : w.journalComplete with
        | true => exact .inl rfl
        | false =>
          right
          simpa [hjournal] using hgoes
      have hmeets := hfair hdescriptor hhealthy hcomplete
      split
      · exact .written _ (.unencodable hhealthy)
      · next plaintext hencode =>
        have hmeets := hmeets plaintext hencode
        split
        · next hframe =>
          rw [hframe] at hmeets
          refine .refused w.droppedRecords fun hfinalized => ?_
          cases hjournal : w.journalComplete with
          | false => rfl
          | true => exact absurd (hmeets hjournal) (by rw [hfinalized]; decide)
        · next hframe =>
          rw [hframe] at hmeets
          exact .capped hhealthy hmeets
        · next hframe =>
          rw [hframe] at hmeets
          exact .capped hhealthy hmeets
        · next frame hframe =>
          rw [hframe] at hmeets
          dsimp only at hmeets
          split
          · next hcap =>
            rw [if_pos hcap] at hmeets
            exact .capped hhealthy hmeets
          · next hcap =>
            rw [if_neg hcap] at hmeets
            exact .written _ (writeFrame_written hfiled htold hhealthy hencode hframe hmeets)

/-! ## What each outcome keeps -/

theorem Told.drops_append (h : Told w) (rest : α) (hmem : .finalize true rest ∈ w.reported) :
    ∀ n ∈ w.drops ++ [w.reported.length], w.reported.length ≤ n := by
  intro n hn
  rcases List.mem_append.mp hn with hn | hn
  · exact h.drops rest hmem n hn
  · have heq := List.mem_singleton.mp hn
    omega

theorem Kept.refused (h : Kept C w) (droppedRecords : ℕ)
    (hincomplete : w.finalized = false → w.journalComplete = false) :
    Kept C { w with
      droppedRecords := droppedRecords
      drops := w.drops ++ [w.reported.length] } := by
  obtain ⟨⟨frames, torn, hfiled⟩, htold, hcapped⟩ := h
  refine ⟨⟨frames, torn, hfiled.file, hfiled.numbered, hfiled.bodies, hfiled.headed,
    hfiled.terminal, hfiled.left, hfiled.whole, hfiled.descriptor⟩, ?_, hcapped⟩
  refine ⟨fun hfinalized hcomplete => ?_, htold.finalized, htold.drops_append, htold.degraded⟩
  have hjournal : w.journalComplete = true := hcomplete
  rw [hincomplete hfinalized] at hjournal
  cases hjournal

theorem Filed.failed {torn' : Bytes} {sequence journalBytes : ℕ} (h : Filed C w frames torn)
    (hhealthy : w.degraded = false)
    (hleft : Left C DEFAULT_MAX_FRAME_BYTES (Reading.of w.journalId w.reported) (1 + w.sequence)
      torn') : Filed C (w.failed torn' sequence journalBytes) frames torn' := by
  obtain ⟨rfl, hsequence⟩ := h.whole hhealthy
  refine ⟨?_, h.numbered, h.bodies, h.headed, h.terminal, hsequence ▸ hleft, ?_, ?_⟩
  · show w.file ++ torn' = _
    rw [h.file, List.append_nil]
  · intro hhealthy'
    cases hhealthy'
  · intro _
    rfl

theorem Told.failed {torn' : Bytes} {sequence journalBytes : ℕ} (h : Told w) :
    Told (w.failed torn' sequence journalBytes) := by
  refine ⟨fun _ hcomplete => ?_, h.finalized, h.drops_append, fun _ => rfl⟩
  cases hcomplete

theorem Capped.failed {torn' : Bytes} {sequence journalBytes : ℕ} (h : Capped w)
    (hhealthy : w.degraded = false) : Capped (w.failed torn' sequence journalBytes) := by
  intro n hn
  rcases h n hn with htells | ⟨hdegraded, -⟩
  · exact .inl htells
  · rw [hhealthy] at hdegraded
    cases hdegraded

theorem Headed.append {journalId : String} {reported : List (JournalEntry α)}
    (h : Headed journalId reported) (hfirst : reported = [] → entry.isOpened = true)
    (hheader : ∀ header, entry = .opened header → reported = [] ∧
      header.journalFormatVersion = JOURNAL_FORMAT_VERSION ∧ header.journalId = journalId) :
    Headed journalId (reported ++ [entry]) := by
  cases h with
  | none =>
    cases entry with
    | opened header =>
      obtain ⟨-, hversion, hid⟩ := hheader header rfl
      exact .cons header [] hversion hid (fun other hother => absurd hother (by simp))
    | _ => exact absurd (hfirst rfl) (by simp [JournalEntry.isOpened])
  | cons header entries hversion hid hrest =>
    refine .cons header (entries ++ [entry]) hversion hid fun other hother => ?_
    rcases List.mem_append.mp hother with hother | hother
    · exact hrest other hother
    · rw [List.mem_singleton.mp hother]
      cases entry with
      | opened header' => exact absurd (hheader header' rfl).1 (by simp)
      | _ => rfl

theorem Terminal.append {reported : List (JournalEntry α)}
    (h : reported.any JournalEntry.isFinalize = false) (entry : JournalEntry α) :
    Terminal (reported ++ [entry]) := by
  intro before other after heq hfinal
  rcases List.eq_nil_or_concat after with rfl | ⟨after', last, rfl⟩
  · rfl
  · exfalso
    -- the finalize stands among those before the last
    have hsplit : reported ++ [entry] = (before ++ other :: after') ++ [last] := by
      rw [heq, List.concat_eq_append]
      simp
    obtain ⟨hreported, -⟩ := List.append_inj' hsplit rfl
    have hmem : other ∈ reported := by
      rw [hreported]
      simp
    exact absurd hfinal (List.any_eq_false.mp h other hmem)

theorem Filed.wrote {frame : Frame} {nonce plaintext : Bytes} (h : Filed C w frames torn)
    (htold : Told w) (hhealthy : w.degraded = false) (hnonce : nonce.length = AT_REST_NONCE_BYTES)
    (hencode : C.codec.encode entry = some plaintext)
    (hbody : frame.body = C.bodyOf w.journalId (w.sequence + 1) nonce plaintext)
    (hfits : frame.Fits DEFAULT_MAX_FRAME_BYTES (w.sequence + 1)) (hopen : w.finalized = false)
    (hheads : w.sequence = 0 → entry.isOpened = true)
    (hheader : ∀ header, entry = .opened header → w.reported = [] ∧
      header.journalFormatVersion = JOURNAL_FORMAT_VERSION ∧ header.journalId = w.journalId) :
    Filed C (w.wrote entry frame.bytes) (frames ++ [frame]) [] := by
  obtain ⟨rfl, hsequence⟩ := h.whole hhealthy
  have hnumber : 1 + frames.length = w.sequence + 1 := by omega
  refine ⟨?_, ?_, ?_, ?_, ?_, left_of_stops (.inl rfl), ?_, h.descriptor⟩
  · show w.file ++ frame.bytes = _
    rw [h.file, encoded_append, List.append_nil, List.append_nil]
    simp
  · refine numbered_append.mpr ⟨h.numbered, ?_, trivial⟩
    rw [hnumber]
    exact hfits
  · refine h.bodies.append ⟨⟨nonce, plaintext, hnonce, hencode, ?_⟩, trivial⟩
    rw [hnumber]
    exact hbody
  · refine h.headed.append (fun hnil => hheads ?_) hheader
    have hlength := h.bodies.length_eq
    rw [hnil, List.length_nil] at hlength
    omega
  · exact .append (htold.finalized.symm.trans hopen) entry
  · intro _
    refine ⟨rfl, ?_⟩
    show w.sequence + 1 = _
    rw [hsequence, List.length_append]
    rfl

theorem Capped.wrote {frame : Bytes} (h : Capped w) (hhealthy : w.degraded = false) :
    Capped (w.wrote entry frame) := by
  intro n hn
  rcases h n hn with ⟨m, reason, hle, hm⟩ | ⟨hdegraded, -⟩
  · refine .inl ⟨m, reason, hle, ?_⟩
    show (w.reported ++ [entry])[m]? = _
    rw [List.getElem?_append_left (List.getElem?_eq_some_iff.mp hm).1]
    exact hm
  · rw [hhealthy] at hdegraded
    cases hdegraded

/-- An entry that is no finalize leaves the journal open. -/
theorem Told.wrote {frame : Bytes} (h : Told w) (hopen : w.finalized = false)
    (hentry : entry.isFinalize = false) : Told (w.wrote entry frame) := by
  refine ⟨h.complete, ?_, fun rest hmem => ?_, h.degraded⟩
  · show w.finalized = (w.reported ++ [entry]).any _
    rw [List.any_append, ← h.finalized, hopen, List.any_cons, hentry]
    rfl
  · have hfinal : (w.reported ++ [entry]).any JournalEntry.isFinalize = true :=
      List.any_eq_true.mpr ⟨_, hmem, rfl⟩
    rw [List.any_append, ← h.finalized, hopen, List.any_cons, hentry] at hfinal
    cases hfinal

/-! ## One append -/

/-- What is reported of an append that keeps the invariant: nothing, or its
entry. -/
structure Appended (C : CheckpointConfig α) (w : Writer α) (entry : JournalEntry α)
    (result : Bool × Writer α) : Prop where
  dropped : result.1 = false → Kept C result.2
  reported : result.1 = true → w.finalized = false ∧ w.degraded = false ∧
    ∃ frame frames, result.2 = w.wrote entry frame ∧ Filed C result.2 frames []

theorem Tried.appended {result : Bool × Writer α}
    (h : Tried C w entry marker (some result)) (hkept : Kept C w)
    (hheader : ∀ header, entry = .opened header → w.reported = [] ∧
      header.journalFormatVersion = JOURNAL_FORMAT_VERSION ∧ header.journalId = w.journalId) :
    Appended C w entry result := by
  have hkept' := hkept
  obtain ⟨⟨frames, torn, hfiled⟩, htold, hcapped⟩ := hkept'
  cases h with
  | refused droppedRecords hincomplete =>
    exact ⟨fun _ => hkept.refused droppedRecords hincomplete, fun h => absurd h Bool.false_ne_true⟩
  | written _ hwritten =>
    cases hwritten with
    | failed torn' sequence journalBytes hhealthy hleft =>
      exact ⟨fun _ => ⟨⟨frames, torn', hfiled.failed hhealthy hleft⟩, htold.failed,
        hcapped.failed hhealthy⟩, fun h => absurd h Bool.false_ne_true⟩
    | wrote frame nonce plaintext hhealthy hnonce hencode hbody hfits hopen hheads =>
      refine ⟨fun h => absurd h.symm Bool.false_ne_true, fun _ => ⟨hopen, hhealthy, frame.bytes,
        frames ++ [frame], rfl, ?_⟩⟩
      exact hfiled.wrote htold hhealthy hnonce hencode hbody hfits hopen hheads hheader

/-- The journal as the marker finds it. -/
def Writer.exhausted (w : Writer α) : Writer α :=
  { w with
    droppedRecords := w.droppedRecords + 1
    capDrops := w.capDrops ++ [w.reported.length]
    drops := w.drops ++ [w.reported.length]
    journalComplete := false }

/-- The marker is written, or fails the writer. -/
theorem exhausted_written (hfiled : Filed C w.exhausted frames torn) (htold : Told w.exhausted)
    (hhealthy : w.degraded = false) (hdescriptor : w.descriptor = true)
    (hfair : w.MarkerFair C marker) :
    ∃ result, Written C w.exhausted (.exhausted REASON_JOURNAL_FULL) result ∧
      w.exhaustLocked C marker = result.2 := by
  obtain ⟨hopen, hcomplete, hmarker⟩ := hfair
  have hstart : ∀ result, w.exhausted.tryAppend C (.exhausted REASON_JOURNAL_FULL) true true
      marker = some result → w.exhaustLocked C marker = result.2 := by
    intro result hresult
    unfold Writer.exhausted at hresult
    unfold Writer.exhaustLocked Writer.drop
    dsimp only
    rw [hcomplete, Bool.not_true, if_neg Bool.false_ne_true, hresult]
  have hgoes : ¬ (!w.exhausted.descriptor || w.exhausted.degraded) = true := by
    show ¬ (!w.descriptor || w.degraded) = true
    rw [hdescriptor, hhealthy]
    decide
  unfold Writer.tryAppend at hstart
  rw [if_neg hgoes, if_neg (by simp)] at hstart
  cases hencode : C.codec.encode (.exhausted REASON_JOURNAL_FULL) with
  | none =>
    rw [hencode] at hstart
    exact ⟨_, .unencodable hhealthy, hstart _ rfl⟩
  | some plaintext =>
    obtain ⟨frame, hframe, hwrite⟩ := hmarker plaintext hencode
    have hframe' : encodeFrame (w.exhausted.sequence + 1)
        (C.bodyOf w.exhausted.journalId (w.exhausted.sequence + 1) marker.nonce plaintext)
        C.maxFrameBytes = .ok frame := hframe
    rw [hencode] at hstart
    dsimp only at hstart
    rw [hframe'] at hstart
    dsimp only at hstart
    rw [if_neg (by simp)] at hstart
    exact ⟨_, writeFrame_written hfiled htold hhealthy hencode hframe' hwrite, hstart _ rfl⟩

/-- **A cap that is met is told of**, or the writer is degraded. -/
theorem exhaustLocked_kept (hkept : Kept C w) (hhealthy : w.degraded = false)
    (hdescriptor : w.descriptor = true) (hfair : w.MarkerFair C marker) :
    Kept C (w.exhaustLocked C marker) := by
  obtain ⟨⟨frames, torn, hfiled⟩, htold, hcapped⟩ := hkept
  have hfiled' : Filed C w.exhausted frames torn :=
    ⟨hfiled.file, hfiled.numbered, hfiled.bodies, hfiled.headed, hfiled.terminal, hfiled.left,
      hfiled.whole, hfiled.descriptor⟩
  have htold' : Told w.exhausted :=
    ⟨fun _ h => absurd h (by simp [Writer.exhausted]), htold.finalized, htold.drops_append,
      fun _ => rfl⟩
  obtain ⟨result, hwritten, hresult⟩ :=
    exhausted_written hfiled' htold' hhealthy hdescriptor hfair
  rw [hresult]
  cases hwritten with
  | failed torn' sequence journalBytes hhealthy' hleft =>
    exact ⟨⟨frames, torn', hfiled'.failed hhealthy' hleft⟩, htold'.failed,
      fun n hn => .inr ⟨rfl, hfair.1⟩⟩
  | wrote frame nonce plaintext hhealthy' hnonce hencode hbody hfits hopen hheads =>
    refine ⟨⟨_, _, hfiled'.wrote htold' hhealthy' hnonce hencode hbody hfits hopen hheads
      fun header h => ?_⟩, htold'.wrote hopen rfl, fun n hn => .inl ?_⟩
    · cases h
    · have hmarker (m : ℕ) (reason : String) (hm : w.reported[m]? = some (.exhausted reason)) :
          (w.reported ++ [.exhausted REASON_JOURNAL_FULL])[m]? = some (.exhausted reason) := by
        rw [List.getElem?_append_left (List.getElem?_eq_some_iff.mp hm).1]
        exact hm
      rcases List.mem_append.mp hn with hn | hn
      · rcases hcapped n hn with ⟨m, reason, hle, hm⟩ | ⟨hdegraded, -⟩
        · exact ⟨m, reason, hle, hmarker m reason hm⟩
        · rw [hhealthy] at hdegraded
          cases hdegraded
      · have heq := List.mem_singleton.mp hn
        refine ⟨w.reported.length, REASON_JOURNAL_FULL, by omega, ?_⟩
        show (w.reported ++ [_])[w.reported.length]? = _
        simp

/-- **One append keeps the invariant.** -/
theorem appendLocked_appended {forceFsync bypassCaps : Bool} (hkept : Kept C w)
    (hfair : w.AppendFair C entry forceFsync bypassCaps fate marker)
    (hheader : ∀ header, entry = .opened header → w.reported = [] ∧
      header.journalFormatVersion = JOURNAL_FORMAT_VERSION ∧ header.journalId = w.journalId) :
    Appended C w entry (w.appendLocked C entry forceFsync bypassCaps fate marker) := by
  obtain ⟨frames, torn, hfiled⟩ := hkept.filed
  have htried : Tried C w entry marker (w.tryAppend C entry forceFsync bypassCaps fate) :=
    tryAppend_tried hfiled hkept.told hfair
  unfold Writer.appendLocked
  cases hresult : w.tryAppend C entry forceFsync bypassCaps fate with
  | some result =>
    rw [hresult] at htried
    exact htried.appended hkept hheader
  | none =>
    rw [hresult] at htried
    cases htried with
    | capped hhealthy hmarker =>
      have hdescriptor : w.descriptor = true := by
        cases hdescriptor : w.descriptor with
        | true => rfl
        | false =>
          have hdegraded := hfiled.descriptor hdescriptor
          rw [hhealthy] at hdegraded
          cases hdegraded
      exact ⟨fun _ => exhaustLocked_kept hkept hhealthy hdescriptor hmarker,
        fun h => absurd h Bool.false_ne_true⟩

/-- An entry that is no finalize. -/
theorem Appended.kept {result : Bool × Writer α} (h : Appended C w entry result)
    (hkept : Kept C w) (hentry : entry.isFinalize = false) : Kept C result.2 := by
  cases hok : result.1 with
  | false => exact h.dropped hok
  | true =>
    obtain ⟨hopen, hhealthy, frame, frames, heq, hfiled⟩ := h.reported hok
    refine ⟨⟨frames, [], hfiled⟩, ?_, ?_⟩
    · rw [heq]
      exact hkept.told.wrote hopen hentry
    · rw [heq]
      exact hkept.capped.wrote hhealthy

/-- A finalize says what the writer knows. -/
theorem finalize_kept {rest : α} (hkept : Kept C w)
    (hfair : w.finalized = false →
      w.AppendFair C (.finalize w.journalComplete rest) true true fate marker) :
    Kept C (w.finalize C rest fate marker) := by
  unfold Writer.finalize
  split
  · exact hkept
  · next hgoes =>
    have hunfinished : w.finalized = false := by simpa using (by simpa using hgoes : _ ∧ _).2
    have happended := appendLocked_appended hkept (hfair hunfinished) fun header h => by cases h
    dsimp only
    split
    · next hok =>
      obtain ⟨hopen, hhealthy, frame, frames, heq, hfiled⟩ := happended.reported hok
      rw [heq] at hfiled ⊢
      refine ⟨⟨frames, [], hfiled.file, hfiled.numbered, hfiled.bodies, hfiled.headed,
        hfiled.terminal, hfiled.left, hfiled.whole, hfiled.descriptor⟩, ?_, ?_⟩
      · refine ⟨fun h => absurd h (by simp), ?_, fun rest' hmem n hn => ?_, hkept.told.degraded⟩
        · show true = (w.reported ++ [_]).any _
          simp [JournalEntry.isFinalize]
        · -- a finalize that says so was written with nothing dropped
          have hcomplete : w.journalComplete = true := by
            rcases List.mem_append.mp hmem with hmem | hmem
            · have hany : w.reported.any JournalEntry.isFinalize = true :=
                List.any_eq_true.mpr ⟨_, hmem, rfl⟩
              rw [← hkept.told.finalized, hopen] at hany
              cases hany
            · exact (JournalEntry.finalize.inj (List.mem_singleton.mp hmem)).1.symm
          have hn' : n ∈ w.drops := hn
          rw [hkept.told.complete hopen hcomplete] at hn'
          cases hn'
      · have hcapped : Capped (w.wrote (.finalize w.journalComplete rest) frame) :=
          hkept.capped.wrote hhealthy
        intro n hn
        rcases hcapped n hn with htells | ⟨hdegraded, -⟩
        · exact .inl htells
        · have hdegraded' : w.degraded = true := hdegraded
          rw [hhealthy] at hdegraded'
          cases hdegraded'
    · next hok => exact happended.dropped (eq_false_of_ne_true hok)

theorem failLocked_kept (hkept : Kept C w) : Kept C w.failLocked := by
  obtain ⟨⟨frames, torn, hfiled⟩, htold, hcapped⟩ := hkept
  cases hdegraded : w.degraded with
  | true =>
    unfold Writer.failLocked
    rw [if_pos hdegraded]
    exact ⟨⟨frames, torn, hfiled⟩, htold, hcapped⟩
  | false =>
    rw [Writer.failLocked_eq hdegraded]
    refine ⟨⟨frames, torn, hfiled.file, hfiled.numbered, hfiled.bodies, hfiled.headed,
      hfiled.terminal, hfiled.left, fun h => absurd h (by simp), fun _ => rfl⟩, ?_, ?_⟩
    · exact ⟨fun _ h => absurd h (by simp), htold.finalized, htold.drops, fun _ => rfl⟩
    · intro n hn
      rcases hcapped n hn with htells | ⟨hdegraded', -⟩
      · exact .inl htells
      · rw [hdegraded] at hdegraded'
        cases hdegraded'

/-- **One operation keeps the invariant.** -/
theorem step_kept {op : Writer.Op α} (hfair : w.Fair C op) (hkept : Kept C w) :
    Kept C (w.step C op) := by
  cases op with
  | append append fate marker =>
    have hfair' : w.AppendFair C append.entry false false fate marker := hfair
    refine (appendLocked_appended hkept hfair' fun header h => ?_).kept hkept ?_
    · cases append <;> cases h
    · cases append <;> rfl
  | finalize rest fate marker => exact finalize_kept hkept hfair
  | fsyncFailed => exact failLocked_kept hkept

/-- A journal just opened. -/
theorem openJournal_kept {created : Bool} {header : JournalOpen α}
    (hfair : header.Fair C created fate marker) :
    Kept C (Writer.openJournal C created header fate marker) := by
  have hnew (w : Writer α) (hfile : w.file = []) (hreported : w.reported = [])
      (hdrops : w.drops = []) (hcaps : w.capDrops = []) (hsequence : w.sequence = 0)
      (hfinalized : w.finalized = false) (hdescriptor : w.descriptor = false → w.degraded = true)
      (hdegraded : w.degraded = true → w.journalComplete = false) : Kept C w := by
    refine ⟨⟨[], [], ?_, trivial, ?_, ?_, ?_, left_of_stops (.inl rfl), ?_, hdescriptor⟩,
      ⟨fun _ _ => hdrops, ?_, ?_, hdegraded⟩, ?_⟩
    · rw [hfile]
      rfl
    · rw [hreported]
      trivial
    · rw [hreported]
      exact .none
    · rw [hreported]
      intro before entry after heq
      simp at heq
    · exact fun _ => ⟨rfl, hsequence⟩
    · rw [hreported, hfinalized]
      rfl
    · intro rest hmem
      rw [hreported] at hmem
      cases hmem
    · intro n hn
      rw [hcaps] at hn
      cases hn
  cases created with
  | false => exact hnew _ rfl rfl rfl rfl rfl rfl (fun _ => rfl) (fun _ => rfl)
  | true =>
    have hkept : Kept C (Writer.created header) :=
      hnew _ rfl rfl rfl rfl rfl rfl (fun h => by cases h) (fun h => by cases h)
    have happended := appendLocked_appended hkept (hfair rfl) fun header' h => by
      obtain rfl := JournalEntry.opened.inj h
      exact ⟨rfl, rfl, rfl⟩
    exact happended.kept hkept rfl

/-! ## Runs -/

/-- A writer's operations, one after the other. -/
def Writer.run (C : CheckpointConfig α) (w : Writer α) (ops : List (Writer.Op α)) : Writer α :=
  Transition.run (fun w op => some (w.step C op)) w ops

/-- **Writer and reader agree** in every state of a run whose operations are
all fair, whatever the caps and whatever writes fail. -/
theorem run_agrees (C : CheckpointConfig α) (created : Bool) (header : JournalOpen α)
    (fate marker : WriteFate) (ops : List (Writer.Op α))
    (hopened : header.Fair C created fate marker)
    (hfair : ∀ pre op post, ops = pre ++ op :: post →
      ((Writer.openJournal C created header fate marker).run C pre).Fair C op) :
    ∀ pre, pre <+: ops →
      Agrees C ((Writer.openJournal C created header fate marker).run C pre) := by
  rintro pre ⟨rest, rfl⟩
  refine Kept.agrees (Transition.run_induction_of_guarded
    (G := fun w op => w.Fair C op) (P := Kept C) ?_ pre _ ?_ (openJournal_kept hopened))
  · intro w op w' hfair hkept hstep
    obtain rfl := Option.some.inj hstep
    exact step_kept hfair hkept
  · intro pre' op post hpre
    exact hfair pre' op (post ++ rest) (by rw [hpre, List.append_assoc]; rfl)

/-! ## An append after the finalize -/

def sampleHeader : JournalOpen Unit :=
  { journalFormatVersion := JOURNAL_FORMAT_VERSION
    journalId := "j"
    sessionId := "s"
    bundleId := "b"
    rest := () }

/-- A codec for the entries of one journal. -/
def sampleCodec : EntryCodec Unit where
  encode
    | .opened header => if header = sampleHeader then some [0] else none
    | .record () => some [1]
    | .limit () => some [2]
    | .operationOpen () => some [3]
    | .exhausted reason => if reason = REASON_JOURNAL_FULL then some [4] else none
    | .finalize true () => some [5]
    | .finalize false () => some [6]
  decode
    | [0] => some (.opened sampleHeader)
    | [1] => some (.record ())
    | [2] => some (.limit ())
    | [3] => some (.operationOpen ())
    | [4] => some (.exhausted REASON_JOURNAL_FULL)
    | [5] => some (.finalize true ())
    | [6] => some (.finalize false ())
    | _ => none
  decode_encode := by
    intro entry body h
    split at h
    · split at h
      · next heq =>
        obtain rfl := Option.some.inj h
        rw [heq]
        rfl
      · cases h
    · obtain rfl := Option.some.inj h
      rfl
    · obtain rfl := Option.some.inj h
      rfl
    · obtain rfl := Option.some.inj h
      rfl
    · split at h
      · next heq =>
        obtain rfl := Option.some.inj h
        rw [heq]
        rfl
      · cases h
    · obtain rfl := Option.some.inj h
      rfl
    · obtain rfl := Option.some.inj h
      rfl

def sampleConfig : CheckpointConfig Unit :=
  { codec := sampleCodec
    cipher := none
    fsyncAlways := false
    maxJournalBytes := 1000
    maxRecords := 10
    maxFrameBytes := 100 }

/-- Everything is written and synced. -/
def quiet : WriteFate :=
  { short := none
    fsyncFails := false
    nonce := List.replicate AT_REST_NONCE_BYTES 0
    nonce_length := rfl }

/-- **What is appended after the finalize** is reported and never read back: an
operation that begins then. -/
theorem not_agrees_after_finalize :
    ¬ Agrees sampleConfig ((Writer.openJournal sampleConfig true sampleHeader quiet quiet).run
      sampleConfig [.finalize () quiet quiet, .append (.operationOpen ()) quiet quiet]) := by
  intro h
  have hread := h.read
  revert hread
  decide +kernel

/-- A cipher whose tag is the frame's sequence. -/
def maskCipher : Cipher where
  encrypt _ body aad := UInt8.ofNat aad.2 :: body.map (· ^^^ 90)
  decrypt _ body aad :=
    match body with
    | [] => none
    | tag :: body => if tag = UInt8.ofNat aad.2 then some (body.map (· ^^^ 90)) else none
  encrypt_ne_nil _ _ _ := List.cons_ne_nil _ _
  decrypt_encrypt nonce body aad := by
    dsimp only
    rw [if_pos rfl, List.map_map]
    refine congrArg some (List.map_id'' (fun byte => ?_) body)
    rw [Function.comp_apply, UInt8.xor_assoc, UInt8.xor_self, UInt8.xor_zero]

def encryptedConfig : CheckpointConfig Unit := { sampleConfig with cipher := some maskCipher }

/-- An encrypted journal of two entries that is finalized is read back whole. -/
theorem run_agrees_finalized :
    Agrees encryptedConfig
      ((Writer.openJournal encryptedConfig true sampleHeader quiet quiet).run encryptedConfig
        [.append (.record ()) quiet quiet, .append (.limit ()) quiet quiet,
          .finalize () quiet quiet]) := by
  refine run_agrees encryptedConfig true sampleHeader quiet quiet
    [.append (.record ()) quiet quiet, .append (.limit ()) quiet quiet, .finalize () quiet quiet]
    ?_ (Transition.guarded_iff.mp ⟨?_, ?_, ?_, trivial⟩) _ (List.prefix_refl _)
  · intro _ _ _ _ plaintext hencode
    obtain rfl : [0] = plaintext := Option.some.inj hencode
    exact fun _ => ⟨fun _ => ⟨rfl, by decide, fun _ => rfl⟩, fun _ => rfl⟩
  · intro _ _ _ plaintext hencode
    obtain rfl : [1] = plaintext := Option.some.inj hencode
    exact fun _ => ⟨fun _ => ⟨rfl, by decide, fun h => absurd h (by decide +kernel)⟩, fun _ => rfl⟩
  · intro _ _ _ plaintext hencode
    obtain rfl : [2] = plaintext := Option.some.inj hencode
    exact fun _ => ⟨fun _ => ⟨rfl, by decide, fun h => absurd h (by decide +kernel)⟩, fun _ => rfl⟩
  · intro _ _ _ _ plaintext hencode
    obtain rfl : [5] = plaintext := Option.some.inj hencode
    exact fun _ => ⟨fun _ => ⟨rfl, by decide, fun h => absurd h (by decide +kernel)⟩, fun _ => rfl⟩

end Checkpoint

end Earshot
