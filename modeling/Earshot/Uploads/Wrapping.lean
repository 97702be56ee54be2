import Earshot.Uploads.Cues
/-!
# Wrapping cues

The rows under a cue's timing may be wrapped otherwise at their spaces: the
cue says the same, and so does the file (`vttLines_rewrapped`). Only the
numbers of rows change, and only errors name them.
-/

namespace Earshot.Uploads

open Checked

variable {python : Python} {defaultSpeaker : Option Text} {number number' : ℕ}
variable {rows rows' payload payload' after after' : List Text} {row timing : Text}
variable {lines out : List UploadedLine} {read : Option UploadedLine} {c : Char}

/-! ## Joined rows -/

theorem joinRows_append (hpayload : payload ≠ []) (hrows : rows ≠ []) :
    joinRows (payload ++ rows) = joinRows payload ++ ' ' :: joinRows rows := by
  induction payload with
  | nil => exact absurd rfl hpayload
  | cons row payload ih =>
    by_cases hnil : payload = []
    · subst hnil
      rw [List.singleton_append, joinRows_cons row hrows, joinRows, List.intercalate_singleton]
    · rw [List.cons_append, joinRows_cons row (List.append_ne_nil_of_left_ne_nil hnil _),
        joinRows_cons row hnil, ih hnil, List.append_assoc, List.cons_append]

theorem mem_joinRows_of_mem (hrow : row ∈ rows) (hc : c ∈ row) : c ∈ joinRows rows := by
  induction rows with
  | nil => exact absurd hrow List.not_mem_nil
  | cons other rows ih =>
    by_cases hrows : rows = []
    · subst hrows
      obtain rfl := List.mem_singleton.mp hrow
      rwa [joinRows, List.intercalate_singleton]
    · rw [joinRows_cons other hrows]
      rcases List.mem_cons.mp hrow with rfl | hrow
      · exact List.mem_append_left _ hc
      · exact List.mem_append_right _ (List.mem_cons_of_mem _ (ih hrow))

/-- A row of a cue's text says something. -/
theorem joinRows_ne_nil (hpayload : ∀ row ∈ payload, isPayload row = true) (hne : payload ≠ []) :
    joinRows payload ≠ [] := by
  obtain ⟨row, rest, rfl⟩ := List.exists_cons_of_ne_nil hne
  intro hjoined
  have hrow : row = [] := List.eq_nil_iff_forall_not_mem.mpr fun c hc => by
    have hmem : c ∈ joinRows (row :: rest) := mem_joinRows_of_mem List.mem_cons_self hc
    rw [hjoined] at hmem
    exact List.not_mem_nil hmem
  subst hrow
  exact absurd (hpayload [] List.mem_cons_self) (by decide)

/-- Rows that are joined the same before others are joined the same with
them. -/
theorem joinRows_append_congr (hpayload : ∀ row ∈ payload, isPayload row = true)
    (hpayload' : ∀ row ∈ payload', isPayload row = true)
    (h : joinRows payload = joinRows payload') :
    joinRows (payload ++ rows) = joinRows (payload' ++ rows) := by
  by_cases hrows : rows = []
  · rw [hrows, List.append_nil, List.append_nil, h]
  · by_cases hne : payload = []
    · subst hne
      have hnil : payload' = [] := by
        by_contra hne'
        exact joinRows_ne_nil hpayload' hne' h.symm
      rw [hnil]
    · have hne' : payload' ≠ [] := by
        rintro rfl
        exact joinRows_ne_nil hpayload hne h
      rw [joinRows_append hne hrows, joinRows_append hne' hrows, h]

/-! ## Rows wrapped otherwise -/

/-- The rows, with the text under some timings wrapped otherwise. -/
inductive Rewrapped : List Text → List Text → Prop
  | nil : Rewrapped [] []
  | row (row : Text) {rows rows' : List Text} :
      Rewrapped rows rows' → Rewrapped (row :: rows) (row :: rows')
  | cue {timing : Text} {payload payload' rows rows' : List Text} :
      hasArrow timing = true → (∀ row ∈ payload, isPayload row = true) →
        (∀ row ∈ payload', isPayload row = true) → joinRows payload = joinRows payload' →
        Rewrapped rows rows' →
        Rewrapped (timing :: (payload ++ rows)) (timing :: (payload' ++ rows'))

theorem mem_of_partitionArrow {text : Text} (h : (partitionArrow text).isSome = true) :
    '-' ∈ text := by
  fun_induction partitionArrow text with
  | case1 => exact List.mem_cons_self
  | case2 c rest _ ih =>
    rw [Option.isSome_map] at h
    exact List.mem_cons_of_mem _ (ih h)
  | case3 => cases h

theorem isBlank_of_hasArrow (h : hasArrow row = true) : isBlank row = false := by
  rw [isBlank, List.all_eq_false]
  exact ⟨'-', mem_of_partitionArrow h, by decide⟩

theorem not_isPayload_of_hasArrow (h : hasArrow row = true) : isPayload row = false := by
  rw [isPayload, h, Bool.not_true, Bool.and_false]

theorem not_isBlank_of_isPayload (h : isPayload row = true) : (!isBlank row) = true :=
  (Bool.and_eq_true_iff.mp h).1

namespace Rewrapped

theorem refl (rows : List Text) : Rewrapped rows rows := by
  induction rows with
  | nil => exact Rewrapped.nil
  | cons row rows ih => exact Rewrapped.row row ih

/-- Past rows that are not blank. -/
theorem skipped (h : Rewrapped rows rows') :
    Rewrapped (rows.dropWhile fun row => !isBlank row)
      (rows'.dropWhile fun row => !isBlank row) := by
  induction h with
  | nil => exact Rewrapped.nil
  | row row h ih =>
    rw [List.dropWhile_cons, List.dropWhile_cons]
    split
    · exact ih
    · exact Rewrapped.row row h
  | cue harrow hpayload hpayload' _ _ ih =>
    rw [List.dropWhile_cons_of_pos (by rw [isBlank_of_hasArrow harrow]; rfl),
      List.dropWhile_cons_of_pos (by rw [isBlank_of_hasArrow harrow]; rfl),
      List.dropWhile_append_of_pos fun row hrow => not_isBlank_of_isPayload (hpayload row hrow),
      List.dropWhile_append_of_pos fun row hrow => not_isBlank_of_isPayload (hpayload' row hrow)]
    exact ih

/-- The text of a cue that goes on is wrapped as it was, up to the next timing. -/
theorem wrapped (h : Rewrapped rows rows') :
    rows.takeWhile isPayload = rows'.takeWhile isPayload ∧
      Rewrapped (rows.dropWhile isPayload) (rows'.dropWhile isPayload) := by
  induction h with
  | nil => exact ⟨rfl, Rewrapped.nil⟩
  | row row h ih =>
    rw [List.takeWhile_cons, List.takeWhile_cons, List.dropWhile_cons, List.dropWhile_cons]
    split
    · exact ⟨congrArg (row :: ·) ih.1, ih.2⟩
    · exact ⟨rfl, Rewrapped.row row h⟩
  | cue harrow hpayload hpayload' hjoin h _ =>
    have hnot := Bool.eq_false_iff.mp (not_isPayload_of_hasArrow harrow)
    rw [List.takeWhile_cons_of_neg hnot, List.takeWhile_cons_of_neg hnot,
      List.dropWhile_cons_of_neg hnot, List.dropWhile_cons_of_neg hnot]
    exact ⟨rfl, Rewrapped.cue harrow hpayload hpayload' hjoin h⟩

/-- What follows a row, and what a timing's cue says. -/
theorem cons (h : Rewrapped (row :: rows) rows') :
    ∃ rest, rows' = row :: rest ∧ (hasArrow row = false → Rewrapped rows rest) ∧
      joinRows (rows.takeWhile isPayload) = joinRows (rest.takeWhile isPayload) ∧
      Rewrapped (rows.dropWhile isPayload) (rest.dropWhile isPayload) := by
  cases h with
  | row _ h => exact ⟨_, rfl, fun _ => h, congrArg joinRows h.wrapped.1, h.wrapped.2⟩
  | cue harrow hpayload hpayload' hjoin h =>
    refine ⟨_, rfl, fun hnot => absurd harrow (Bool.eq_false_iff.mp hnot), ?_, ?_⟩
    · rw [List.takeWhile_append_of_pos hpayload, List.takeWhile_append_of_pos hpayload',
        h.wrapped.1]
      exact joinRows_append_congr hpayload hpayload' hjoin
    · rw [List.dropWhile_append_of_pos hpayload, List.dropWhile_append_of_pos hpayload']
      exact h.wrapped.2

/-- No character is new but the blank. -/
theorem plain (h : Rewrapped rows rows') (hplain : ∀ row ∈ rows, ∀ c ∈ row, isControl c = false) :
    ∀ row ∈ rows', ∀ c ∈ row, isControl c = false := by
  induction h with
  | nil => exact hplain
  | row row _ ih =>
    obtain ⟨hrow, hrest⟩ := List.forall_mem_cons.mp hplain
    exact List.forall_mem_cons.mpr ⟨hrow, ih hrest⟩
  | cue _ _ _ hjoin _ ih =>
    obtain ⟨htiming, hrest⟩ := List.forall_mem_cons.mp hplain
    obtain ⟨hpayload, hrows⟩ := List.forall_mem_append.mp hrest
    refine List.forall_mem_cons.mpr ⟨htiming, List.forall_mem_append.mpr ⟨?_, ih hrows⟩⟩
    intro row hrow c hc
    have hmem := mem_joinRows_of_mem hrow hc
    rw [← hjoin] at hmem
    rcases mem_joinRows hmem with rfl | ⟨other, hother, hc⟩
    · decide
    · exact hpayload other hother c hc

end Rewrapped

/-! ## Cues -/

theorem milliseconds_number {value : Text} {n : ℕ} (number' : ℕ)
    (h : milliseconds python value number = .ok n) : milliseconds python value number' = .ok n := by
  unfold milliseconds at h ⊢
  split at h
  · cases h
  · dsimp only at h ⊢
    split at h
    · cases h
    · rename_i hlength
      rwa [if_neg hlength]

theorem cueTimes_number {times : ℕ × ℕ} (number' : ℕ)
    (h : cueTimes python row number = .ok times) : cueTimes python row number' = .ok times := by
  obtain ⟨startMs, hstart, h⟩ := bind_eq_ok.mp h
  obtain ⟨endMs, hend, h⟩ := bind_eq_ok.mp h
  refine bind_eq_ok.mpr ⟨startMs, milliseconds_number number' hstart,
    bind_eq_ok.mpr ⟨endMs, milliseconds_number number' hend, ?_⟩⟩
  split at h
  · cases h
  · rename_i hle
    rwa [if_neg hle]

/-- What a cue says is told by its rows joined. -/
theorem cueLine_congr {startMs endMs : ℕ} (number' : ℕ)
    (hjoin : joinRows payload = joinRows payload')
    (h : cueLine python payload startMs endMs number defaultSpeaker = .ok read) :
    cueLine python payload' startMs endMs number' defaultSpeaker = .ok read := by
  unfold cueLine at h ⊢
  rw [hjoin] at h
  obtain ⟨raw, hraw, h⟩ := bind_eq_ok.mp h
  refine bind_eq_ok.mpr ⟨raw, hraw, ?_⟩
  dsimp only at h ⊢
  split at h
  · rename_i hnil
    rwa [if_pos hnil]
  · rename_i hne
    rw [if_neg hne]
    split at h
    · split at h
      · rename_i hname
        rwa [if_pos hname]
      · cases h
    · exact h
    · exact h
    · cases h

theorem cue_congr (number' : ℕ)
    (hjoin : joinRows (after.takeWhile isPayload) = joinRows (after'.takeWhile isPayload))
    (h : cue python defaultSpeaker timing after number = .ok read) :
    cue python defaultSpeaker timing after' number' = .ok read := by
  obtain ⟨times, htimes, h⟩ := bind_eq_ok.mp h
  exact bind_eq_ok.mpr ⟨times, cueTimes_number number' htimes, cueLine_congr number' hjoin h⟩

theorem vttCues_nil :
    vttCues python defaultSpeaker number [] lines = .ok lines := by
  rw [vttCues]

/-- **Cues that are wrapped otherwise say the same.** -/
theorem vttCues_rewrapped (hrows : Rewrapped rows rows')
    (h : vttCues python defaultSpeaker number rows lines = .ok out) :
    vttCues python defaultSpeaker number' rows' lines = .ok out := by
  induction hlength : rows.length using Nat.strong_induction_on
    generalizing rows rows' number number' lines with
  | _ length ih =>
    cases rows with
    | nil =>
      cases hrows
      rwa [vttCues_nil] at h ⊢
    | cons row rest =>
      obtain ⟨rest', rfl, hrow, hjoin, hafter⟩ := hrows.cons
      rw [List.length_cons] at hlength
      have hdrop := List.length_dropWhile_le isPayload rest
      rw [vttCues.eq_def] at h ⊢
      dsimp only at h ⊢
      by_cases hblank : isBlank row = true
      · rw [if_pos hblank] at h ⊢
        have hnot : hasArrow row = false := Bool.eq_false_iff.mpr fun harrow => by
          rw [isBlank_of_hasArrow harrow] at hblank
          cases hblank
        exact ih rest.length (by omega) (hrow hnot) h rfl
      · rw [if_neg hblank] at h ⊢
        by_cases harrow : hasArrow row = true
        · rw [if_pos harrow] at h ⊢
          obtain ⟨line, hline, h⟩ := bind_eq_ok.mp h
          obtain ⟨read, hread, h⟩ := bind_eq_ok.mp h
          exact bind_eq_ok.mpr ⟨line, cue_congr _ hjoin hline,
            bind_eq_ok.mpr ⟨read, hread, ih _ (by omega) hafter h rfl⟩⟩
        · rw [if_neg harrow] at h ⊢
          have hrest := hrow (Bool.eq_false_iff.mpr harrow)
          by_cases hskipped : isSkippedBlock row = true
          · rw [if_pos hskipped] at h ⊢
            have hpast := List.length_dropWhile_le (fun row => !isBlank row) rest
            exact ih _ (by omega) hrest.skipped h rfl
          · rw [if_neg hskipped] at h ⊢
            cases rest with
            | nil => cases h
            | cons timing after =>
              obtain ⟨after', rfl, -, hjoin, hafter⟩ := hrest.cons
              rw [List.length_cons] at hlength
              have hdrop := List.length_dropWhile_le isPayload after
              dsimp only at h ⊢
              by_cases htiming : hasArrow timing = true
              · rw [if_pos htiming] at h ⊢
                obtain ⟨line, hline, h⟩ := bind_eq_ok.mp h
                obtain ⟨read, hread, h⟩ := bind_eq_ok.mp h
                exact bind_eq_ok.mpr ⟨line, cue_congr _ hjoin hline,
                  bind_eq_ok.mpr ⟨read, hread, ih _ (by omega) hafter h rfl⟩⟩
              · rw [if_neg htiming] at h
                cases h

theorem isBlank_of_isHeader (h : isHeader row = true) : isBlank row = false := by
  obtain ⟨rest, rfl⟩ := List.isPrefixOf_iff_prefix.mp (Bool.and_eq_true_iff.mp h).1
  rw [isBlank, List.all_eq_false]
  exact ⟨'W', List.mem_cons_self, by decide⟩

/-- **A file whose cues are wrapped otherwise says the same.** -/
theorem vttLines_rewrapped (hrows : Rewrapped rows rows')
    (h : vttLines python defaultSpeaker rows = .ok out) :
    vttLines python defaultSpeaker rows' = .ok out := by
  cases rows with
  | nil => cases h
  | cons header rest =>
    obtain ⟨rest', rfl, -⟩ := hrows.cons
    rw [vttLines] at h ⊢
    by_cases hheader : isHeader header = true
    · rw [if_pos hheader] at h ⊢
      have hskipped := hrows.skipped
      have hnot : (!isBlank header) = true := by rw [isBlank_of_isHeader hheader]; rfl
      rw [List.dropWhile_cons_of_pos (by exact hnot),
        List.dropWhile_cons_of_pos (by exact hnot)] at hskipped
      exact vttCues_rewrapped hskipped h
    · rw [if_neg hheader] at h
      cases h

end Earshot.Uploads
