import Earshot.Uploads.Lines
/-!
# Lines of cues

A cue's line ends no earlier than it starts. Its text is unescaped after the
rows were checked for control characters, and still holds none.
-/

namespace Earshot.Uploads

open Spaces Checked

variable {python : Python} {rows payload : List Text} {row text found out speaker : Text}
variable {defaultSpeaker : Option Text} {number startMs endMs : ℕ} {c : Char} {line : UploadedLine}

/-! ## Unescaping -/

/-- No named reference stands for a control character. -/
def PlainEntities (python : Python) : Prop :=
  ∀ name value, python.entity name = some value → ∀ c ∈ value, isControl c = false

/-- Only space is a control character. -/
def Spaced (text : Text) : Prop := ∀ c ∈ text, isControl c = true → isSpace c = true

theorem spaced_of_plain (h : ∀ c ∈ text, isControl c = false) : Spaced text := by
  intro c hc hcontrol
  rw [h c hc] at hcontrol
  cases hcontrol

theorem spaced_append {front : Text} (hfront : Spaced front) (htext : Spaced text) :
    Spaced (front ++ text) := by
  intro c hc
  exact (List.mem_append.mp hc).elim (hfront c) (htext c)

theorem plain_invalidCharrefs : ∀ item ∈ INVALID_CHARREFS, isControl item.2 = false := by decide

/-- **A number is read as no control character** that is not space. -/
theorem spaced_charOfNumber (n : ℕ) : Spaced (charOfNumber n) := by
  unfold charOfNumber
  split
  · rename_i item hfind
    refine spaced_of_plain fun c hc => ?_
    obtain rfl := List.mem_singleton.mp hc
    exact plain_invalidCharrefs item (List.mem_of_find?_eq_some hfind)
  · rename_i hfind
    have hzero : n ≠ 0 := by
      rintro rfl
      exact List.find?_eq_none.mp hfind _ List.mem_cons_self (decide_eq_true rfl)
    split
    · refine spaced_of_plain fun c hc => ?_
      obtain rfl := List.mem_singleton.mp hc
      decide
    · rename_i hrange
      split
      · exact fun c hc => absurd hc List.not_mem_nil
      · rename_i hvalid
        intro c hc hcontrol
        obtain rfl := List.mem_singleton.mp hc
        have hnat : (Char.ofNat n).toNat = n := by
          rw [Char.ofNat, dif_pos (by unfold Nat.isValidChar; omega)]
          rfl
        simp only [isControl, hnat, decide_eq_true_eq] at hcontrol
        simp only [isInvalidCodepoint, decide_eq_true_eq] at hvalid
        have hfeed : n = 12 := by omega
        subst hfeed
        decide

theorem withSemicolon_starts (name rest : Text) : withSemicolon name rest <+: name ++ rest := by
  unfold withSemicolon
  split
  · rename_i others
    exact (List.prefix_append_right_inj _).mpr ((List.prefix_append [';'] others))
  · exact List.prefix_append _ _

/-- A reference is what follows the ampersand. -/
theorem reference_starts (h : reference text = some found) : found <+: text := by
  rcases Option.or_eq_some_iff.mp h with h | ⟨-, h⟩
  · split at h
    · rename_i c rest _
      split at h
      · obtain rfl := Option.some.inj h
        refine List.cons_prefix_cons.mpr ⟨rfl, ?_⟩
        have hprefix := withSemicolon_starts ((c :: rest).takeWhile isDecimal)
          ((c :: rest).dropWhile isDecimal)
        rwa [List.takeWhile_append_dropWhile] at hprefix
      · split at h
        · obtain rfl := Option.some.inj h
          refine List.cons_prefix_cons.mpr ⟨rfl, List.cons_prefix_cons.mpr ⟨rfl, ?_⟩⟩
          have hprefix := withSemicolon_starts (rest.takeWhile isHexadecimal)
            (rest.dropWhile isHexadecimal)
          rwa [List.takeWhile_append_dropWhile] at hprefix
        · cases h
    · cases h
  · split at h
    · cases h
    · obtain rfl := Option.some.inj h
      have hname : (text.takeWhile isNameChar).take 32 <+: text :=
        (List.take_prefix _ _).trans (List.takeWhile_prefix _)
      have hprefix := withSemicolon_starts ((text.takeWhile isNameChar).take 32)
        (text.drop ((text.takeWhile isNameChar).take 32).length)
      rwa [List.prefix_iff_eq_append.mp hname] at hprefix

theorem spaced_longestEntity (hplain : PlainEntities python) (hfound : Spaced found)
    {length : ℕ} (h : longestEntity python found length = some out) : Spaced out := by
  induction length with
  | zero => cases h
  | succ length ih =>
    rw [longestEntity] at h
    split at h
    · cases h
    · rcases Option.or_eq_some_iff.mp h with h | ⟨-, h⟩
      · obtain ⟨value, hvalue, rfl⟩ := Option.map_eq_some_iff.mp h
        exact spaced_append (spaced_of_plain (hplain _ _ hvalue))
          fun c hc => hfound c (List.mem_of_mem_drop hc)
      · exact ih h

theorem spaced_replaceCharref (hplain : PlainEntities python) (hfound : Spaced found)
    (h : replaceCharref python found = .ok out) : Spaced out := by
  unfold replaceCharref at h
  split at h
  · split at h
    · obtain rfl := Except.ok.inj h
      exact spaced_charOfNumber _
    · obtain ⟨n, -, h⟩ := bind_eq_ok.mp h
      obtain rfl := Except.ok.inj h
      exact spaced_charOfNumber _
  · obtain rfl := Except.ok.inj h
    cases hentity : (python.entity found).or
        (longestEntity python found (found.length - 1)) with
    | none =>
      have hmark : Spaced ['&'] := spaced_of_plain (forall_of_all (by decide))
      exact spaced_append hmark hfound
    | some value =>
      rcases Option.or_eq_some_iff.mp hentity with hvalue | ⟨-, hvalue⟩
      · exact spaced_of_plain (hplain _ _ hvalue)
      · exact spaced_longestEntity hplain hfound hvalue

/-- **What is unescaped** holds no control character that is not space. -/
theorem spaced_unescapeFrom (hplain : PlainEntities python) {passed : ℕ} (htext : Spaced text)
    (h : unescapeFrom python passed text = .ok out) : Spaced out := by
  induction text generalizing passed out with
  | nil =>
    cases passed <;>
    · obtain rfl := Except.ok.inj h
      exact fun c hc => absurd hc List.not_mem_nil
  | cons c rest ih =>
    have hrest : Spaced rest := fun d hd => htext d (List.mem_cons_of_mem _ hd)
    cases passed with
    | succ passed => exact ih hrest h
    | zero =>
      rw [unescapeFrom] at h
      split at h
      · rename_i found hfound
        obtain ⟨read, hread, h⟩ := bind_eq_ok.mp h
        obtain ⟨others, hothers, h⟩ := bind_eq_ok.mp h
        obtain rfl := Except.ok.inj h
        split at hfound
        · exact spaced_append (spaced_replaceCharref hplain
            (fun d hd => hrest d ((reference_starts hfound).subset hd)) hread) (ih hrest hothers)
        · cases hfound
      · obtain ⟨others, hothers, h⟩ := bind_eq_ok.mp h
        obtain rfl := Except.ok.inj h
        have hc : Spaced [c] := fun d hd => by
          obtain rfl := List.mem_singleton.mp hd
          exact htext d List.mem_cons_self
        exact spaced_append hc (ih hrest hothers)

/-! ## Cues -/

theorem withoutTagsFrom_sublist (within : Bool) (text : Text) :
    (withoutTagsFrom within text).Sublist text := by
  induction text generalizing within with
  | nil => cases within <;> exact List.Sublist.refl _
  | cons c rest ih =>
    cases within with
    | true => exact (ih _).cons _
    | false =>
      rw [withoutTagsFrom]
      split
      · exact (ih _).cons _
      · exact (ih _).cons_cons _

theorem joinRows_cons (row : Text) (hrows : rows ≠ []) :
    joinRows (row :: rows) = row ++ ' ' :: joinRows rows :=
  (List.intercalate_cons_of_ne_nil hrows).trans (List.append_assoc _ _ _)

theorem mem_joinRows (h : c ∈ joinRows rows) : c = ' ' ∨ ∃ row ∈ rows, c ∈ row := by
  induction rows with
  | nil => exact absurd h List.not_mem_nil
  | cons row rows ih =>
    by_cases hrows : rows = []
    · subst hrows
      rw [joinRows, List.intercalate_singleton] at h
      exact Or.inr ⟨row, List.mem_cons_self, h⟩
    · rw [joinRows_cons row hrows] at h
      rcases List.mem_append.mp h with h | h
      · exact Or.inr ⟨row, List.mem_cons_self, h⟩
      · rcases List.mem_cons.mp h with rfl | h
        · exact Or.inl rfl
        · refine (ih h).imp_right ?_
          rintro ⟨other, hother, hc⟩
          exact ⟨other, List.mem_cons_of_mem _ hother, hc⟩

/-- **A cue's line** is well formed, and has the cue's times. -/
theorem wellFormed_cueLine (hplain : PlainEntities python) (hgiven : Given defaultSpeaker)
    (hpayload : ∀ row ∈ payload, ∀ c ∈ row, isControl c = false)
    (h : cueLine python payload startMs endMs number defaultSpeaker = .ok (some line)) :
    WellFormed line ∧ line.startMs = some startMs ∧ line.endMs = some endMs := by
  obtain ⟨raw, hraw, h⟩ := bind_eq_ok.mp h
  have hspaced : Spaced raw := by
    refine spaced_unescapeFrom hplain (spaced_of_plain fun c hc => ?_) hraw
    rcases mem_joinRows ((withoutTagsFrom_sublist _ _).subset hc) with rfl | ⟨row, hrow, hc⟩
    · decide
    · exact hpayload row hrow c hc
  have htidy := tidy_collapsed raw
  have hcollapsed := plain_collapsed hspaced
  dsimp only at h
  split at h
  · cases h
  · rename_i hne
    split at h
    · rename_i name _ _
      split at h
      · rename_i hname
        obtain rfl := Option.some.inj (Except.ok.inj h)
        exact ⟨⟨hname.imp_right Or.inl, hne, htidy, hcollapsed⟩, rfl, rfl⟩
      · cases h
    · rename_i hlabelled _
      split at h
      · cases h
      · rename_i hrest
        obtain rfl := Option.some.inj (Except.ok.inj h)
        exact ⟨wellFormed_labelled htidy hcollapsed hlabelled hrest _ _, rfl, rfl⟩
    · obtain rfl := Option.some.inj (Except.ok.inj h)
      exact ⟨⟨hgiven.isSpeaker rfl, hne, htidy, hcollapsed⟩, rfl, rfl⟩
    · cases h

theorem cueTimes_le {times : ℕ × ℕ} (h : cueTimes python row number = .ok times) :
    times.1 ≤ times.2 := by
  obtain ⟨startMs, -, h⟩ := bind_eq_ok.mp h
  obtain ⟨endMs, -, h⟩ := bind_eq_ok.mp h
  split at h
  · cases h
  · rename_i hle
    obtain rfl := Except.ok.inj h
    exact Nat.le_of_not_lt hle

/-- A line that is spoken when its cue is shown. -/
def Timed (line : UploadedLine) : Prop :=
  ∃ startMs endMs, line.startMs = some startMs ∧ line.endMs = some endMs ∧ startMs ≤ endMs

theorem wellFormed_cue (hplain : PlainEntities python) (hgiven : Given defaultSpeaker)
    (hrows : ∀ row ∈ rows, ∀ c ∈ row, isControl c = false)
    (h : cue python defaultSpeaker row rows number = .ok (some line)) :
    WellFormed line ∧ Timed line := by
  obtain ⟨times, htimes, h⟩ := bind_eq_ok.mp h
  obtain ⟨hwell, hstart, hend⟩ := wellFormed_cueLine hplain hgiven
    (fun other hother => hrows other ((List.takeWhile_sublist _).subset hother)) h
  exact ⟨hwell, _, _, hstart, hend, cueTimes_le htimes⟩

end Earshot.Uploads
