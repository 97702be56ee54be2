import Earshot.Common.Run
import Earshot.Uploads.Rows
/-!
# Lines of an upload

What a line says is tidy and holds no control character, although what is
unescaped is not looked at again: a number is never read as a control
character that is not space. Its speaker is the user or the agent, or the
user with a long s, which a label may be written with.
-/

namespace Earshot.Uploads

open Spaces Checked

variable {rows : List Text} {row text rest body speaker : Text} {c : Char}
variable {defaultSpeaker : Option Text} {number : ℕ} {line : UploadedLine}

/-- The user's name, with a long s. -/
def LONG_USER : Text := ['u', 'ſ', 'e', 'r']

/-- A label's speaker, in small letters. -/
def IsSpeaker (speaker : Text) : Prop := speaker = USER ∨ speaker = AGENT ∨ speaker = LONG_USER

/-- A line that can be stored and written again. -/
structure WellFormed (line : UploadedLine) : Prop where
  speaker : IsSpeaker line.speaker
  nonempty : line.text ≠ []
  tidy : Tidy isSpace ' ' line.text
  plain : ∀ c ∈ line.text, isControl c = false

/-! ## Characters -/

/-- What holds of each character of a text, one after the other: there are too
many characters to try them all. -/
theorem forall_of_all {p : Char → Prop} [DecidablePred p]
    (h : (text.all fun c => decide (p c)) = true) : ∀ c ∈ text, p c :=
  fun c hc => of_decide_eq_true (List.all_eq_true.mp h c hc)

/-- What is not space is no padding. -/
theorem isPadding_of_space (h : isSpace c = false) : isPadding c = false := by
  simp only [isPadding, decide_eq_false_iff_not]
  rintro (rfl | rfl)
  · exact absurd h (by decide)
  · exact absurd h (by decide)

theorem tidy_collapsed (text : Text) : Tidy isSpace ' ' (collapsed text) :=
  tidy_collapse text

/-- Collapsed text holds no control character if only space was one. -/
theorem plain_collapsed (h : ∀ c ∈ text, isControl c = true → isSpace c = true) :
    ∀ c ∈ collapsed text, isControl c = false := by
  intro c hc
  rcases mem_collapse hc with rfl | ⟨hmem, hspace⟩
  · decide
  · rw [Bool.eq_false_iff]
    intro hcontrol
    rw [h c hmem hcontrol] at hspace
    cases hspace

/-! ## Labels -/

theorem wordPrefix_eq_some {word found : Text}
    (h : wordPrefix word text = some (found, rest)) :
    text = found ++ rest ∧
      List.Forall₂ (fun letter c => sameLetter letter c = true) word found := by
  fun_induction wordPrefix word text generalizing found with
  | case1 text =>
    obtain ⟨rfl, rfl⟩ := Prod.mk.inj (Option.some.inj h)
    exact ⟨rfl, List.Forall₂.nil⟩
  | case2 => cases h
  | case3 letter letters c others hsame ih =>
    obtain ⟨⟨tail, remaining⟩, hfound, heq⟩ := Option.map_eq_some_iff.mp h
    obtain ⟨rfl, rfl⟩ := Prod.mk.inj heq
    obtain ⟨rfl, hall⟩ := ih hfound
    exact ⟨rfl, List.Forall₂.cons hsame hall⟩
  | case4 => cases h

theorem wordPrefix_self {word : Text} (hword : ∀ c ∈ word, c.toLower = c) (rest : Text) :
    wordPrefix word (word ++ rest) = some (word, rest) := by
  induction word with
  | nil => rfl
  | cons c word ih =>
    have hsame : sameLetter c c = true := by
      simp only [sameLetter, decide_eq_true_eq]
      exact Or.inl (hword c List.mem_cons_self)
    rw [List.cons_append, wordPrefix, if_pos hsame,
      ih fun d hd => hword d (List.mem_cons_of_mem _ hd)]
    rfl

/-- A letter in small is the letter, or a long s. -/
theorem toLower_of_sameLetter {letter : Char} (h : sameLetter letter c = true) :
    c.toLower = letter ∨ (letter = 's' ∧ c.toLower = 'ſ') := by
  simp only [sameLetter, decide_eq_true_eq] at h
  rcases h with h | ⟨hs, rfl⟩
  · exact Or.inl h
  · exact Or.inr ⟨hs, by decide⟩

theorem isSpeaker_of_user {found : Text}
    (h : List.Forall₂ (fun letter c => sameLetter letter c = true) USER found) :
    IsSpeaker (lower found) := by
  unfold USER at h
  rcases h with - | ⟨h₁, - | ⟨h₂, - | ⟨h₃, - | ⟨h₄, - | -⟩⟩⟩⟩
  simp only [lower, List.map_cons, List.map_nil]
  rcases toLower_of_sameLetter h₁ with h₁ | ⟨hs, -⟩
  · rcases toLower_of_sameLetter h₃ with h₃ | ⟨hs, -⟩
    · rcases toLower_of_sameLetter h₄ with h₄ | ⟨hs, -⟩
      · rw [h₁, h₃, h₄]
        rcases toLower_of_sameLetter h₂ with h₂ | ⟨-, h₂⟩
        · exact Or.inl (by rw [h₂]; rfl)
        · exact Or.inr (Or.inr (by rw [h₂]; rfl))
      · exact absurd hs (by decide)
    · exact absurd hs (by decide)
  · exact absurd hs (by decide)

theorem lower_of_agent {found : Text}
    (h : List.Forall₂ (fun letter c => sameLetter letter c = true) AGENT found) :
    lower found = AGENT := by
  have hletters : ∀ letter ∈ AGENT, letter ≠ 's' := forall_of_all (by decide)
  generalize AGENT = word at h hletters
  induction h with
  | nil => rfl
  | @cons letter c word found hsame _ ih =>
    rcases toLower_of_sameLetter hsame with hc | ⟨hs, -⟩
    · rw [lower, List.map_cons, hc]
      exact congrArg (letter :: ·) (ih fun d hd => hletters d (List.mem_cons_of_mem _ hd))
    · exact absurd hs (hletters letter List.mem_cons_self)

/-- A label names a speaker, and the text ends with what it labels. -/
theorem labelled_eq_some (h : labelled text = some (speaker, rest)) :
    IsSpeaker speaker ∧ rest <:+ text ∧ ∀ c ∈ rest.head?, isPadding c = false := by
  obtain ⟨⟨found, after⟩, hfound, hlabel⟩ := Option.bind_eq_some_iff.mp h
  split at hlabel
  · rename_i others hcolon
    obtain ⟨rfl, rfl⟩ := Prod.mk.inj (Option.some.inj hlabel)
    have hspeaker : IsSpeaker (lower found) ∧ text = found ++ after := by
      rcases Option.or_eq_some_iff.mp hfound with huser | ⟨-, hagent⟩
      · obtain ⟨htext, hall⟩ := wordPrefix_eq_some huser
        exact ⟨isSpeaker_of_user hall, htext⟩
      · obtain ⟨htext, hall⟩ := wordPrefix_eq_some hagent
        exact ⟨Or.inr (Or.inl (lower_of_agent hall)), htext⟩
    obtain ⟨hspeaker, rfl⟩ := hspeaker
    refine ⟨hspeaker, ?_, ?_⟩
    · have hafter : others <:+ after := by
        refine (List.suffix_cons ':' others).trans ?_
        rw [← hcolon]
        exact List.dropWhile_suffix _
      exact (List.dropWhile_suffix _).trans (hafter.trans (List.suffix_append _ _))
    · intro c hc
      have hhead := List.head?_dropWhile_not isPadding others
      rw [Option.mem_def.mp hc] at hhead
      simpa using hhead
  · cases hlabel

/-- A speaker's name before a text labels it. -/
theorem labelled_render (hspeaker : IsSpeaker speaker)
    (hfirst : ∀ c ∈ text.head?, isSpace c = false) :
    labelled (speaker ++ ':' :: ' ' :: text) = some (speaker, text) := by
  have hdrop : (' ' :: text).dropWhile isPadding = text := by
    rw [List.dropWhile_cons_of_pos (by decide)]
    cases text with
    | nil => rfl
    | cons c text =>
      rw [List.dropWhile_cons_of_neg]
      rw [isPadding_of_space (hfirst c rfl)]
      exact Bool.false_ne_true
  have hcolon : (':' :: ' ' :: text).dropWhile isPadding = ':' :: ' ' :: text :=
    List.dropWhile_cons_of_neg (by decide)
  rcases hspeaker with rfl | rfl | rfl
  · rw [labelled, wordPrefix_self (forall_of_all (by decide)), Option.some_or, Option.bind_some]
    simp only [hcolon, hdrop]
    rfl
  · have hnot : wordPrefix USER (AGENT ++ ':' :: ' ' :: text) = none := rfl
    rw [labelled, hnot, wordPrefix_self (forall_of_all (by decide)), Option.none_or, Option.bind_some]
    simp only [hcolon, hdrop]
    rfl
  · have hlong : wordPrefix USER (LONG_USER ++ ':' :: ' ' :: text) =
        some (LONG_USER, ':' :: ' ' :: text) := rfl
    rw [labelled, hlong, Option.some_or, Option.bind_some]
    simp only [hcolon, hdrop]
    rfl

/-! ## Rows of text -/

/-- What is read of a tidy text, with a default for who speaks. -/
theorem wellFormed_labelled (htidy : Tidy isSpace ' ' text)
    (hplain : ∀ c ∈ text, isControl c = false) (h : labelled text = some (speaker, rest))
    (hrest : rest ≠ []) (startMs endMs : Option ℕ) :
    WellFormed ⟨speaker, rest, startMs, endMs⟩ := by
  obtain ⟨hspeaker, hsuffix, hhead⟩ := labelled_eq_some h
  refine ⟨hspeaker, hrest, htidy.suffix hsuffix ?_, fun c hc => hplain c (hsuffix.subset hc)⟩
  rintro c hc rfl
  exact absurd (hhead _ hc) (by decide)

/-- The default speaker is the recording's. -/
def Given (defaultSpeaker : Option Text) : Prop :=
  ∀ speaker, defaultSpeaker = some speaker → speaker = USER ∨ speaker = AGENT

theorem Given.isSpeaker (h : Given defaultSpeaker) (hspeaker : defaultSpeaker = some speaker) :
    IsSpeaker speaker :=
  (h speaker hspeaker).imp_right Or.inl

/-- **The line of a row** is well formed, and has no times. -/
theorem wellFormed_textLine (hgiven : Given defaultSpeaker)
    (hrow : ∀ c ∈ row, isControl c = false)
    (h : textLine defaultSpeaker number row = .ok (some line)) :
    WellFormed line ∧ line.startMs = none ∧ line.endMs = none := by
  have htidy := tidy_collapsed row
  have hplain : ∀ c ∈ collapsed row, isControl c = false :=
    plain_collapsed fun c hc hcontrol => by
      rw [hrow c hc] at hcontrol
      cases hcontrol
  simp only [textLine] at h
  split at h
  · cases h
  · rename_i hne
    split at h
    · rename_i speaker rest hlabelled
      split at h
      · cases h
      · rename_i hrest
        obtain rfl := Option.some.inj (Except.ok.inj h)
        exact ⟨wellFormed_labelled htidy hplain hlabelled hrest _ _, rfl, rfl⟩
    · rename_i speaker hlabelled
      obtain rfl := Option.some.inj (Except.ok.inj h)
      exact ⟨⟨hgiven.isSpeaker rfl, hne, htidy, hplain⟩, rfl, rfl⟩
    · cases h

/-- A line as a row of text. -/
def rendered (line : UploadedLine) : Text := line.speaker ++ ':' :: ' ' :: line.text

theorem not_isSpace_speaker (h : IsSpeaker speaker) : ∀ c ∈ speaker, isSpace c = false := by
  rcases h with rfl | rfl | rfl
  · exact forall_of_all (by decide)
  · exact forall_of_all (by decide)
  · exact forall_of_all (by decide)

theorem tidy_rendered (h : WellFormed line) : Tidy isSpace ' ' (rendered line) := by
  have hword : ∀ c ∈ line.speaker ++ [':'], isSpace c = false := by
    intro c hc
    rcases List.mem_append.mp hc with hc | hc
    · exact not_isSpace_speaker h.speaker c hc
    · obtain rfl := List.mem_singleton.mp hc
      decide
  have htidy := h.tidy.word h.nonempty (List.append_ne_nil_of_right_ne_nil _ (List.cons_ne_nil _ _))
    hword
  rwa [List.append_assoc] at htidy

/-- **A line that is written as a row is read from it.** -/
theorem textLine_rendered (h : WellFormed line) (hstart : line.startMs = none)
    (hend : line.endMs = none) :
    textLine defaultSpeaker number (rendered line) = .ok (some line) := by
  have hcollapsed : collapsed (rendered line) = rendered line := collapse_of_tidy (tidy_rendered h)
  have hne : rendered line ≠ [] :=
    List.append_ne_nil_of_right_ne_nil _ (List.cons_ne_nil _ _)
  have hlabelled : labelled (rendered line) = some (line.speaker, line.text) :=
    labelled_render h.speaker h.tidy.first
  simp only [textLine, hcollapsed, if_neg hne, hlabelled, if_neg h.nonempty]
  cases line with
  | mk speaker text startMs endMs =>
    obtain rfl : startMs = none := hstart
    obtain rfl : endMs = none := hend
    rfl

end Earshot.Uploads
