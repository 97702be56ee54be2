import Earshot.Uploads.Wrapping
/-!
# Transcripts and layout

What an upload says does not depend on how it is laid out: not on its
newlines, nor on how its cues are wrapped, and what a text says is read again
from its lines (`parseTranscript_layout`). A file may still be wrapped into
more rows than are read, a label may be written with a long s, and a control
character past DEL is kept (`parseTranscript_of_layout`).
-/

namespace Earshot.Uploads

open Spaces Checked

variable {python : Python} {format : Format} {body body' : Text} {transcript : Transcript}
variable {defaultSpeaker : Option Text} {number : ℕ} {rows : List Text}
variable {lines out : List UploadedLine} {read : Option UploadedLine} {P : UploadedLine → Prop}

/-! ## Lines one after another -/

theorem appendRead_eq_ok (h : appendRead lines read = .ok out) : out = lines ++ read.toList ∧
    (lines.length ≤ MAX_TRANSCRIPT_LINES → out.length ≤ MAX_TRANSCRIPT_LINES) := by
  cases read with
  | none =>
    obtain rfl := Except.ok.inj h
    exact ⟨(List.append_nil _).symm, id⟩
  | some line =>
    simp only [appendRead, appendLine] at h
    split at h
    · cases h
    · obtain rfl := Except.ok.inj h
      refine ⟨rfl, fun hle => ?_⟩
      rw [List.length_append, List.length_singleton]
      omega

/-- What holds of the lines holds with the next. -/
theorem forall_appendRead (h : appendRead lines read = .ok out) (hlines : ∀ line ∈ lines, P line)
    (hread : ∀ line, read = some line → P line) : ∀ line ∈ out, P line := by
  obtain ⟨rfl, -⟩ := appendRead_eq_ok h
  exact List.forall_mem_append.mpr
    ⟨hlines, fun line hline => hread line (Option.mem_toList.mp hline)⟩

theorem forall_textLines (hread : ∀ row ∈ rows, ∀ number line,
      textLine defaultSpeaker number row = .ok (some line) → P line)
    (hlines : ∀ line ∈ lines, P line)
    (h : textLines defaultSpeaker number rows lines = .ok out) : ∀ line ∈ out, P line := by
  induction rows generalizing number lines with
  | nil =>
    obtain rfl := Except.ok.inj h
    exact hlines
  | cons row rows ih =>
    obtain ⟨read, htext, h⟩ := bind_eq_ok.mp h
    obtain ⟨next, hnext, h⟩ := bind_eq_ok.mp h
    refine ih (fun other hother => hread other (List.mem_cons_of_mem _ hother)) ?_ h
    refine forall_appendRead hnext hlines fun line hline => ?_
    subst hline
    exact hread row List.mem_cons_self number line htext

theorem length_textLines (hlines : lines.length ≤ MAX_TRANSCRIPT_LINES)
    (h : textLines defaultSpeaker number rows lines = .ok out) :
    out.length ≤ MAX_TRANSCRIPT_LINES := by
  induction rows generalizing number lines with
  | nil =>
    obtain rfl := Except.ok.inj h
    exact hlines
  | cons row rows ih =>
    obtain ⟨read, -, h⟩ := bind_eq_ok.mp h
    obtain ⟨next, hnext, h⟩ := bind_eq_ok.mp h
    exact ih ((appendRead_eq_ok hnext).2 hlines) h

/-- Lines that are written as rows are read from them. -/
theorem textLines_rendered {said : List UploadedLine}
    (hsaid : ∀ line ∈ said, WellFormed line ∧ line.startMs = none ∧ line.endMs = none)
    (hlength : (lines ++ said).length ≤ MAX_TRANSCRIPT_LINES) :
    textLines defaultSpeaker number (said.map rendered) lines = .ok (lines ++ said) := by
  induction said generalizing number lines with
  | nil => rw [List.append_nil]; rfl
  | cons line said ih =>
    obtain ⟨⟨hwell, hstart, hend⟩, hrest⟩ := List.forall_mem_cons.mp hsaid
    have hroom : lines.length ≠ MAX_TRANSCRIPT_LINES := by
      rw [List.length_append, List.length_cons] at hlength
      omega
    rw [List.append_cons] at hlength ⊢
    rw [List.map_cons, textLines, textLine_rendered hwell hstart hend, ok_bind, appendRead,
      appendLine, if_neg hroom, ok_bind]
    exact ih hrest hlength

/-- What holds of every cue's line holds of all lines. -/
theorem forall_vttCues {plain : Text → Prop} (hrows : ∀ row ∈ rows, plain row)
    (hread : ∀ timing after number line, (∀ row ∈ after, plain row) →
      cue python defaultSpeaker timing after number = .ok (some line) → P line)
    (hlines : ∀ line ∈ lines, P line)
    (h : vttCues python defaultSpeaker number rows lines = .ok out) : ∀ line ∈ out, P line := by
  induction hlength : rows.length using Nat.strong_induction_on
    generalizing rows number lines with
  | _ length ih =>
    cases rows with
    | nil =>
      rw [vttCues_nil] at h
      obtain rfl := Except.ok.inj h
      exact hlines
    | cons row rest =>
      rw [List.length_cons] at hlength
      have hrest : ∀ row ∈ rest, plain row := fun other hother =>
        hrows other (List.mem_cons_of_mem _ hother)
      have hdropped : ∀ p : Text → Bool, ∀ row ∈ rest.dropWhile p, plain row :=
        fun p other hother => hrest other ((List.dropWhile_sublist p).subset hother)
      have hle := fun p : Text → Bool => List.length_dropWhile_le p rest
      rw [vttCues.eq_def] at h
      dsimp only at h
      split at h
      · exact ih _ (by omega) hrest hlines h rfl
      · split at h
        · obtain ⟨read, hcue, h⟩ := bind_eq_ok.mp h
          obtain ⟨next, hnext, h⟩ := bind_eq_ok.mp h
          refine ih _ (by have := hle isPayload; omega) (hdropped _) ?_ h rfl
          refine forall_appendRead hnext hlines fun line hline => ?_
          subst hline
          exact hread row rest number line hrest hcue
        · split at h
          · exact ih _ (by have := hle fun row => !isBlank row; omega) (hdropped _) hlines h rfl
          · split at h
            · cases h
            · rename_i timing after
              have hafter : ∀ row ∈ after, plain row := fun other hother =>
                hrest other (List.mem_cons_of_mem _ hother)
              split at h
              · obtain ⟨read, hcue, h⟩ := bind_eq_ok.mp h
                obtain ⟨next, hnext, h⟩ := bind_eq_ok.mp h
                have hdrop := List.length_dropWhile_le isPayload after
                rw [List.length_cons] at hlength
                refine ih _ (by omega)
                  (fun other hother => hafter other ((List.dropWhile_sublist _).subset hother))
                  ?_ h rfl
                refine forall_appendRead hnext hlines fun line hline => ?_
                subst hline
                exact hread timing after (number + 1) line hafter hcue
              · cases h

/-! ## Transcripts -/

/-- A transcript is read of the rows, for a recording's own speaker. -/
theorem parseTranscript_eq_ok :
    parseTranscript python body format defaultSpeaker = .ok transcript ↔
      Given defaultSpeaker ∧ ∃ rows, decodedLines body = .ok rows ∧
        linesOf python defaultSpeaker rows format = .ok transcript.lines ∧
        transcript.lines ≠ [] ∧ transcript.format = format := by
  unfold parseTranscript
  have hgiven : (defaultSpeaker.any fun speaker => speaker ≠ USER ∧ speaker ≠ AGENT) = false ↔
      Given defaultSpeaker := by
    cases defaultSpeaker with
    | none => exact ⟨fun _ speaker h => absurd h (Option.some_ne_none _).symm, fun _ => rfl⟩
    | some speaker =>
      rw [Option.any_some, decide_eq_false_iff_not, not_and_or, not_not, not_not]
      constructor
      · intro h other hother
        obtain rfl := Option.some.inj hother
        exact h
      · exact fun h => h speaker rfl
  constructor
  · intro h
    split at h
    · cases h
    · rename_i hany
      obtain ⟨rows, hrows, h⟩ := bind_eq_ok.mp h
      obtain ⟨parsed, hparsed, h⟩ := bind_eq_ok.mp h
      split at h
      · cases h
      · rename_i hne
        obtain rfl := Except.ok.inj h
        exact ⟨hgiven.mp (Bool.eq_false_iff.mpr hany), rows, hrows, hparsed, hne, rfl⟩
  · rintro ⟨hspeaker, rows, hrows, hparsed, hne, rfl⟩
    rw [if_neg (Bool.eq_false_iff.mp (hgiven.mpr hspeaker)), hrows, ok_bind, hparsed, ok_bind,
      if_neg hne]

/-- A line is well formed, and one of a cue has times. -/
theorem wellFormed_lines (hplain : PlainEntities python)
    (h : parseTranscript python body format defaultSpeaker = .ok transcript) :
    (∀ line ∈ transcript.lines, WellFormed line) ∧
      (format = .vtt → ∀ line ∈ transcript.lines, Timed line) ∧
      (format = .text → ∀ line ∈ transcript.lines, line.startMs = none ∧ line.endMs = none) := by
  obtain ⟨hgiven, rows, hrows, hlines, -, -⟩ := parseTranscript_eq_ok.mp h
  obtain ⟨-, -, hcontrol⟩ := decodedLines_eq_ok.mp hrows
  cases format with
  | vtt =>
    have hall : ∀ line ∈ transcript.lines, WellFormed line ∧ Timed line := by
      cases rows with
      | nil => cases hlines
      | cons header rest =>
        simp only [linesOf, vttLines] at hlines
        split at hlines
        · refine forall_vttCues (fun row hrow => hcontrol row (List.mem_cons_of_mem _
            ((List.dropWhile_sublist _).subset hrow))) ?_ (fun _ hnone => ?_) hlines
          · exact fun _ _ _ _ hafter hcue => wellFormed_cue hplain hgiven hafter hcue
          · exact absurd hnone List.not_mem_nil
        · cases hlines
    refine ⟨fun line hline => (hall line hline).1, fun _ line hline => (hall line hline).2, ?_⟩
    intro hformat
    cases hformat
  | text =>
    have hall := forall_textLines
      (P := fun line => WellFormed line ∧ line.startMs = none ∧ line.endMs = none)
      (fun row hrow _ _ => wellFormed_textLine hgiven (hcontrol row hrow))
      (fun _ hnone => absurd hnone List.not_mem_nil) hlines
    refine ⟨fun line hline => (hall line hline).1, ?_, fun _ line hline => (hall line hline).2⟩
    intro hformat
    cases hformat

/-- The same rows are the same transcript. -/
theorem parseTranscript_rewritten (crlf : ℕ → Bool) (n : ℕ) :
    parseTranscript python (rewritten crlf n body) format defaultSpeaker =
      parseTranscript python body format defaultSpeaker := by
  rw [parseTranscript, parseTranscript, decodedLines_rewritten]

theorem parseTranscript_rewrapped
    (h : parseTranscript python body .vtt defaultSpeaker = .ok transcript)
    (hrows : Rewrapped (splitRows (removeBom body)) (splitRows (removeBom body')))
    (hlength : sourceLines (removeBom body') ≤ MAX_TRANSCRIPT_SOURCE_LINES) :
    parseTranscript python body' .vtt defaultSpeaker = .ok transcript := by
  obtain ⟨hgiven, rows, hdecoded, hlines, hne, hformat⟩ := parseTranscript_eq_ok.mp h
  obtain ⟨rfl, -, hplain⟩ := decodedLines_eq_ok.mp hdecoded
  rw [← length_splitRows] at hlength
  exact parseTranscript_eq_ok.mpr ⟨hgiven, _,
    decodedLines_eq_ok.mpr ⟨rfl, hlength, hrows.plain hplain⟩,
    vttLines_rewrapped hrows hlines, hne, hformat⟩

/-! ## Text that is written again -/

theorem not_isNewline_of_tidy {text : Text} (h : Tidy isSpace ' ' text) :
    ∀ c ∈ text, isNewline c = false := by
  intro c hc
  rw [isNewline, decide_eq_false_iff_not]
  rintro (rfl | rfl)
  · exact absurd (h.blanks _ hc (by decide)) (by decide)
  · exact absurd (h.blanks _ hc (by decide)) (by decide)

theorem plain_rendered {line : UploadedLine} (h : WellFormed line) :
    ∀ c ∈ rendered line, isControl c = false := by
  have hspeaker : ∀ c ∈ line.speaker, isControl c = false := by
    rcases h.speaker with hspeaker | hspeaker | hspeaker
    · exact hspeaker ▸ forall_of_all (by decide)
    · exact hspeaker ▸ forall_of_all (by decide)
    · exact hspeaker ▸ forall_of_all (by decide)
  intro c hc
  rcases List.mem_append.mp hc with hc | hc
  · exact hspeaker c hc
  · rcases List.mem_cons.mp hc with rfl | hc
    · decide
    · rcases List.mem_cons.mp hc with rfl | hc
      · decide
      · exact h.plain c hc

theorem removeBom_joined_rendered (h : ∀ line ∈ lines, WellFormed line) :
    removeBom (joined (lines.map rendered)) = joined (lines.map rendered) := by
  cases lines with
  | nil => rfl
  | cons line rest =>
    obtain ⟨others, hothers⟩ : ∃ others, joined ((line :: rest).map rendered) =
        line.speaker ++ others := by
      rw [List.map_cons, joined]
      cases rest with
      | nil => exact ⟨_, List.intercalate_singleton⟩
      | cons next rest =>
        refine ⟨':' :: ' ' :: line.text ++ ('\n' :: joined ((next :: rest).map rendered)), ?_⟩
        rw [List.map_cons, List.intercalate_cons_cons, rendered, List.append_assoc,
          List.append_assoc]
        rfl
    rw [hothers]
    rcases (h line List.mem_cons_self).speaker with hspeaker | hspeaker | hspeaker
    · rw [hspeaker]; rfl
    · rw [hspeaker]; rfl
    · rw [hspeaker]; rfl

/-- **A text's lines, written as rows, are read again.** -/
theorem parseTranscript_rendered (hplain : PlainEntities python)
    (h : parseTranscript python body .text defaultSpeaker = .ok transcript) :
    parseTranscript python (joined (transcript.lines.map rendered)) .text defaultSpeaker =
      .ok transcript := by
  obtain ⟨hwell, -, htimes⟩ := wellFormed_lines hplain h
  obtain ⟨hgiven, rows, -, hlines, hne, hformat⟩ := parseTranscript_eq_ok.mp h
  have hlength : transcript.lines.length ≤ MAX_TRANSCRIPT_LINES :=
    length_textLines (Nat.zero_le _) hlines
  have hrows : splitRows (joined (transcript.lines.map rendered)) =
      transcript.lines.map rendered := by
    refine splitRows_joined (fun hnil => hne (List.map_eq_nil_iff.mp hnil)) fun row hrow => ?_
    obtain ⟨line, hline, rfl⟩ := List.mem_map.mp hrow
    exact not_isNewline_of_tidy (tidy_rendered (hwell line hline))
  refine parseTranscript_eq_ok.mpr ⟨hgiven, transcript.lines.map rendered,
    decodedLines_eq_ok.mpr ⟨?_, ?_, ?_⟩, ?_, hne, hformat⟩
  · rw [removeBom_joined_rendered hwell, hrows]
  · rw [List.length_map]
    exact hlength.trans (by decide)
  · intro row hrow
    obtain ⟨line, hline, rfl⟩ := List.mem_map.mp hrow
    exact plain_rendered (hwell line hline)
  · have hread : textLines defaultSpeaker 1 (transcript.lines.map rendered) [] =
        .ok ([] ++ transcript.lines) :=
      textLines_rendered (fun line hline => ⟨hwell line hline, htimes rfl line hline⟩) hlength
    exact hread

/-- **A transcript does not depend on its layout.** -/
theorem parseTranscript_layout (hplain : PlainEntities python)
    (h : parseTranscript python body format defaultSpeaker = .ok transcript) :
    (∀ line ∈ transcript.lines,
      ('ſ' ∉ line.speaker → line.speaker = USER ∨ line.speaker = AGENT) ∧ line.text ≠ [] ∧
        Tidy isSpace ' ' line.text ∧ (∀ c ∈ line.text, isControl c = false) ∧
        (format = .vtt → Timed line)) ∧
      (∀ crlf, parseTranscript python (rewritten crlf 0 body) format defaultSpeaker =
        .ok transcript) ∧
      (format = .vtt → ∀ body',
        Rewrapped (splitRows (removeBom body)) (splitRows (removeBom body')) →
        sourceLines (removeBom body') ≤ MAX_TRANSCRIPT_SOURCE_LINES →
        parseTranscript python body' format defaultSpeaker = .ok transcript) ∧
      (format = .text → parseTranscript python (joined (transcript.lines.map rendered)) format
        defaultSpeaker = .ok transcript) := by
  obtain ⟨hwell, htimed, -⟩ := wellFormed_lines hplain h
  refine ⟨fun line hline => ?_, fun crlf => ?_, ?_, ?_⟩
  · have hline' := hwell line hline
    refine ⟨fun hletter => ?_, hline'.nonempty, hline'.tidy, hline'.plain,
      fun hformat => htimed hformat line hline⟩
    rcases hline'.speaker with hspeaker | hspeaker | hspeaker
    · exact Or.inl hspeaker
    · exact Or.inr hspeaker
    · rw [hspeaker] at hletter
      exact absurd (by decide) hletter
  · rw [parseTranscript_rewritten, h]
  · rintro rfl body' hrows hlength
    exact parseTranscript_rewrapped h hrows hlength
  · rintro rfl
    exact parseTranscript_rendered hplain h

/-! ## Where layout counts -/

theorem voice_of_no_tag {text : Text} (h : '<' ∉ text) : voice text = none := by
  fun_induction voice text with
  | case1 => exact absurd List.mem_cons_self h
  | case2 c rest _ ih => exact ih fun hmem => h (List.mem_cons_of_mem _ hmem)
  | case3 => rfl

theorem withoutTags_of_no_tag {text : Text} (h : '<' ∉ text) : withoutTags text = text := by
  unfold withoutTags
  induction text with
  | nil => rfl
  | cons c rest ih =>
    obtain ⟨hc, hrest⟩ := not_or.mp (mt List.mem_cons.mpr h)
    rw [withoutTagsFrom, if_neg fun htag => hc htag.1.symm, ih hrest]

theorem unescape_of_no_reference {text : Text} (h : '&' ∉ text) :
    unescape python text = .ok text := by
  unfold unescape
  induction text with
  | nil => rfl
  | cons c rest ih =>
    obtain ⟨hc, hrest⟩ := not_or.mp (mt List.mem_cons.mpr h)
    rw [unescapeFrom, if_neg (Ne.symm hc)]
    dsimp only
    rw [ih hrest]
    rfl

/-- A cue of one row without markup, references or a label says its row. -/
theorem cueLine_unmarked {text speaker : Text} {startMs endMs : ℕ} (htidy : Tidy isSpace ' ' text)
    (hne : text ≠ []) (htag : '<' ∉ text) (href : '&' ∉ text) (hlabel : labelled text = none) :
    cueLine python [text] startMs endMs number (some speaker) =
      .ok (some ⟨speaker, text, some startMs, some endMs⟩) := by
  have hjoin : joinRows [text] = text := List.intercalate_singleton
  have hcollapsed : collapsed text = text := collapse_of_tidy htidy
  rw [cueLine, hjoin, withoutTags_of_no_tag htag, unescape_of_no_reference href, ok_bind]
  simp only [hcollapsed, if_neg hne, voice_of_no_tag htag, hlabel, Option.join_none,
    Option.filter_none, Option.map_none]

/-- Python, of no named references. -/
def asciiPython : Python where
  digit c := if isDecimal c then some (c.toNat - '0'.toNat) else none
  entity _ := none
  maxStrDigits := 4300

def header : Text := ['W', 'E', 'B', 'V', 'T', 'T']

def timing : Text :=
  ['0', '0', ':', '0', '0', '.', '0', '0', '0', ' ', '-', '-', '>', ' ', '0', '0', ':', '0', '1',
    '.', '0', '0', '0']

/-- A file of one cue. -/
def cueFile (payload : List Text) : Text := joined (header :: [] :: timing :: payload)

/-- A text of some words. -/
def words (count : ℕ) : Text := joinRows (List.replicate count ['a'])

theorem mem_words {count : ℕ} {c : Char} (h : c ∈ words count) : c = ' ' ∨ c = 'a' := by
  rcases mem_joinRows h with rfl | ⟨row, hrow, hc⟩
  · exact Or.inl rfl
  · obtain rfl := List.eq_of_mem_replicate hrow
    exact Or.inr (List.mem_singleton.mp hc)

theorem words_succ {count : ℕ} (hcount : 0 < count) :
    words (count + 1) = 'a' :: ' ' :: words count :=
  joinRows_cons ['a'] fun hnil => by
    rw [List.replicate_eq_nil_iff] at hnil
    omega

theorem words_ne_nil {count : ℕ} (hcount : 0 < count) : words count ≠ [] := by
  obtain ⟨count, rfl⟩ := Nat.exists_eq_succ_of_ne_zero hcount.ne'
  cases count with
  | zero => exact List.cons_ne_nil _ _
  | succ count =>
    rw [words_succ (Nat.succ_pos _)]
    exact List.cons_ne_nil _ _

theorem tidy_words {count : ℕ} (hcount : 0 < count) : Tidy isSpace ' ' (words count) := by
  induction count with
  | zero => cases hcount
  | succ count ih =>
    cases count with
    | zero =>
      have hletter : isSpace 'a' = false := by decide
      refine ⟨fun c hc hspace => ?_, List.isChain_singleton _, fun c hc => ?_, fun c hc => ?_⟩
      · obtain rfl := List.mem_singleton.mp hc
        exact absurd hspace (Bool.eq_false_iff.mp hletter)
      · obtain rfl := Option.some.inj hc
        exact hletter
      · obtain rfl := Option.some.inj hc
        exact hletter
    | succ count =>
      rw [words_succ (Nat.succ_pos _)]
      have hword : ∀ c ∈ ['a'], isSpace c = false := forall_of_all (by decide)
      exact (ih (Nat.succ_pos _)).word (words_ne_nil (Nat.succ_pos _))
        (List.cons_ne_nil _ _) hword

theorem labelled_words {count : ℕ} (hcount : 0 < count) : labelled (words count) = none := by
  obtain ⟨count, rfl⟩ := Nat.exists_eq_succ_of_ne_zero hcount.ne'
  cases count with
  | zero => rfl
  | succ count =>
    rw [words_succ (Nat.succ_pos _)]
    rfl

theorem isPayload_words {count : ℕ} (hcount : 0 < count) : isPayload (words count) = true := by
  rw [isPayload, Bool.and_eq_true, Bool.not_eq_true', Bool.not_eq_true']
  constructor
  · rw [isBlank, List.all_eq_false]
    obtain ⟨c, rest, hwords⟩ := List.exists_cons_of_ne_nil (words_ne_nil hcount)
    refine ⟨c, by rw [hwords]; exact List.mem_cons_self, ?_⟩
    rw [(tidy_words hcount).first c (by rw [hwords]; rfl)]
    exact Bool.false_ne_true
  · rw [Bool.eq_false_iff]
    intro harrow
    rcases mem_words (mem_of_partitionArrow harrow) with h | h
    · exact absurd h (by decide)
    · exact absurd h (by decide)

theorem splitRows_cueFile {payload : List Text}
    (hpayload : ∀ row ∈ payload, ∀ c ∈ row, c = ' ' ∨ c = 'a') :
    splitRows (removeBom (cueFile payload)) = header :: [] :: timing :: payload := by
  have hbom : removeBom (cueFile payload) = cueFile payload := by
    cases payload <;> rfl
  rw [hbom]
  refine splitRows_joined (List.cons_ne_nil _ _) fun row hrow c hc => ?_
  rcases List.mem_cons.mp hrow with rfl | hrow
  · exact (forall_of_all (by decide) : ∀ c ∈ header, isNewline c = false) c hc
  · rcases List.mem_cons.mp hrow with rfl | hrow
    · exact absurd hc List.not_mem_nil
    · rcases List.mem_cons.mp hrow with rfl | hrow
      · exact (forall_of_all (by decide) : ∀ c ∈ timing, isNewline c = false) c hc
      · rcases hpayload row hrow c hc with rfl | rfl
        · decide
        · decide

theorem cueTimes_timing : cueTimes asciiPython timing number = .ok (0, 1000) := by
  have hstart : milliseconds asciiPython ['0', '0', ':', '0', '0', '.', '0', '0', '0'] number =
      .ok 0 := by
    rw [milliseconds]
    rfl
  have hend : milliseconds asciiPython ['0', '0', ':', '0', '1', '.', '0', '0', '0'] number =
      .ok 1000 := by
    rw [milliseconds]
    rfl
  have hsides : partitionArrow timing =
      some (['0', '0', ':', '0', '0', '.', '0', '0', '0', ' '],
        [' ', '0', '0', ':', '0', '1', '.', '0', '0', '0']) := by decide
  rw [cueTimes, hsides]
  show (milliseconds asciiPython ['0', '0', ':', '0', '0', '.', '0', '0', '0'] number >>= _) = _
  rw [hstart, ok_bind]
  show (milliseconds asciiPython ['0', '0', ':', '0', '1', '.', '0', '0', '0'] number >>= _) = _
  rw [hend]
  rfl

/-- One row of words is one line. -/
theorem parseTranscript_words {count : ℕ} (hcount : 0 < count) :
    parseTranscript asciiPython (cueFile [words count]) .vtt (some USER) =
      .ok ⟨.vtt, [⟨USER, words count, some 0, some 1000⟩]⟩ := by
  have hrows : splitRows (removeBom (cueFile [words count])) = _ :=
      splitRows_cueFile fun row hrow c hc => by
        obtain rfl := List.mem_singleton.mp hrow
        exact mem_words hc
  have htake : [words count].takeWhile isPayload = [words count] :=
    List.takeWhile_cons_of_pos (isPayload_words hcount)
  have hdrop : [words count].dropWhile isPayload = [] :=
    List.dropWhile_cons_of_pos (isPayload_words hcount)
  have hcue : cue asciiPython (some USER) timing [words count] 3 =
      .ok (some ⟨USER, words count, some 0, some 1000⟩) := by
    rw [cue, cueTimes_timing, ok_bind, htake]
    refine cueLine_unmarked (tidy_words hcount) (words_ne_nil hcount) (fun hmem => ?_)
      (fun hmem => ?_) (labelled_words hcount)
    · rcases mem_words hmem with h | h
      · exact absurd h (by decide)
      · exact absurd h (by decide)
    · rcases mem_words hmem with h | h
      · exact absurd h (by decide)
      · exact absurd h (by decide)
  refine parseTranscript_eq_ok.mpr ⟨?_, _, decodedLines_eq_ok.mpr ⟨hrows.symm, ?_, ?_⟩, ?_,
    List.cons_ne_nil _ _, rfl⟩
  · intro speaker hspeaker
    exact Or.inl (Option.some.inj hspeaker).symm
  · exact (by decide : 4 ≤ MAX_TRANSCRIPT_SOURCE_LINES)
  · refine List.forall_mem_cons.mpr ⟨forall_of_all (by decide), List.forall_mem_cons.mpr
      ⟨forall_of_all (by decide), List.forall_mem_cons.mpr
        ⟨forall_of_all (by decide), List.forall_mem_singleton.mpr fun c hc => ?_⟩⟩⟩
    rcases mem_words hc with rfl | rfl
    · decide
    · decide
  · rw [linesOf, vttLines, if_pos (by decide)]
    have hskip : ([] :: timing :: [words count]).dropWhile (fun row => !isBlank row) =
        [] :: timing :: [words count] := List.dropWhile_cons_of_neg (by decide)
    have hnone : ([] :: timing :: [words count]).takeWhile (fun row => !isBlank row) = [] :=
      List.takeWhile_cons_of_neg (by decide)
    rw [hskip, hnone, vttCues.eq_def]
    dsimp only
    rw [if_pos (by decide), vttCues.eq_def]
    dsimp only
    rw [if_neg (by decide), if_pos (by decide)]
    show (cue asciiPython (some USER) timing [words count] 3 >>= _) = _
    rw [hcue, ok_bind, hdrop]
    show (Except.ok _ >>= _) = _
    rw [ok_bind, vttCues_nil]
    rfl

/-- Words in rows of their own are the same cue, wrapped otherwise. -/
theorem rewrapped_words {count : ℕ} (hcount : 0 < count) :
    Rewrapped (splitRows (removeBom (cueFile [words count])))
      (splitRows (removeBom (cueFile (List.replicate count ['a'])))) := by
  have hsingle : ∀ row ∈ [words count], ∀ c ∈ row, c = ' ' ∨ c = 'a' := fun row hrow c hc => by
    obtain rfl := List.mem_singleton.mp hrow
    exact mem_words hc
  have hmany : ∀ row ∈ List.replicate count ['a'], ∀ c ∈ row, c = ' ' ∨ c = 'a' := by
    intro row hrow c hc
    obtain rfl := List.eq_of_mem_replicate hrow
    exact Or.inr (List.mem_singleton.mp hc)
  rw [splitRows_cueFile hsingle, splitRows_cueFile hmany]
  have hpayload : ∀ row ∈ [words count], isPayload row = true := fun row hrow => by
    obtain rfl := List.mem_singleton.mp hrow
    exact isPayload_words hcount
  have hpayload' : ∀ row ∈ List.replicate count ['a'], isPayload row = true := fun row hrow => by
    obtain rfl := List.eq_of_mem_replicate hrow
    decide
  have hcue : Rewrapped (timing :: ([words count] ++ []))
      (timing :: (List.replicate count ['a'] ++ [])) :=
    Rewrapped.cue (by decide) hpayload hpayload' List.intercalate_singleton Rewrapped.nil
  rw [List.append_nil, List.append_nil] at hcue
  exact Rewrapped.row _ (Rewrapped.row _ hcue)

/-- Too many rows are not read. -/
theorem parseTranscript_tall {count : ℕ} (hcount : MAX_TRANSCRIPT_SOURCE_LINES < count) :
    parseTranscript asciiPython (cueFile (List.replicate count ['a'])) .vtt (some USER) ≠
      .ok transcript := by
  intro h
  obtain ⟨-, rows, hrows, -⟩ := parseTranscript_eq_ok.mp h
  obtain ⟨rfl, hlength, -⟩ := decodedLines_eq_ok.mp hrows
  rw [splitRows_cueFile fun row hrow c hc => by
    obtain rfl := List.eq_of_mem_replicate hrow
    exact Or.inr (List.mem_singleton.mp hc)] at hlength
  simp only [List.length_cons, List.length_replicate] at hlength
  omega

/-- A text with a control character that is not refused: U+0081. -/
def C1_TEXT : Text := ['a', Char.ofNat 0x81, 'b']

/-- **A cue wrapped into too many rows is not read, a label with a long s is no
speaker, and a control character past DEL is kept.** -/
theorem parseTranscript_of_layout :
    (parseTranscript asciiPython (cueFile [words 80001]) .vtt (some USER) =
        .ok ⟨.vtt, [⟨USER, words 80001, some 0, some 1000⟩]⟩ ∧
      Rewrapped (splitRows (removeBom (cueFile [words 80001])))
        (splitRows (removeBom (cueFile (List.replicate 80001 ['a'])))) ∧
      parseTranscript asciiPython (cueFile (List.replicate 80001 ['a'])) .vtt (some USER) ≠
        .ok ⟨.vtt, [⟨USER, words 80001, some 0, some 1000⟩]⟩) ∧
    parseTranscript asciiPython (LONG_USER ++ [':', ' ', 'h', 'i']) .text none =
      .ok ⟨.text, [⟨LONG_USER, ['h', 'i'], none, none⟩]⟩ ∧
    (LONG_USER ≠ USER ∧ LONG_USER ≠ AGENT) ∧
    parseTranscript asciiPython (USER ++ ':' :: ' ' :: C1_TEXT) .text none =
      .ok ⟨.text, [⟨USER, C1_TEXT, none, none⟩]⟩ :=
  ⟨⟨parseTranscript_words (by decide), rewrapped_words (by decide),
    parseTranscript_tall (by decide)⟩, by rfl, ⟨by decide, by decide⟩, by rfl⟩

/-- Two words in one row are the same transcript in any layout. -/
theorem parseTranscript_layout_words :
    (∀ crlf, parseTranscript asciiPython (rewritten crlf 0 (cueFile [words 2])) .vtt (some USER) =
      .ok ⟨.vtt, [⟨USER, words 2, some 0, some 1000⟩]⟩) ∧
    parseTranscript asciiPython (cueFile [['a'], ['a']]) .vtt (some USER) =
      .ok ⟨.vtt, [⟨USER, words 2, some 0, some 1000⟩]⟩ := by
  have hplain : PlainEntities asciiPython := fun _ _ h => absurd h (Option.some_ne_none _).symm
  obtain ⟨-, hnewlines, hwrapped, -⟩ :=
    parseTranscript_layout hplain (parseTranscript_words (by decide : 0 < 2))
  exact ⟨hnewlines, hwrapped rfl _ (rewrapped_words (by decide)) (by decide)⟩

end Earshot.Uploads
