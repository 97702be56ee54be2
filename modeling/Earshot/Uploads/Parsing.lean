import Earshot.Common.Spaces
import Earshot.Transcript.Lines
/-!
# Uploaded transcripts

A client uploads a recording's transcript as WebVTT or as plain text. Its rows
are split at any newline; a text's lines are its rows that are not blank, and
a WebVTT file's lines are its cues that say something. A line's speaker is
named by a voice or by a label, or is the recording's own.

A body is given by the characters its bytes decode to. What Python knows is
taken as it is: the value of a digit, what a named character reference stands
for, and how many digits `int` reads.
-/

namespace Earshot.Uploads

abbrev Text : Type := List Char

/-- Of Python: `\d` and a digit's value, the table of named references, and
the most digits `int` reads, or zero for any number. -/
structure Python where
  digit : Char → Option ℕ
  entity : Text → Option Text
  maxStrDigits : ℕ

def MAX_TRANSCRIPT_LINES : ℕ := 10000

def MAX_TRANSCRIPT_SOURCE_LINES : ℕ := MAX_TRANSCRIPT_LINES * 8

def MAX_TIMESTAMP_HOUR_DIGITS : ℕ := 1000

inductive Format where
  | vtt
  | text
  deriving DecidableEq

/-- One line: who spoke, what, and when, from the recording's start. -/
structure UploadedLine where
  speaker : Text
  text : Text
  startMs : Option ℕ
  endMs : Option ℕ
  deriving DecidableEq

structure Transcript where
  format : Format
  lines : List UploadedLine
  deriving DecidableEq

/-- What is read, or the message of a `TranscriptFormatError`. -/
abbrev Parse (α : Type) := Except String α

def USER : Text := ['u', 's', 'e', 'r']

def AGENT : Text := ['a', 'g', 'e', 'n', 't']

/-! ## Characters -/

/-- `_CONTROL` -/
def isControl (c : Char) : Bool :=
  c.toNat ≤ 8 ∨ c.toNat = 11 ∨ c.toNat = 12 ∨ (14 ≤ c.toNat ∧ c.toNat ≤ 31) ∨ c.toNat = 127

/-- `\s` -/
def isSpace (c : Char) : Bool := Transcript.isSpace c

def collapsed (text : Text) : Text := Spaces.collapse isSpace ' ' text

/-- `[ \t]` -/
def isPadding (c : Char) : Bool := c = ' ' ∨ c = '\t'

def isBlank (row : Text) : Bool := row.all isSpace

/-- `str.lower`: of the letters of the speakers' names no other character is
the capital. -/
def lower (text : Text) : Text := text.map Char.toLower

/-! ## Rows -/

/-- A character before the first row. -/
def consRow (c : Char) : List Text → List Text
  | row :: rows => (c :: row) :: rows
  | [] => [[c]]

/-- `_NEWLINE.split` -/
def splitRows : Text → List Text
  | [] => [[]]
  | '\r' :: '\n' :: rest => [] :: splitRows rest
  | '\r' :: rest => [] :: splitRows rest
  | '\n' :: rest => [] :: splitRows rest
  | c :: rest => consRow c (splitRows rest)

/-- `text.count("\r\n")` -/
def countCrlf : Text → ℕ
  | '\r' :: '\n' :: rest => countCrlf rest + 1
  | _ :: rest => countCrlf rest
  | [] => 0

/-- `source_lines` -/
def sourceLines (text : Text) : ℕ :=
  text.countP (· = '\n') + text.countP (· = '\r') - countCrlf text + 1

def removeBom (body : Text) : Text := if body.head? = some '\ufeff' then body.drop 1 else body

/-- The number of the first row that holds a control character. -/
def controlRow (rows : List Text) : Option ℕ := (rows.findIdx? (·.any isControl)).map (· + 1)

/-- `_decoded_lines`, of a body that is UTF-8. -/
def decodedLines (body : Text) : Parse (List Text) :=
  let text := removeBom body
  if MAX_TRANSCRIPT_SOURCE_LINES < sourceLines text then
    .error s!"the transcript has more than {MAX_TRANSCRIPT_SOURCE_LINES} source lines"
  else
    match controlRow (splitRows text) with
    | some number => .error s!"line {number}: control characters are not allowed"
    | none => .ok (splitRows text)

/-! ## Labels -/

/-- One character of a pattern, ignoring case: a long s is an s. -/
def sameLetter (letter c : Char) : Bool := c.toLower = letter ∨ (letter = 's' ∧ c = 'ſ')

/-- What a text begins with, if that is a word ignoring case, and what follows. -/
def wordPrefix : Text → Text → Option (Text × Text)
  | [], text => some ([], text)
  | _ :: _, [] => none
  | letter :: letters, c :: rest =>
      if sameLetter letter c then
        (wordPrefix letters rest).map fun found => (c :: found.1, found.2)
      else none

/-- `_LABEL.fullmatch`: the speaker and the text. -/
def labelled (text : Text) : Option (Text × Text) :=
  ((wordPrefix USER text).or (wordPrefix AGENT text)).bind fun found =>
    match found.2.dropWhile isPadding with
    | ':' :: rest => some (lower found.1, rest.dropWhile isPadding)
    | _ => none

/-- `_append` -/
def appendLine (lines : List UploadedLine) (line : UploadedLine) : Parse (List UploadedLine) :=
  if lines.length = MAX_TRANSCRIPT_LINES then
    .error s!"the transcript has more than {MAX_TRANSCRIPT_LINES} lines"
  else .ok (lines ++ [line])

/-- The lines with what was read of the next, if it is one. -/
def appendRead (lines : List UploadedLine) : Option UploadedLine → Parse (List UploadedLine)
  | none => .ok lines
  | some line => appendLine lines line

/-! ## Text -/

/-- One row of `_text_lines`: its line, if it is not blank. -/
def textLine (defaultSpeaker : Option Text) (number : ℕ) (row : Text) :
    Parse (Option UploadedLine) :=
  let text := collapsed row
  if text = [] then .ok none
  else
    match labelled text, defaultSpeaker with
    | some (speaker, text), _ =>
        if text = [] then .error s!"line {number}: the line has no text after its speaker"
        else .ok (some ⟨speaker, text, none, none⟩)
    | none, some speaker => .ok (some ⟨speaker, text, none, none⟩)
    | none, none =>
        .error (s!"line {number}: start the line with 'user:' or 'agent:' " ++
          "(the recording holds both speakers)")

/-- `_text_lines`, from a row on. -/
def textLines (defaultSpeaker : Option Text) :
    ℕ → List Text → List UploadedLine → Parse (List UploadedLine)
  | _, [], lines => .ok lines
  | number, row :: rows, lines => do
      let line ← textLine defaultSpeaker number row
      let read ← appendRead lines line
      textLines defaultSpeaker (number + 1) rows read

/-! ## Cue times -/

section Vtt

variable (python : Python)

/-- `(\d{2,})` or `(\d{3})`: the value of some digits. -/
def digits (text : Text) : Option ℕ :=
  text.foldl (fun value c => value.bind fun n => (python.digit c).map (10 * n + ·)) (some 0)

/-- `int` reads this many digits. -/
def readsDigits (text : Text) : Bool :=
  python.maxStrDigits = 0 ∨ text.length ≤ python.maxStrDigits

/-- `[0-5]\d` -/
def sixty : Text → Option ℕ
  | [tens, ones] =>
      if '0' ≤ tens ∧ tens ≤ '5' then
        (python.digit ones).map (10 * (tens.toNat - '0'.toNat) + ·)
      else none
  | _ => none

def LATEST_TIME_MESSAGE : String :=
  "the cue time is later than the latest time Earshot stores (2^63 - 1 ns after 1970)"

/-- `_TIMESTAMP.fullmatch`: hours, minutes, seconds and milliseconds. -/
def timestamp (value : Text) : Option (Text × ℕ × ℕ × ℕ) :=
  let hours := value.take (value.length - 9)
  let clock := value.drop (value.length - 9)
  match clock with
  | [m₁, m₂, ':', s₁, s₂, '.', f₁, f₂, f₃] =>
      (sixty python [m₁, m₂]).bind fun minutes =>
        (sixty python [s₁, s₂]).bind fun seconds =>
          (digits python [f₁, f₂, f₃]).bind fun millis =>
            if hours = [] then some (['0'], minutes, seconds, millis)
            else if hours.getLast? = some ':' ∧ 2 ≤ hours.dropLast.length ∧
                (digits python hours.dropLast).isSome then
              some (hours.dropLast, minutes, seconds, millis)
            else none
  | _ => none

/-- `_milliseconds` -/
def milliseconds (value : Text) (number : ℕ) : Parse ℕ :=
  match timestamp python value with
  | none =>
      .error (s!"line {number}: a cue time is HH:MM:SS.mmm or MM:SS.mmm (minutes and seconds " ++
        "below 60, three digits of milliseconds)")
  | some (hours, minutes, seconds, millis) =>
      let significant := hours.dropWhile (· = '0')
      if MAX_TIMESTAMP_HOUR_DIGITS < significant.length ∨ ¬ readsDigits python significant then
        .error (s!"line {number}: " ++ LATEST_TIME_MESSAGE)
      else
        let hourCount := (digits python significant).getD 0
        .ok (((hourCount * 60 + minutes) * 60 + seconds) * 1000 + millis)

/-! ## Character references -/

/-- The replacements of numbers that are read as another character. -/
def INVALID_CHARREFS : List (ℕ × Char) :=
  [(0x00, '\ufffd'), (0x0d, '\r'), (0x80, '\u20ac'), (0x81, '\u0081'), (0x82, '\u201a'),
    (0x83, '\u0192'), (0x84, '\u201e'), (0x85, '\u2026'), (0x86, '\u2020'), (0x87, '\u2021'),
    (0x88, '\u02c6'), (0x89, '\u2030'), (0x8a, '\u0160'), (0x8b, '\u2039'), (0x8c, '\u0152'),
    (0x8d, '\u008d'), (0x8e, '\u017d'), (0x8f, '\u008f'), (0x90, '\u0090'), (0x91, '\u2018'),
    (0x92, '\u2019'), (0x93, '\u201c'), (0x94, '\u201d'), (0x95, '\u2022'), (0x96, '\u2013'),
    (0x97, '\u2014'), (0x98, '\u02dc'), (0x99, '\u2122'), (0x9a, '\u0161'), (0x9b, '\u203a'),
    (0x9c, '\u0153'), (0x9d, '\u009d'), (0x9e, '\u017e'), (0x9f, '\u0178')]

/-- The numbers that are read as nothing. -/
def isInvalidCodepoint (n : ℕ) : Bool :=
  (1 ≤ n ∧ n ≤ 8) ∨ (0xe ≤ n ∧ n ≤ 0x1f) ∨ (0x7f ≤ n ∧ n ≤ 0x9f) ∨ (0xfdd0 ≤ n ∧ n ≤ 0xfdef) ∨
    n = 0xb ∨ n % 0x10000 = 0xfffe ∨ n % 0x10000 = 0xffff

/-- A number's character, as a reference to it is read. -/
def charOfNumber (n : ℕ) : Text :=
  match INVALID_CHARREFS.find? fun item => item.1 = n with
  | some item => [item.2]
  | none =>
      if (0xd800 ≤ n ∧ n ≤ 0xdfff) ∨ 0x10ffff < n then ['\ufffd']
      else if isInvalidCodepoint n then []
      else [Char.ofNat n]

def isDecimal (c : Char) : Bool := '0' ≤ c ∧ c ≤ '9'

def isHexadecimal (c : Char) : Bool :=
  ('0' ≤ c ∧ c ≤ '9') ∨ ('a' ≤ c ∧ c ≤ 'f') ∨ ('A' ≤ c ∧ c ≤ 'F')

def hexValue (c : Char) : ℕ :=
  if c ≤ '9' then c.toNat - '0'.toNat
  else if 'a' ≤ c then c.toNat - 'a'.toNat + 10
  else c.toNat - 'A'.toNat + 10

/-- Of a named reference, a character. -/
def isNameChar (c : Char) : Bool :=
  c ≠ '\t' ∧ c ≠ '\n' ∧ c ≠ '\x0c' ∧ c ≠ ' ' ∧ c ≠ '<' ∧ c ≠ '&' ∧ c ≠ '#' ∧ c ≠ ';'

/-- A reference's digits or name, with its semicolon if it has one. -/
def withSemicolon (name rest : Text) : Text :=
  match rest with
  | ';' :: _ => name ++ [';']
  | _ => name

/-- `_charref`, after the ampersand: the reference, if there is one. -/
def reference (text : Text) : Option Text :=
  let numeric : Option Text :=
    match text with
    | '#' :: c :: rest =>
        if isDecimal c then
          let number := (c :: rest).takeWhile isDecimal
          some ('#' :: withSemicolon number ((c :: rest).dropWhile isDecimal))
        else if (c = 'x' ∨ c = 'X') ∧ rest.head?.any isHexadecimal then
          let number := rest.takeWhile isHexadecimal
          some ('#' :: c :: withSemicolon number (rest.dropWhile isHexadecimal))
        else none
    | _ => none
  let name := (text.takeWhile isNameChar).take 32
  numeric.or (if name = [] then none else some (withSemicolon name (text.drop name.length)))

/-- The longest prefix of a name that the table holds, of two characters or
more, with what follows it. -/
def longestEntity (name : Text) : ℕ → Option Text
  | 0 => none
  | length + 1 =>
      if length + 1 < 2 then none
      else
        ((python.entity (name.take (length + 1))).map (· ++ name.drop (length + 1))).or
          (longestEntity name length)

/-- `int`, of a reference's decimal digits. -/
def decimal (text : Text) : Parse ℕ :=
  let count := text.length
  let limit := python.maxStrDigits
  if readsDigits python text then
    .ok (text.foldl (fun n d => 10 * n + (d.toNat - '0'.toNat)) 0)
  else
    .error (s!"Exceeds the limit ({limit} digits) for integer string conversion: value has " ++
      s!"{count} digits; use sys.set_int_max_str_digits() to increase the limit")

/-- `_replace_charref` -/
def replaceCharref (found : Text) : Parse Text :=
  match found with
  | '#' :: c :: rest =>
      if c = 'x' ∨ c = 'X' then
        .ok (charOfNumber ((rest.takeWhile isHexadecimal).foldl (fun n d => 16 * n + hexValue d) 0))
      else do
        let number ← decimal python ((c :: rest).takeWhile isDecimal)
        return charOfNumber number
  | _ =>
      .ok (((python.entity found).or (longestEntity python found (found.length - 1))).getD
        ('&' :: found))

/-- `html.unescape`, from a place on; the characters of a reference that was
read are passed by. -/
def unescapeFrom : ℕ → Text → Parse Text
  | _, [] => .ok []
  | passed + 1, _ :: rest => unescapeFrom passed rest
  | 0, c :: rest =>
      match if c = '&' then reference rest else none with
      | some found => do
          let read ← replaceCharref python found
          let others ← unescapeFrom found.length rest
          return read ++ others
      | none => do
          let others ← unescapeFrom 0 rest
          return c :: others

def unescape (text : Text) : Parse Text := unescapeFrom python 0 text

/-! ## Cues -/

/-- What follows `<v` in a voice tag: the voice, if it names one. -/
def voiceTag (text : Text) : Option (Option Text) :=
  let rest :=
    match text with
    | '.' :: rest => rest.dropWhile fun c => !isSpace c && c ≠ '>'
    | _ => text
  match rest with
  | '>' :: _ => some none
  | c :: _ =>
      if isPadding c && rest.any (· = '>') then
        some (some ((rest.dropWhile isPadding).takeWhile (· ≠ '>')))
      else none
  | [] => none

/-- `_VOICE.search` -/
def voice : Text → Option (Option Text)
  | '<' :: 'v' :: rest => (voiceTag rest).or (voice ('v' :: rest))
  | _ :: rest => voice rest
  | [] => none

/-- `_TAG.sub("", text)`, from a place on; the characters of a tag are passed
over. -/
def withoutTagsFrom : Bool → Text → Text
  | _, [] => []
  | true, c :: rest => withoutTagsFrom (c ≠ '>') rest
  | false, c :: rest =>
      if c = '<' ∧ rest.any (· = '>') then withoutTagsFrom true rest
      else c :: withoutTagsFrom false rest

def withoutTags (text : Text) : Text := withoutTagsFrom false text

def joinRows : List Text → Text := List.intercalate [' ']

/-- `_cue_line` -/
def cueLine (payload : List Text) (startMs endMs number : ℕ) (defaultSpeaker : Option Text) :
    Parse (Option UploadedLine) := do
  let raw := joinRows payload
  let named := ((voice raw).join.filter (· ≠ [])).map (Spaces.strip isSpace)
  let text := collapsed (← unescape python (withoutTags raw))
  if text = [] then .ok none
  else
    match named, labelled text, defaultSpeaker with
    | some name, _, _ =>
        if lower name = USER ∨ lower name = AGENT then
          .ok (some ⟨lower name, text, some startMs, some endMs⟩)
        else
          .error s!"line {number}: the speaker must be user or agent (<v user>, <v agent>)"
    | none, some (speaker, text), _ =>
        if text = [] then .ok none else .ok (some ⟨speaker, text, some startMs, some endMs⟩)
    | none, none, some speaker => .ok (some ⟨speaker, text, some startMs, some endMs⟩)
    | none, none, none =>
        .error (s!"line {number}: name the speaker with <v user> or <v agent> " ++
          "(the recording holds both speakers)")

/-! ## WebVTT -/

/-- `-->`, in a row, with what is before and after the first. -/
def partitionArrow : Text → Option (Text × Text)
  | '-' :: '-' :: '>' :: rest => some ([], rest)
  | c :: rest => (partitionArrow rest).map fun found => (c :: found.1, found.2)
  | [] => none

def hasArrow (row : Text) : Bool := (partitionArrow row).isSome

/-- A keyword alone, or with something after a blank. -/
def isKeyword (word : Text) (row : Text) : Bool :=
  word.isPrefixOf row && (row.drop word.length).head?.all isPadding

/-- `_WEBVTT.fullmatch` -/
def isHeader (row : Text) : Bool := isKeyword ['W', 'E', 'B', 'V', 'T', 'T'] row

/-- `_SKIPPED_BLOCK.fullmatch` -/
def isSkippedBlock (row : Text) : Bool :=
  isKeyword ['N', 'O', 'T', 'E'] row || isKeyword ['S', 'T', 'Y', 'L', 'E'] row ||
    isKeyword ['R', 'E', 'G', 'I', 'O', 'N'] row

/-- A row of a cue's text. -/
def isPayload (row : Text) : Bool := !isBlank row && !hasArrow row

/-- The times of a cue's timing row. -/
def cueTimes (row : Text) (number : ℕ) : Parse (ℕ × ℕ) := do
  let sides := (partitionArrow row).getD (row, [])
  let startMs ← milliseconds python (Spaces.strip isSpace sides.1) number
  let endMs ← milliseconds python
    ((sides.2.dropWhile isSpace).takeWhile fun c => !isSpace c) number
  if endMs < startMs then .error s!"line {number}: the cue ends before it starts"
  else .ok (startMs, endMs)

/-- A cue: its timing row, and the rows of its text after it. -/
def cue (defaultSpeaker : Option Text) (timing : Text) (after : List Text) (number : ℕ) :
    Parse (Option UploadedLine) := do
  let times ← cueTimes python timing number
  cueLine python (after.takeWhile isPayload) times.1 times.2 number defaultSpeaker

/-- The cues of `_vtt_lines`, from a row on. -/
def vttCues (defaultSpeaker : Option Text) (number : ℕ) (rows : List Text)
    (lines : List UploadedLine) : Parse (List UploadedLine) :=
  match rows with
  | [] => .ok lines
  | row :: rest =>
      if isBlank row then vttCues defaultSpeaker (number + 1) rest lines
      else if hasArrow row then do
        let line ← cue python defaultSpeaker row rest number
        let read ← appendRead lines line
        vttCues defaultSpeaker (number + 1 + (rest.takeWhile isPayload).length)
          (rest.dropWhile isPayload) read
      else if isSkippedBlock row then
        vttCues defaultSpeaker (number + 1 + (rest.takeWhile fun row => !isBlank row).length)
          (rest.dropWhile fun row => !isBlank row) lines
      else
        -- a cue identifier: the timing is on the next row
        match rest with
        | [] => .error s!"line {number}: expected a cue timing (start --> end)"
        | timing :: after =>
            if hasArrow timing then do
              let line ← cue python defaultSpeaker timing after (number + 1)
              let read ← appendRead lines line
              vttCues defaultSpeaker (number + 2 + (after.takeWhile isPayload).length)
                (after.dropWhile isPayload) read
            else .error s!"line {number}: expected a cue timing (start --> end)"
  termination_by rows.length
  decreasing_by
    all_goals
      simp only [List.length_cons]
      first
        | omega
        | exact Nat.lt_succ_of_le (List.length_dropWhile_le _ _)
        | exact Nat.lt_succ_of_lt (Nat.lt_succ_of_le (List.length_dropWhile_le _ _))

/-- `_vtt_lines` -/
def vttLines (defaultSpeaker : Option Text) : List Text → Parse (List UploadedLine)
  | [] => .error "line 1: the file does not start with WEBVTT"
  | header :: rows =>
      if isHeader header then
        vttCues python defaultSpeaker (2 + (rows.takeWhile fun row => !isBlank row).length)
          (rows.dropWhile fun row => !isBlank row) []
      else .error "line 1: the file does not start with WEBVTT"

/-! ## Transcripts -/

/-- The lines of some rows. -/
def linesOf (defaultSpeaker : Option Text) (rows : List Text) :
    Format → Parse (List UploadedLine)
  | .vtt => vttLines python defaultSpeaker rows
  | .text => textLines defaultSpeaker 1 rows []

/-- `parse_transcript` -/
def parseTranscript (body : Text) (format : Format) (defaultSpeaker : Option Text) :
    Parse Transcript :=
  if defaultSpeaker.any fun speaker => speaker ≠ USER ∧ speaker ≠ AGENT then
    .error "a line's speaker is user or agent"
  else do
    let rows ← decodedLines body
    let parsed ← linesOf python defaultSpeaker rows format
    if parsed = [] then .error "the file has no transcript lines" else .ok ⟨format, parsed⟩

end Vtt

end Earshot.Uploads
