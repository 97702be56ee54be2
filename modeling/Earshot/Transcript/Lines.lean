import Earshot.Common.Bisect
import Earshot.Common.Grouping
import Earshot.Transcript.Document
/-!
# Transcript lines

A span carries a line of its call's transcript or none. A line is read from
its span, or from the text that was stored with it, and the lines are put in
one order: by time, and by the provider's own order where it gave one.

Identifiers are in hexadecimal. Of an attribute's value the kinds that no line
is made of have no content here.
-/

namespace Earshot.Transcript

open Bisect Grouping PageCursor

/-! ## Spans -/

/-- An OTLP value. -/
inductive AnyValue where
  | unset
  | string (s : String)
  | bool (b : Bool)
  | int (n : ℤ)
  | double
  | bytes
  | array
  | kvlist
  deriving DecidableEq

structure OtlpSpan where
  scopeName : String
  scopeVersion : String
  name : String
  traceId : String
  spanId : String
  startTimeUnixNano : ℕ
  endTimeUnixNano : ℕ
  attributes : List (String × AnyValue)
  deriving DecidableEq

def NOT_GIVEN : String := "NOT_GIVEN"
def HOST_SCOPE : String := "earshot.host"
def LIVEKIT_SCOPE : String := "livekit-agents"
def UPLOAD_SCOPE : String := "earshot.upload"
def PIPECAT_SCOPES : List String := ["pipecat", "pipecat.turn"]
def CONNECTOR_TRANSCRIPT_SPAN : String := "earshot.connector.transcript_line"
def CONNECTOR_TRANSCRIPT_TIMING : String := "earshot.connector.transcript.timing"
def CONNECTOR_TRANSCRIPT_INDEX : String := "earshot.connector.transcript.index"
def CONNECTOR_TRANSCRIPT_SPEAKER : String := "earshot.connector.transcript.speaker"
def LEGACY_HOST_PROFILE_VERSION : String := "0.1.0"
def SUPPORTED_HOST_PROFILE_VERSIONS : List String := ["0.1.0", "0.2.0"]
def HOST_PROFILE_0_2_VERSIONS : List String := ["0.2.0"]
def DEFAULT_MAX_VALUE_BYTES : ℕ := 64 * 1024

/-- `host_profile_scope_version` -/
def hostProfileScopeVersion (span : OtlpSpan) : Option String :=
  if span.scopeName ≠ HOST_SCOPE then none
  else if span.scopeVersion = "" then some LEGACY_HOST_PROFILE_VERSION
  else some span.scopeVersion

/-- `_attribute_value`: of the first of the keys the span carries, the first
value that is given. -/
def attributeValue (attributes : List (String × AnyValue)) (keys : List String) :
    Option AnyValue :=
  keys.findSome? fun key => (attributes.find? fun item =>
    item.1 = key ∧ item.2 ≠ .unset ∧ item.2 ≠ .string NOT_GIVEN).map Prod.snd

/-- `str.isspace`, of one character. -/
def isSpace (c : Char) : Bool :=
  (9 ≤ c.toNat ∧ c.toNat ≤ 13) ∨ (28 ≤ c.toNat ∧ c.toNat ≤ 32) ∨ c.toNat = 0x85 ∨
    c.toNat = 0xa0 ∨ c.toNat = 0x1680 ∨ (0x2000 ≤ c.toNat ∧ c.toNat ≤ 0x200a) ∨
    c.toNat = 0x2028 ∨ c.toNat = 0x2029 ∨ c.toNat = 0x202f ∨ c.toNat = 0x205f ∨ c.toNat = 0x3000

/-- `not text.strip()` -/
def isBlankText (text : String) : Bool := text.toList.all isSpace

/-- `text.replace("\x00", "")` -/
def withoutNul (text : String) : String := String.ofList (text.toList.filter fun c => c ≠ '\x00')

/-- `host_value`, of `earshot.transcript.text`: the text is valid. -/
def hostTranscript (spanName : String) (version : Option String) (text : String) : Bool :=
  spanName ∈ ["user_speech", "agent_speech"] ∧
    (∃ v ∈ version, v ∈ SUPPORTED_HOST_PROFILE_VERSIONS ∧ v ∈ HOST_PROFILE_0_2_VERSIONS) ∧
    ¬ isBlankText text = true ∧ text.utf8ByteSize ≤ DEFAULT_MAX_VALUE_BYTES

/-! ## A span's line -/

/-- Whether the span is one that carries a line, who speaks where its kind
says so, and the attributes its text may be in. -/
def lineSource (span : OtlpSpan) : Option (Option String × List String) :=
  if span.scopeName = HOST_SCOPE ∧
      (∃ v ∈ hostProfileScopeVersion span, v ∈ HOST_PROFILE_0_2_VERSIONS) ∧
      span.name ∈ ["user_speech", "agent_speech"] then
    some (some (if span.name = "user_speech" then "user" else "agent"),
      ["earshot.transcript.text"])
  else if span.name = CONNECTOR_TRANSCRIPT_SPAN ∧
      (span.scopeName = UPLOAD_SCOPE ∨ span.scopeName.startsWith "earshot.connector." = true) then
    some (none, ["earshot.connector.transcript.text"])
  else if span.scopeName ∈ PIPECAT_SCOPES ∧ span.name = "stt" then
    some (some "user", ["transcript"])
  else if span.scopeName ∈ PIPECAT_SCOPES ∧ span.name = "llm" then
    some (some "agent", ["output"])
  else if span.scopeName = LIVEKIT_SCOPE ∧ span.name = "user_turn" then
    some (some "user", ["lk.pii.user_transcript", "lk.user_transcript"])
  else if span.scopeName = LIVEKIT_SCOPE ∧ span.name = "agent_turn" then
    some (some "agent", ["lk.pii.response.text", "lk.response.text"])
  else none

/-- What reading a span can raise: a list and a dictionary have no hash. -/
inductive Raised where
  | typeError
  deriving DecidableEq

/-- `transcript_text` -/
def transcriptText (span : OtlpSpan) : Except Raised (Option (String × String)) :=
  match lineSource span with
  | none => .ok none
  | some (speaker, attributes) =>
    if span.scopeName = HOST_SCOPE ∧
        (span.attributes.filter fun item => item.1 = "earshot.transcript.text").length ≠ 1 then
      .ok none
    else
      match attributeValue span.attributes attributes with
      | some (.string text) =>
        if span.scopeName = HOST_SCOPE ∧
            hostTranscript span.name (hostProfileScopeVersion span) text = false then .ok none
        else
          let text := withoutNul text
          if isBlankText text then .ok none
          else
            match speaker with
            | some speaker => .ok (some (speaker, text))
            | none =>
              -- the value is looked up in a set
              match attributeValue span.attributes [CONNECTOR_TRANSCRIPT_SPEAKER] with
              | some (.string speaker) =>
                if speaker ∈ ["user", "agent"] then .ok (some (speaker, text)) else .ok none
              | some .array => .error .typeError
              | some .kvlist => .error .typeError
              | _ => .ok none
      | _ => .ok none

inductive Timing where
  | measured
  | startOnly
  | orderOnly
  deriving DecidableEq

def Timing.name : Timing → String
  | .measured => "measured"
  | .startOnly => "start_only"
  | .orderOnly => "order_only"

/-- A member of `_TRANSCRIPT_TIMINGS`. -/
def timingOf (name : String) : Option Timing :=
  [Timing.measured, .startOnly, .orderOnly].find? fun timing => timing.name = name

/-- `_transcript_metadata` -/
def transcriptMetadata (span : OtlpSpan) : Timing × Option ℕ :=
  if lineSource span = none ∨ span.name ≠ CONNECTOR_TRANSCRIPT_SPAN then (.measured, none)
  else
    let timing :=
      match attributeValue span.attributes [CONNECTOR_TRANSCRIPT_TIMING] with
      | some (.string name) => (timingOf name).getD .orderOnly
      | some _ => .orderOnly
      | none =>
        if span.startTimeUnixNano = span.endTimeUnixNano then .orderOnly else .measured
    let index :=
      match attributeValue span.attributes [CONNECTOR_TRANSCRIPT_INDEX] with
      | some (.int n) => if n < 0 then none else some n.toNat
      | _ => none
    (timing, index)

structure TranscriptLine where
  speaker : String
  text : String
  startUnixNano : ℕ
  endUnixNano : ℕ
  traceId : String
  spanId : String
  timing : Timing
  transcriptIndex : Option ℕ
  deriving DecidableEq

/-- The line `transcript_lines` makes of a span. -/
def lineOf (span : OtlpSpan) : Except Raised (Option TranscriptLine) :=
  (transcriptText span).map fun line => line.map fun line =>
    { speaker := line.1
      text := line.2
      startUnixNano := span.startTimeUnixNano
      endUnixNano := span.endTimeUnixNano
      traceId := span.traceId
      spanId := span.spanId
      timing := (transcriptMetadata span).1
      transcriptIndex := (transcriptMetadata span).2 }

/-! ## The stored text -/

/-- The document of a line: what is the default is left out. -/
def lineDocument (speaker text : String) (timing : Timing) (index : Option ℕ) :
    List (String × Scalar) :=
  [("speaker", .str speaker), ("text", .str text)] ++
    (if timing ≠ .measured then [("timing", .str timing.name)] else []) ++
    index.toList.map fun index => ("index", .nat index)

/-- `transcript_text_json` -/
def transcriptTextJson (span : OtlpSpan) : Except Raised (Option String) :=
  (transcriptText span).map fun line => line.map fun line =>
    String.ofList (dumpsObject (lineDocument line.1 line.2 (transcriptMetadata span).1
      (transcriptMetadata span).2))

def stringEntry (entries : List (List ℕ × Json)) (key : String) : Option String :=
  match getEntry entries key with
  | some (.str codes) => textOf codes
  | _ => none

/-- `stored_transcript_line`; a text that is no such document is none. -/
def storedTranscriptLine (textJson : String) (startUnixNano endUnixNano : ℕ)
    (traceId spanId : String) : Option TranscriptLine := do
  let line ← loadsObject textJson.toList
  let timing :=
    match getEntry line "timing" with
    | none => .measured
    | some (.str codes) => ((textOf codes).bind timingOf).getD .orderOnly
    | some _ => .orderOnly
  let index :=
    match getEntry line "index" with
    | some (.int n) => if n < 0 then none else some n.toNat
    | _ => none
  let speaker ← stringEntry line "speaker"
  let text ← stringEntry line "text"
  some { speaker, text, startUnixNano, endUnixNano, traceId, spanId, timing
         transcriptIndex := index }

/-- The line that is read back from what is stored of a span. -/
def storedLineOf (span : OtlpSpan) : Except Raised (Option TranscriptLine) :=
  (transcriptTextJson span).map fun textJson => textJson.bind fun textJson =>
    storedTranscriptLine textJson span.startTimeUnixNano span.endTimeUnixNano span.traceId
      span.spanId

/-! ## The order of the lines -/

/-- What no two lines of a call share. -/
def TranscriptLine.key (line : TranscriptLine) : String × String := (line.traceId, line.spanId)

/-- `(item.transcript_index, item.span_id)`, of a line with an index. -/
def TranscriptLine.indexKey (line : TranscriptLine) : ℕ ×ₗ String :=
  toLex (line.transcriptIndex.getD 0, line.spanId)

/-- `transcript_order` -/
def transcriptOrder (line : TranscriptLine) (effectiveStartUnixNano : Option ℕ) :
    ℕ ×ₗ String ×ₗ ℕ ×ₗ ℕ ×ₗ String :=
  toLex (effectiveStartUnixNano.getD line.startUnixNano, toLex (line.traceId,
    toLex (if line.transcriptIndex.isSome then 0 else 1,
      toLex (line.transcriptIndex.getD 0, line.spanId))))

/-- The effective starts of one trace's lines, in the provider's order. -/
def runningStarts : Option ℕ → List TranscriptLine → List ((String × String) × ℕ)
  | _, [] => []
  | previousStart, line :: lines =>
    let start := previousStart.elim line.startUnixNano (max line.startUnixNano)
    (line.key, start) :: runningStarts (some start) lines

/-- `effective_starts` -/
def effectiveStarts (lines : List TranscriptLine) : List ((String × String) × ℕ) :=
  (groupBy TranscriptLine.traceId (lines.filter (·.transcriptIndex.isSome))).flatMap fun trace =>
    runningStarts none (sortedBy TranscriptLine.indexKey trace.2)

/-- `effective_starts.get(key)` -/
def effectiveStart? (lines : List TranscriptLine) (line : TranscriptLine) : Option ℕ :=
  (((effectiveStarts lines).filter fun entry => entry.1 = line.key).getLast?).map Prod.snd

/-- `ordered_transcript_lines` -/
def orderedTranscriptLines (lines : List TranscriptLine) : List TranscriptLine :=
  sortedBy (fun line => transcriptOrder line (effectiveStart? lines line)) lines

/-- `transcript_lines` -/
def transcriptLines (spans : List OtlpSpan) : Except Raised (List TranscriptLine) :=
  (spans.mapM lineOf).map fun lines => orderedTranscriptLines (lines.filterMap id)

/-- The lines a call detail reads, from the stored texts. -/
def storedTranscriptLines (spans : List OtlpSpan) : Except Raised (List TranscriptLine) :=
  (spans.mapM storedLineOf).map fun lines => orderedTranscriptLines (lines.filterMap id)

end Earshot.Transcript
