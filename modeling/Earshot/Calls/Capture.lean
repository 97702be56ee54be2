import Mathlib.Data.BitVec
import Mathlib.Data.List.Sort
import Mathlib.Data.String.Basic
/-!
# What a batch says of its calls

A recorded batch is a list of `Prepared` spans: one span as its rows store
it, plus what it says about its call. Decoding the wire format and the
preset's filter are upstream of this model, which takes any list of
prepared spans; whether a span ends its call, names a session or only
follows the call's end is read off its scope and name.
-/

namespace Earshot

/-- A 16-byte trace ID. Its order is the order of its bytes. -/
abbrev TraceId := BitVec 128

/-- An 8-byte span ID. -/
abbrev SpanId := BitVec 64

/-- A SHA-256 digest. -/
abbrev Digest := BitVec 256

/-- Stored bytes. -/
abbrev Payload := List UInt8

/-- A clock reading in Unix nanoseconds. -/
abbrev UnixNano := ℤ

/-- What a project's spans are filtered by before they are stored. -/
inductive CapturePreset where
  | full
  | metadataOnly
  deriving DecidableEq, Repr

/-- Where a call's key came from (`calls.key_source`). -/
inductive KeySource where
  | earshotSessionId
  | genAiConversationId
  | sessionId
  | conversationId
  | traceId
  | recording
  deriving DecidableEq, Repr

/-- A valid session key and the attribute it came from. -/
structure SessionKey where
  value : String
  source : KeySource
  deriving DecidableEq, Repr

/-! ## Span names -/

def LIVEKIT_SCOPE : String := "livekit-agents"

/-- `(scope, name)` of the spans that end a call. -/
def END_MARKER_SPANS : List (String × String) :=
  [("pipecat.turn", "conversation"),
   ("livekit-agents", "agent_session"),
   ("livekit-agents", "session_close")]

/-- The frameworks' session spans, whose trace is one call. -/
def SESSION_SPANS : List (String × String) :=
  [("pipecat.turn", "conversation"),
   ("livekit-agents", "agent_session")]

/-- The spans that only follow a call's end. -/
def TAIL_SPANS : List (String × String) :=
  ["agent_session", "on_session_end", "session_end_upload", "room_disconnect",
    "job_shutdown", "job_entrypoint", "shutdown_callback"].map fun name =>
      (LIVEKIT_SCOPE, name)

def isSessionSpan (scopeName name : String) : Bool :=
  SESSION_SPANS.contains (scopeName, name)

def isTailSpan (scopeName name : String) : Bool :=
  TAIL_SPANS.contains (scopeName, name)

/-- `callEnded`: the span carries `earshot.call.ended = true`. -/
def isEndMarker (scopeName name : String) (callEnded : Bool) : Bool :=
  END_MARKER_SPANS.contains (scopeName, name) || callEnded

/-! ## Prepared spans -/

/-- One span as it will be stored, plus what it says about its call. -/
structure Prepared where
  traceId : TraceId
  spanId : SpanId
  parentSpanId : Option SpanId
  name : String
  scopeName : String
  start : UnixNano
  «end» : UnixNano
  callEnded : Bool
  key : Option SessionKey
  payload : Payload
  digest : Digest
  resourceDigest : Digest
  resourcePayload : Payload
  textJson : Option String
  deriving DecidableEq, Repr

namespace Prepared

def endMarker (s : Prepared) : Bool := isEndMarker s.scopeName s.name s.callEnded

def sessionSpan (s : Prepared) : Bool := isSessionSpan s.scopeName s.name

def tail (s : Prepared) : Bool := isTailSpan s.scopeName s.name

end Prepared

/-- The first session key the spans name, in arrival order. -/
def firstKey (spans : List Prepared) : Option SessionKey := spans.findSome? (·.key)

/-- **The first key is decided by the earliest part that names one**, so it
does not depend on where a sequence of spans is cut. -/
theorem firstKey_append (xs ys : List Prepared) :
    firstKey (xs ++ ys) = (firstKey xs).or (firstKey ys) := List.findSome?_append

theorem firstKey_eq_none {spans : List Prepared} :
    firstKey spans = none ↔ ∀ s ∈ spans, s.key = none := List.findSome?_eq_none_iff

end Earshot
