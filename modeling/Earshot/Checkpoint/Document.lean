import Earshot.Transcript.Document
/-!
# JSON documents

`json.loads`, of any text: a scanner gives its tokens, and a machine with a
stack of open arrays and objects makes a value of them. Opening one more than
the interpreter's recursion limit allows raises, and so does a text that is no
document, at the first token that shows it.
-/

namespace Earshot.JsonDocument

open PageCursor Transcript

/-- A value. A float is its text, and a string its code points. -/
inductive Value where
  | null
  | bool (b : Bool)
  | int (n : ℤ)
  | float (text : List Char)
  | str (codes : List ℕ)
  | array (items : List Value)
  | object (entries : List (List ℕ × Value))

/-- Why there is no value: `JSONDecodeError`, and an integer of too many
digits, are `ValueError`s. -/
inductive LoadError where
  | valueError
  | recursionError
  deriving DecidableEq

/-! ## Tokens -/

inductive Token where
  | openArray
  | closeArray
  | openObject
  | closeObject
  | comma
  | colon
  | value (v : Value)
  | string (codes : List ℕ)
  /-- No token: what follows is not read. -/
  | bad

/-- `sys.get_int_max_str_digits()` -/
def MAX_STR_DIGITS : ℕ := 4300

/-- The digits a text begins with. -/
def digits (text : List Char) : List Char := text.takeWhile Char.isDigit

/-- A fraction: a point and at least one digit. -/
def scanFraction (text : List Char) : List Char :=
  match text with
  | '.' :: rest => if digits rest = [] then [] else '.' :: digits rest
  | _ => []

/-- An exponent: its letter, a sign perhaps, and at least one digit. -/
def scanExponent (text : List Char) : List Char :=
  match text with
  | e :: rest =>
    if e ≠ 'e' ∧ e ≠ 'E' then []
    else
      let sign := rest.takeWhile fun c => c = '-' ∨ c = '+'
      let sign := sign.take 1
      if digits (rest.drop sign.length) = [] then []
      else e :: sign ++ digits (rest.drop sign.length)
  | [] => []

/-- `NUMBER_RE`, and what the match is read as. -/
def scanNumber (text : List Char) : Option (Token × List Char) :=
  let sign := if text.head? = some '-' then ['-'] else []
  let unsigned := text.drop sign.length
  let whole := if unsigned.head? = some '0' then ['0'] else digits unsigned
  if whole = [] then none
  else
    let rest := unsigned.drop whole.length
    let fraction := scanFraction rest
    let exponent := scanExponent (rest.drop fraction.length)
    let rest := rest.drop (fraction.length + exponent.length)
    if fraction ≠ [] ∨ exponent ≠ [] then
      some (.value (.float (sign ++ whole ++ fraction ++ exponent)), rest)
    else if MAX_STR_DIGITS < whole.length then some (.bad, rest)
    else
      let n : ℤ := Nat.ofDigitChars 10 whole 0
      some (.value (.int (if sign = [] then n else -n)), rest)

/-- The token that a text without blanks begins with, and what follows. -/
def scanToken (text : List Char) : Option (Token × List Char) :=
  match text with
  | '[' :: rest => some (.openArray, rest)
  | ']' :: rest => some (.closeArray, rest)
  | '{' :: rest => some (.openObject, rest)
  | '}' :: rest => some (.closeObject, rest)
  | ',' :: rest => some (.comma, rest)
  | ':' :: rest => some (.colon, rest)
  | '"' :: rest => (scanString rest).map fun out => (.string (joinSurrogates out.1), out.2)
  | 'n' :: 'u' :: 'l' :: 'l' :: rest => some (.value .null, rest)
  | 't' :: 'r' :: 'u' :: 'e' :: rest => some (.value (.bool true), rest)
  | 'f' :: 'a' :: 'l' :: 's' :: 'e' :: rest => some (.value (.bool false), rest)
  | 'N' :: 'a' :: 'N' :: rest => some (.value (.float ['N', 'a', 'N']), rest)
  | 'I' :: 'n' :: 'f' :: 'i' :: 'n' :: 'i' :: 't' :: 'y' :: rest =>
    some (.value (.float ['I', 'n', 'f']), rest)
  | '-' :: 'I' :: 'n' :: 'f' :: 'i' :: 'n' :: 'i' :: 't' :: 'y' :: rest =>
    some (.value (.float ['-', 'I', 'n', 'f']), rest)
  | text => scanNumber text

/-- The tokens of a text. Each takes a character, so the length of the text is
fuel enough. -/
def tokens : ℕ → List Char → List Token
  | fuel, text =>
    match fuel, text.dropWhile isBlank with
    | _, [] => []
    | 0, _ => [.bad]
    | fuel + 1, text =>
      match scanToken text with
      | none => [.bad]
      | some (token, rest) => token :: tokens fuel rest

/-! ## The machine -/

/-- An array or an object that is not closed. -/
inductive Pending where
  | array (items : List Value)
  | object (entries : List (List ℕ × Value)) (key : List ℕ)

/-- What the machine expects next. -/
inductive Expecting where
  | value
  /-- A value, or the end of an array that has just been opened. -/
  | valueOrClose
  | key (entries : List (List ℕ × Value))
  /-- A key, or the end of an object that has just been opened. -/
  | keyOrClose
  | colon (entries : List (List ℕ × Value)) (key : List ℕ)
  /-- A comma or the end of what is open; the document's end where nothing
  is. -/
  | after (v : Value)

structure Machine where
  expecting : Expecting
  pending : List Pending

/-- The machine begins a value with a token. -/
def beginValue (limit : ℕ) (pending : List Pending) (token : Token) : Except LoadError Machine :=
  match token with
  | .openArray =>
    if limit ≤ pending.length then .error .recursionError
    else .ok ⟨.valueOrClose, .array [] :: pending⟩
  | .openObject =>
    if limit ≤ pending.length then .error .recursionError
    else .ok ⟨.keyOrClose, pending⟩
  | .value v => .ok ⟨.after v, pending⟩
  | .string codes => .ok ⟨.after (.str codes), pending⟩
  | _ => .error .valueError

def Machine.step (limit : ℕ) (machine : Machine) (token : Token) : Except LoadError Machine :=
  match machine.expecting, machine.pending, token with
  | .valueOrClose, .array items :: pending, .closeArray => .ok ⟨.after (.array items), pending⟩
  | .valueOrClose, pending, token => beginValue limit pending token
  | .value, pending, token => beginValue limit pending token
  | .keyOrClose, pending, .closeObject => .ok ⟨.after (.object []), pending⟩
  | .keyOrClose, pending, .string key => .ok ⟨.colon [] key, pending⟩
  | .key entries, pending, .string key => .ok ⟨.colon entries key, pending⟩
  | .colon entries key, pending, .colon => .ok ⟨.value, .object entries key :: pending⟩
  | .after v, .array items :: pending, .comma => .ok ⟨.value, .array (items ++ [v]) :: pending⟩
  | .after v, .array items :: pending, .closeArray =>
    .ok ⟨.after (.array (items ++ [v])), pending⟩
  | .after v, .object entries key :: pending, .comma => .ok ⟨.key (entries ++ [(key, v)]), pending⟩
  | .after v, .object entries key :: pending, .closeObject =>
    .ok ⟨.after (.object (entries ++ [(key, v)])), pending⟩
  | _, _, _ => .error .valueError

/-- `json.loads`, of a string. -/
def loads (limit : ℕ) (text : List Char) : Except LoadError Value := do
  let machine ← (tokens text.length text).foldlM (Machine.step limit) ⟨.value, []⟩
  match machine.expecting, machine.pending with
  | .after v, [] => .ok v
  | _, _ => .error .valueError

/-- `document[key]`: the last entry of the key. -/
def getKey (entries : List (List ℕ × Value)) (key : String) : Option Value :=
  entries.reverse.lookup (codesOf key)

end Earshot.JsonDocument
