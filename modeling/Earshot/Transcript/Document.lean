import Mathlib.Tactic.NormNum
import Earshot.Calls.Cursor
/-!
# JSON objects of strings and numbers

`json.dumps` of an object whose values are strings and non-negative integers,
and `json.loads` of any text as an object whose values are strings, integers
and constants; what other text may hold is not read. What is dumped is loaded,
whatever characters its strings have.
-/

namespace Earshot.Transcript

open PageCursor

/-! ## Dumping -/

/-- A value to be dumped. -/
inductive Scalar where
  | str (s : String)
  | nat (n : ℕ)
  deriving DecidableEq

def dumpsString (s : String) : List Char :=
  '"' :: (s.toList.flatMap escapeChar ++ ['"'])

def dumpsScalar : Scalar → List Char
  | .str s => dumpsString s
  | .nat n => Nat.toDigits 10 n

def dumpsEntry (entry : String × Scalar) : List Char :=
  dumpsString entry.1 ++ ':' :: dumpsScalar entry.2

/-- `json.dumps` of an object, with compact separators. -/
def dumpsObject (entries : List (String × Scalar)) : List Char :=
  '{' :: ([','].intercalate (entries.map dumpsEntry) ++ ['}'])

/-! ## Loading -/

/-- A loaded value; a string is its code points, lone surrogates among them. -/
inductive Json where
  | str (codes : List ℕ)
  | int (n : ℤ)
  | bool (b : Bool)
  | null
  deriving DecidableEq

def isBlank (c : Char) : Bool := c = ' ' ∨ c = '\t' ∨ c = '\n' ∨ c = '\r'

/-- The digits of a number, without a leading zero, and what follows them. -/
def scanDigits : List Char → Option (ℕ × List Char)
  | '0' :: rest => some (0, rest)
  | text =>
    let digits := text.takeWhile Char.isDigit
    if digits = [] then none
    else some (Nat.ofDigitChars 10 digits 0, text.dropWhile Char.isDigit)

/-- A value after blanks. A number with a fraction or an exponent is not read,
nor is an array or an object. -/
def scanValue (text : List Char) : Option (Json × List Char) :=
  match text.dropWhile isBlank with
  | '"' :: rest => (scanString rest).map fun out => (.str (joinSurrogates out.1), out.2)
  | 't' :: 'r' :: 'u' :: 'e' :: rest => some (.bool true, rest)
  | 'f' :: 'a' :: 'l' :: 's' :: 'e' :: rest => some (.bool false, rest)
  | 'n' :: 'u' :: 'l' :: 'l' :: rest => some (.null, rest)
  | '-' :: rest => (scanDigits rest).map fun out => (.int (-out.1), out.2)
  | text => (scanDigits text).map fun out => (.int out.1, out.2)

/-- The entries from the first key on, and what follows the closing brace. -/
def scanEntries : ℕ → List Char → Option (List (List ℕ × Json) × List Char)
  | 0, _ => none
  | fuel + 1, text => do
    let text ← expect '"' text
    let (key, text) ← scanString text
    let text ← expect ':' text
    let (value, text) ← scanValue text
    match expect ',' text with
    | some text =>
      let (entries, text) ← scanEntries fuel text
      some ((joinSurrogates key, value) :: entries, text)
    | none =>
      let text ← expect '}' text
      some ([(joinSurrogates key, value)], text)

/-- `json.loads`, of an object. -/
def loadsObject (text : List Char) : Option (List (List ℕ × Json)) := do
  let text ← expect '{' text
  let (entries, text) ←
    match expect '}' text with
    | some text => some ([], text)
    | none => scanEntries text.length text
  if text.all isBlank then some entries else none

/-- `document.get(key)`: the last entry of the key. -/
def getEntry (entries : List (List ℕ × Json)) (key : String) : Option Json :=
  entries.reverse.lookup (key.toList.map Char.toNat)

/-- A string of code points that are all characters. -/
def textOf (codes : List ℕ) : Option String :=
  if codes.all fun n => decide n.isValidChar then some (String.ofList (codes.map Char.ofNat))
  else none

/-! ## A dumped string is scanned -/

/-- The UTF-16 units that an escaped character is scanned as. -/
def unitsOf (c : Char) : List ℕ :=
  if c.toNat < 0x10000 then [c.toNat]
  else [0xd800 + (c.toNat - 0x10000) / 0x400, 0xdc00 + (c.toNat - 0x10000) % 0x400]

theorem hexValue_digitChar : ∀ n < 16, hexValue (Nat.digitChar n) = some n := by decide

theorem scanString_escapeUnit {n : ℕ} (h : n < 0x10000) (rest : List Char) :
    scanString (escapeUnit n ++ rest) =
      (scanString rest).map fun out => (n :: out.1, out.2) := by
  have hunit : hexUnit (Nat.digitChar (n / 4096 % 16)) (Nat.digitChar (n / 256 % 16))
      (Nat.digitChar (n / 16 % 16)) (Nat.digitChar (n % 16)) = some n := by
    simp only [hexUnit, hexValue_digitChar _ (Nat.mod_lt _ (by decide : 0 < 16))]
    exact congrArg some (by omega)
  rw [escapeUnit, scanString.eq_def]
  simp only [List.map_cons, List.map_nil, List.cons_append, List.nil_append]
  rw [if_neg (by decide), if_true, hunit]

theorem scanString_escaped {c : Char} {n : ℕ} (h : unescape c = some n) (hu : c ≠ 'u')
    (rest : List Char) : scanString ('\\' :: c :: rest) =
      (scanString rest).map fun out => (n :: out.1, out.2) := by
  rw [scanString.eq_def]
  simp only
  rw [if_neg (by decide), if_true]
  split
  · next heq => exact absurd (List.cons.inj heq).1 hu
  · next escaped rest' _ heq =>
    obtain ⟨rfl, rfl⟩ := List.cons.inj heq
    rw [h]
  · next heq => cases heq

theorem scanString_escapeChar (c : Char) (rest : List Char) :
    scanString (escapeChar c ++ rest) =
      (scanString rest).map fun out => (unitsOf c ++ out.1, out.2) := by
  have hcode : ∀ x : Char, x.toNat < 0x10000 → ∀ escape : List Char,
      scanString (escape ++ rest) = (scanString rest).map (fun out => (x.toNat :: out.1, out.2)) →
      scanString (escape ++ rest) =
        (scanString rest).map fun out => (unitsOf x ++ out.1, out.2) := by
    intro x hx escape h
    rw [h, unitsOf, if_pos hx]
    rfl
  have hvalid : c.toNat < 0x110000 := by
    rcases c.valid with h | h
    · exact lt_trans h (by decide)
    · exact h.2
  by_cases hquote : c = '"'
  · subst hquote
    exact hcode _ (by decide) ['\\', '"'] (scanString_escaped rfl (by decide) rest)
  by_cases hslash : c = '\\'
  · subst hslash
    exact hcode _ (by decide) ['\\', '\\'] (scanString_escaped rfl (by decide) rest)
  by_cases hn : c = '\n'
  · subst hn
    exact hcode _ (by decide) ['\\', 'n'] (scanString_escaped rfl (by decide) rest)
  by_cases hr : c = '\r'
  · subst hr
    exact hcode _ (by decide) ['\\', 'r'] (scanString_escaped rfl (by decide) rest)
  by_cases ht : c = '\t'
  · subst ht
    exact hcode _ (by decide) ['\\', 't'] (scanString_escaped rfl (by decide) rest)
  rw [escapeChar, if_neg hquote, if_neg hslash, if_neg hn, if_neg hr, if_neg ht]
  split_ifs with hf hb hplain hsmall
  · exact hcode _ (by omega) _ (by rw [hf]; exact scanString_escaped rfl (by decide) rest)
  · exact hcode _ (by omega) _ (by rw [hb]; exact scanString_escaped rfl (by decide) rest)
  · refine hcode _ (by omega) _ ?_
    rw [List.singleton_append, scanString.eq_def]
    simp only
    rw [if_neg hquote, if_neg hslash, if_neg (by omega)]
  · exact hcode _ hsmall _ (scanString_escapeUnit hsmall rest)
  · rw [List.append_assoc, scanString_escapeUnit (by omega), scanString_escapeUnit (by omega),
      Option.map_map, unitsOf, if_neg hsmall]
    rfl

theorem scanString_flatMap (text rest : List Char) :
    scanString (text.flatMap escapeChar ++ '"' :: rest) = some (text.flatMap unitsOf, rest) := by
  induction text with
  | nil =>
    rw [List.flatMap_nil, List.nil_append, scanString.eq_def]
    exact if_pos rfl
  | cons c text ih =>
    rw [List.flatMap_cons, List.append_assoc, scanString_escapeChar, ih]
    rfl

/-- The units of characters are joined to their code points. -/
theorem joinSurrogates_units (text : List Char) :
    joinSurrogates (text.flatMap unitsOf) = text.map Char.toNat := by
  induction text with
  | nil => rfl
  | cons c text ih =>
    have hvalid : c.toNat < 0xd800 ∨ 0xdfff < c.toNat ∧ c.toNat < 0x110000 := c.valid
    rw [List.flatMap_cons, List.map_cons, unitsOf]
    by_cases hsmall : c.toNat < 0x10000
    · rw [if_pos hsmall, List.singleton_append, ← ih]
      cases text.flatMap unitsOf with
      | nil => rfl
      | cons low rest =>
        rw [joinSurrogates, if_neg (by omega)]
    · rw [if_neg hsmall]
      show joinSurrogates (_ :: _ :: text.flatMap unitsOf) = _
      rw [joinSurrogates, if_pos ⟨by omega, by omega, by omega, by omega⟩, ih]
      exact congrArg (· :: text.map Char.toNat) (by omega)

/-! ## A dumped object is loaded -/

def codesOf (s : String) : List ℕ := s.toList.map Char.toNat

/-- What a dumped value is loaded as. -/
def Scalar.loaded : Scalar → Json
  | .str s => .str (codesOf s)
  | .nat n => .int n

/-- What follows a value: not a digit. -/
def Ends (rest : List Char) : Prop := ∀ c ∈ rest.head?, c.isDigit = false

theorem takeWhile_digits {digits rest : List Char} (hdigits : ∀ c ∈ digits, c.isDigit = true)
    (hrest : Ends rest) : (digits ++ rest).takeWhile Char.isDigit = digits ∧
      (digits ++ rest).dropWhile Char.isDigit = rest := by
  have hnone : rest.takeWhile Char.isDigit = [] ∧ rest.dropWhile Char.isDigit = rest := by
    cases rest with
    | nil => exact ⟨rfl, rfl⟩
    | cons c rest =>
      have hc : ¬ c.isDigit = true := by
        rw [hrest c rfl]
        exact Bool.false_ne_true
      exact ⟨List.takeWhile_cons_of_neg hc, List.dropWhile_cons_of_neg hc⟩
  rw [List.takeWhile_append_of_pos hdigits, List.dropWhile_append_of_pos hdigits, hnone.1, hnone.2,
    List.append_nil]
  exact ⟨rfl, rfl⟩

theorem isDigit_toDigits (n : ℕ) : ∀ c ∈ Nat.toDigits 10 n, c.isDigit = true := fun _ hc =>
  Nat.isDigit_of_mem_toDigits (by decide) (by decide) hc

theorem scanDigits_toDigits (n : ℕ) {rest : List Char} (hrest : Ends rest) :
    scanDigits (Nat.toDigits 10 n ++ rest) = some (n, rest) := by
  by_cases hzero : (Nat.toDigits 10 n).head? = some '0'
  · rw [head_toDigits n hzero]
    rfl
  · obtain ⟨htake, hdrop⟩ := takeWhile_digits (isDigit_toDigits n) hrest
    unfold scanDigits
    split
    · next rest' heq =>
      cases hdigits : Nat.toDigits 10 n with
      | nil => exact absurd hdigits Nat.toDigits_ne_nil
      | cons c digits =>
        rw [hdigits] at heq hzero
        obtain ⟨rfl, -⟩ := List.cons.inj heq
        exact absurd rfl hzero
    · rw [htake, hdrop]
      dsimp only
      rw [if_neg Nat.toDigits_ne_nil, Nat.ofDigitChars_ten_toDigits]

theorem scanValue_dumpsScalar (value : Scalar) {rest : List Char} (hrest : Ends rest) :
    scanValue (dumpsScalar value ++ rest) = some (value.loaded, rest) := by
  cases value with
  | str s =>
    have hscan := scanString_flatMap s.toList rest
    rw [dumpsScalar, dumpsString, List.cons_append, List.append_assoc]
    unfold scanValue
    rw [List.dropWhile_cons_of_neg (by decide)]
    show (scanString (s.toList.flatMap escapeChar ++ '"' :: rest)).map _ = _
    rw [hscan]
    exact congrArg (fun codes => some (Json.str codes, rest)) (joinSurrogates_units s.toList)
  | nat n =>
    have hscan := scanDigits_toDigits n hrest
    rw [dumpsScalar]
    cases hdigits : Nat.toDigits 10 n with
    | nil => exact absurd hdigits Nat.toDigits_ne_nil
    | cons c digits =>
      rw [hdigits, List.cons_append] at hscan
      have hc : c.isDigit = true := isDigit_toDigits n c (hdigits ▸ List.mem_cons_self)
      have hne : ∀ x : Char, x.isDigit = false → c ≠ x := by
        rintro x hx rfl
        exact Bool.false_ne_true (hx.symm.trans hc)
      have hblank : ¬ isBlank c = true := by
        rw [isBlank, decide_eq_true_eq]
        rintro (h | h | h | h)
        · exact hne ' ' (by decide) h
        · exact hne '\t' (by decide) h
        · exact hne '\n' (by decide) h
        · exact hne '\r' (by decide) h
      unfold scanValue
      rw [List.cons_append, List.dropWhile_cons_of_neg hblank]
      split
      · next heq => exact absurd (List.cons.inj heq).1 (hne _ (by decide))
      · next heq => exact absurd (List.cons.inj heq).1 (hne _ (by decide))
      · next heq => exact absurd (List.cons.inj heq).1 (hne _ (by decide))
      · next heq => exact absurd (List.cons.inj heq).1 (hne _ (by decide))
      · next heq => exact absurd (List.cons.inj heq).1 (hne _ (by decide))
      · rw [hscan]
        rfl

theorem scanEntries_dumps : ∀ {entries : List (String × Scalar)} (fuel : ℕ) (rest : List Char),
    entries ≠ [] → entries.length ≤ fuel →
    scanEntries fuel ([','].intercalate (entries.map dumpsEntry) ++ '}' :: rest) =
      some (entries.map fun entry => (codesOf entry.1, entry.2.loaded), rest) := by
  intro entries
  induction entries with
  | nil => exact fun _ _ h => absurd rfl h
  | cons entry entries ih =>
    intro fuel rest _ hfuel
    obtain ⟨key, value⟩ := entry
    cases fuel with
    | zero => exact absurd hfuel (Nat.not_succ_le_zero _)
    | succ fuel =>
      have hhead : ∀ tail : List Char, Ends tail →
          scanEntries (fuel + 1) (dumpsEntry (key, value) ++ tail) =
            ((expect ',' tail).elim
              ((expect '}' tail).bind fun text => some ([(codesOf key, value.loaded)], text))
              fun text => (scanEntries fuel text).bind fun out =>
                some ((codesOf key, value.loaded) :: out.1, out.2)) := by
        intro tail htail
        rw [dumpsEntry, dumpsString, List.append_assoc, List.cons_append, List.cons_append,
          List.append_assoc, scanEntries, expect_self (by decide)]
        simp only [Option.bind_eq_bind, Option.bind_some, List.singleton_append]
        rw [scanString_flatMap]
        simp only [Option.bind_some]
        rw [expect_self (by decide)]
        simp only [Option.bind_some]
        rw [scanValue_dumpsScalar value htail]
        simp only [Option.bind_some, joinSurrogates_units]
        cases expect ',' tail with
        | none => rfl
        | some text => rfl
      cases entries with
      | nil =>
        rw [List.map_singleton, List.intercalate_singleton, hhead _ (by rintro c ⟨⟩; decide),
          expect_self (by decide)]
        rfl
      | cons entry' entries =>
        rw [List.map_cons, List.map_cons, List.intercalate_cons_cons, List.append_assoc,
          List.append_assoc, hhead _ (by rintro c ⟨⟩; decide), List.singleton_append,
          expect_self (by decide), ← List.map_cons]
        show (scanEntries fuel _).bind _ = _
        rw [ih fuel rest (List.cons_ne_nil _ _) (Nat.le_of_succ_le_succ hfuel)]
        rfl

/-- The entries' text starts with a quote, and has a character for each. -/
theorem intercalate_dumpsEntry {entries : List (String × Scalar)} (h : entries ≠ []) :
    ∃ tail, [','].intercalate (entries.map dumpsEntry) = '"' :: tail ∧
      entries.length ≤ tail.length := by
  induction entries with
  | nil => exact absurd rfl h
  | cons entry entries ih =>
    obtain ⟨tail, htail, hlength⟩ : ∃ tail, dumpsEntry entry = '"' :: tail ∧ 1 ≤ tail.length := by
      refine ⟨(entry.1.toList.flatMap escapeChar ++ ['"']) ++ ':' :: dumpsScalar entry.2, rfl, ?_⟩
      simp only [List.length_append, List.length_cons]
      omega
    cases entries with
    | nil =>
      rw [List.map_singleton, List.intercalate_singleton]
      exact ⟨tail, htail, hlength⟩
    | cons entry' entries =>
      obtain ⟨tail', htail', hlength'⟩ := ih (List.cons_ne_nil _ _)
      rw [List.map_cons] at htail' ⊢
      rw [List.map_cons, List.intercalate_cons_cons, htail', htail]
      refine ⟨tail ++ [','] ++ '"' :: tail', rfl, ?_⟩
      simp only [List.length_append, List.length_cons] at hlength' ⊢
      omega

/-- **What is dumped is loaded**, entry by entry. -/
theorem loadsObject_dumpsObject {entries : List (String × Scalar)} (h : entries ≠ []) :
    loadsObject (dumpsObject entries) =
      some (entries.map fun entry => (codesOf entry.1, entry.2.loaded)) := by
  obtain ⟨tail, htail, hlength⟩ := intercalate_dumpsEntry h
  have hscan := scanEntries_dumps ((tail ++ ['}']).length + 1) [] h (by
    rw [List.length_append]
    omega)
  rw [htail] at hscan
  rw [dumpsObject, loadsObject, expect_self (by decide), htail]
  simp only [Option.bind_eq_bind, Option.bind_some, List.cons_append]
  have hopen : expect '}' ('"' :: (tail ++ ['}'])) = none := rfl
  rw [hopen]
  simp only [List.length_cons]
  rw [List.cons_append] at hscan
  rw [hscan]
  rfl

end Earshot.Transcript
