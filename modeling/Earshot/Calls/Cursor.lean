import Earshot.Common.Base64
import Mathlib.Data.List.Basic
import Mathlib.Data.String.Basic
/-!
# Page cursors

A cursor is the sort key of a page's last item, as a JSON list of two strings
in URL-safe base 64. Every text is a cursor or is refused; what a page issues is
read back.
-/

namespace Earshot

def MAX_CURSOR_ENCODED_CHARS : ℕ := 4096
def MAX_CURSOR_DECODED_BYTES : ℕ := 512
def SQLITE_INT64_MAX : ℕ := 2 ^ 63 - 1

namespace PageCursor

/-! ## Encoding -/

/-- `\uXXXX` -/
def escapeUnit (n : ℕ) : List Char :=
  '\\' :: 'u' :: [n / 4096 % 16, n / 256 % 16, n / 16 % 16, n % 16].map Nat.digitChar

/-- A character as `json.dumps` writes it. -/
def escapeChar (c : Char) : List Char :=
  if c = '"' then ['\\', '"']
  else if c = '\\' then ['\\', '\\']
  else if c = '\n' then ['\\', 'n']
  else if c = '\r' then ['\\', 'r']
  else if c = '\t' then ['\\', 't']
  else if c.toNat = 12 then ['\\', 'f']
  else if c.toNat = 8 then ['\\', 'b']
  else if 32 ≤ c.toNat ∧ c.toNat ≤ 126 then [c]
  else if c.toNat < 0x10000 then escapeUnit c.toNat
  else
    escapeUnit (0xd800 + (c.toNat - 0x10000) / 0x400) ++
      escapeUnit (0xdc00 + (c.toNat - 0x10000) % 0x400)

/-- `json.dumps` of two strings, with compact separators. -/
def dumpsPair (first second : String) : List Char :=
  '[' :: '"' :: (first.toList.flatMap escapeChar ++
    '"' :: ',' :: '"' :: (second.toList.flatMap escapeChar ++ ['"', ']']))

/-- `encode_page_cursor` -/
def encodePageCursor (unixNano : ℤ) (identifier : String) : String :=
  String.ofList (Base64.strip (Base64.encode
    (String.ofList (dumpsPair (toString unixNano) identifier)).toByteArray.data.toList))

/-! ## Decoding -/

def hexValue (c : Char) : Option ℕ :=
  if 48 ≤ c.toNat ∧ c.toNat ≤ 57 then some (c.toNat - 48)
  else if 97 ≤ c.toNat ∧ c.toNat ≤ 102 then some (c.toNat - 87)
  else if 65 ≤ c.toNat ∧ c.toNat ≤ 70 then some (c.toNat - 55)
  else none

def hexUnit (a b c d : Char) : Option ℕ :=
  match hexValue a, hexValue b, hexValue c, hexValue d with
  | some a, some b, some c, some d => some (4096 * a + 256 * b + 16 * c + d)
  | _, _, _, _ => none

/-- What an escape of one character stands for. -/
def unescape (c : Char) : Option ℕ :=
  if c = '"' then some 34
  else if c = '\\' then some 92
  else if c = '/' then some 47
  else if c = 'b' then some 8
  else if c = 'f' then some 12
  else if c = 'n' then some 10
  else if c = 'r' then some 13
  else if c = 't' then some 9
  else none

/-- The code units of a string after its quote, and what follows the closing
one. -/
def scanString : List Char → Option (List ℕ × List Char)
  | [] => none
  | c :: rest =>
      if c = '"' then some ([], rest)
      else if c = '\\' then
        match rest with
        | 'u' :: a :: b :: c :: d :: rest =>
            match hexUnit a b c d with
            | none => none
            | some unit => (scanString rest).map fun out => (unit :: out.1, out.2)
        | escaped :: rest =>
            match unescape escaped with
            | none => none
            | some unit => (scanString rest).map fun out => (unit :: out.1, out.2)
        | [] => none
      else if c.toNat < 32 then none
      else (scanString rest).map fun out => (c.toNat :: out.1, out.2)

/-- A high surrogate and a low one are one code point. -/
def joinSurrogates : List ℕ → List ℕ
  | high :: low :: rest =>
      if 0xd800 ≤ high ∧ high < 0xdc00 ∧ 0xdc00 ≤ low ∧ low < 0xe000 then
        (0x10000 + (high - 0xd800) * 0x400 + (low - 0xdc00)) :: joinSurrogates rest
      else high :: joinSurrogates (low :: rest)
  | units => units

/-- The text after blanks and a character. -/
def expect (c : Char) (text : List Char) : Option (List Char) :=
  match text.dropWhile fun c => c = ' ' ∨ c = '\t' ∨ c = '\n' ∨ c = '\r' with
  | [] => none
  | x :: rest => if x = c then some rest else none

/-- `json.loads`, of a list of two strings; what any other text may hold, and
how it may fail, is all the same to its caller. -/
def loadsPair (text : List Char) : Option (List ℕ × List ℕ) := do
  let text ← expect '[' text
  let text ← expect '"' text
  let (first, text) ← scanString text
  let text ← expect ',' text
  let text ← expect '"' text
  let (second, text) ← scanString text
  let text ← expect ']' text
  if text.all fun c => c = ' ' ∨ c = '\t' ∨ c = '\n' ∨ c = '\r' then
    some (joinSurrogates first, joinSurrogates second)
  else none

/-- The number of a string of ASCII digits that has no leading zero. -/
def cursorTime (codes : List ℕ) : Option ℕ :=
  if codes = [] ∨ ¬ (codes.all fun n => decide (48 ≤ n ∧ n ≤ 57)) = true ∨
      (1 < codes.length ∧ codes.head? = some 48) then none
  else
    let time := Nat.ofDigitChars 10 (codes.map Char.ofNat) 0
    if SQLITE_INT64_MAX < time then none else some time

/-- The ID of a string that is UTF-8 text without NUL. -/
def cursorId (codes : List ℕ) : Option String :=
  if codes = [] ∨ 256 < codes.length ∨ 0 ∈ codes ∨
      ¬ (codes.all fun n => decide n.isValidChar) = true then none
  else some (String.ofList (codes.map Char.ofNat))

/-- `decode_page_cursor`; `none` is `InvalidCursorError`, which replaces every
exception that what it calls can raise. -/
def decodePageCursor (cursor : String) : Option (ℕ × String) := do
  let text := cursor.toList
  if text = [] ∨ MAX_CURSOR_ENCODED_CHARS < text.length then none
  else
    let bytes ← Base64.decode (text ++ Base64.padding text.length)
    if MAX_CURSOR_DECODED_BYTES < bytes.length then none
    else
      let decoded ← (ByteArray.mk bytes.toArray).utf8Decode?
      let (first, second) ← loadsPair decoded.toList
      let time ← cursorTime first
      let identifier ← cursorId second
      return (time, identifier)

/-- What a text is read as is a time of the catalog's range and an ID. -/
theorem decodePageCursor_eq_some {text : String} {key : ℕ × String}
    (h : decodePageCursor text = some key) :
    key.1 ≤ SQLITE_INT64_MAX ∧ key.2.toList ≠ [] ∧ key.2.toList.length ≤ 256 ∧
      '\x00' ∉ key.2.toList := by
  rw [decodePageCursor] at h
  simp only at h
  split at h
  · cases h
  · obtain ⟨bytes, -, h⟩ := Option.bind_eq_some_iff.mp h
    split at h
    · cases h
    · obtain ⟨decoded, -, h⟩ := Option.bind_eq_some_iff.mp h
      obtain ⟨pair, -, h⟩ := Option.bind_eq_some_iff.mp h
      obtain ⟨time, htime, h⟩ := Option.bind_eq_some_iff.mp h
      obtain ⟨identifier, hid, h⟩ := Option.bind_eq_some_iff.mp h
      obtain rfl := Option.some.inj h
      refine ⟨?_, ?_⟩
      · rw [cursorTime] at htime
        split at htime
        · cases htime
        · simp only at htime
          split at htime
          · cases htime
          · obtain rfl := Option.some.inj htime
            omega
      · rw [cursorId] at hid
        split at hid
        · cases hid
        · next hcodes =>
          obtain rfl := Option.some.inj hid
          simp only [not_or, Classical.not_not, List.all_eq_true, decide_eq_true_eq] at hcodes
          obtain ⟨hnil, hlen, hzero, hvalid⟩ := hcodes
          simp only [String.toList_ofList, List.length_map]
          refine ⟨fun hmap => hnil (List.map_eq_nil_iff.mp hmap), by omega, fun hmem => ?_⟩
          obtain ⟨n, hn, heq⟩ := List.mem_map.mp hmem
          have hnat : (Char.ofNat n).toNat = n := by
            rw [Char.ofNat, dif_pos (hvalid n hn)]
            rfl
          rw [heq] at hnat
          obtain rfl : 0 = n := hnat
          exact hzero hn

/-! ## What is issued is read back -/

/-- A character that JSON text holds as it is. -/
def Plain (c : Char) : Prop := 32 ≤ c.toNat ∧ c.toNat ≤ 126 ∧ c ≠ '"' ∧ c ≠ '\\'

instance : DecidablePred Plain := fun _ => inferInstanceAs (Decidable (_ ∧ _))

theorem escapeChar_plain {c : Char} (h : Plain c) : escapeChar c = [c] := by
  obtain ⟨hlow, hhigh, hquote, hslash⟩ := h
  have hcontrol : ∀ x : Char, x.toNat < 32 → c ≠ x := by
    rintro x hx rfl
    omega
  rw [escapeChar, if_neg hquote, if_neg hslash, if_neg (hcontrol '\n' (by decide)),
    if_neg (hcontrol '\r' (by decide)), if_neg (hcontrol '\t' (by decide)), if_neg (by omega),
    if_neg (by omega), if_pos ⟨hlow, hhigh⟩]

theorem flatMap_escapeChar {text : List Char} (h : ∀ c ∈ text, Plain c) :
    text.flatMap escapeChar = text := by
  induction text with
  | nil => rfl
  | cons c text ih =>
    rw [List.flatMap_cons, escapeChar_plain (h c List.mem_cons_self),
      ih fun x hx => h x (List.mem_cons_of_mem _ hx)]
    rfl

/-- Plain text is scanned as it is. -/
theorem scanString_plain {text rest : List Char} (h : ∀ c ∈ text, Plain c) :
    scanString (text ++ '"' :: rest) = some (text.map Char.toNat, rest) := by
  induction text with
  | nil =>
    rw [List.nil_append, scanString.eq_def, List.map_nil]
    exact if_pos rfl
  | cons c text ih =>
    obtain ⟨hlow, -, hquote, hslash⟩ := h c List.mem_cons_self
    rw [List.cons_append, scanString.eq_def]
    simp only
    rw [if_neg hquote, if_neg hslash, if_neg (by omega),
      ih fun x hx => h x (List.mem_cons_of_mem _ hx)]
    rfl

/-- Text that has no surrogate is not joined. -/
theorem joinSurrogates_of_small : ∀ {units : List ℕ}, (∀ n ∈ units, n < 0xd800) →
    joinSurrogates units = units := by
  intro units
  induction units using joinSurrogates.induct with
  | case1 high low rest hpair ih =>
    intro h
    exact absurd (h high List.mem_cons_self) (by omega)
  | case2 high low rest hpair ih =>
    intro h
    rw [joinSurrogates, if_neg hpair, ih fun n hn => h n (List.mem_cons_of_mem _ hn)]
  | case3 units hunits => exact fun _ => by rw [joinSurrogates]; exact hunits

theorem expect_self {c : Char} {rest : List Char}
    (hc : c ≠ ' ' ∧ c ≠ '\t' ∧ c ≠ '\n' ∧ c ≠ '\r') : expect c (c :: rest) = some rest := by
  rw [expect, List.dropWhile_cons_of_neg (by simpa using hc)]
  exact if_pos rfl

/-- A dumped pair of plain strings is loaded. -/
theorem loadsPair_dumpsPair {first second : String} (hfirst : ∀ c ∈ first.toList, Plain c)
    (hsecond : ∀ c ∈ second.toList, Plain c) :
    loadsPair (dumpsPair first second) =
      some (first.toList.map Char.toNat, second.toList.map Char.toNat) := by
  have hsmall : ∀ text : List Char, (∀ c ∈ text, Plain c) →
      joinSurrogates (text.map Char.toNat) = text.map Char.toNat := by
    intro text htext
    refine joinSurrogates_of_small fun n hn => ?_
    obtain ⟨c, hc, rfl⟩ := List.mem_map.mp hn
    have := (htext c hc).2.1
    omega
  rw [dumpsPair, flatMap_escapeChar hfirst, flatMap_escapeChar hsecond, loadsPair,
    expect_self (by decide)]
  simp only [Option.bind_eq_bind, Option.bind_some]
  rw [expect_self (by decide)]
  simp only [Option.bind_some]
  rw [scanString_plain hfirst]
  simp only [Option.bind_some]
  rw [expect_self (by decide)]
  simp only [Option.bind_some]
  rw [expect_self (by decide)]
  simp only [Option.bind_some]
  rw [scanString_plain hsecond]
  simp only [Option.bind_some]
  rw [expect_self (by decide)]
  simp only [Option.bind_some, List.all_nil, if_true]
  rw [hsmall _ hfirst, hsmall _ hsecond]

/-! ### Numbers -/

theorem plain_of_isDigit {c : Char} (h : c.isDigit = true) :
    Plain c ∧ 48 ≤ c.toNat ∧ c.toNat ≤ 57 := by
  have hrange : 48 ≤ c.toNat ∧ c.toNat ≤ 57 := Char.isDigit_iff_toNat.mp h
  refine ⟨⟨by omega, by omega, ?_, ?_⟩, hrange⟩
  · rintro rfl
    exact absurd hrange.1 (by decide)
  · rintro rfl
    exact absurd hrange.2 (by decide)

/-- A number has no leading zero. -/
theorem head_toDigits (n : ℕ) (h : (Nat.toDigits 10 n).head? = some '0') : n = 0 := by
  induction n using Nat.strong_induction_on with
  | _ n ih =>
    rw [Nat.toDigits_eq_if (by decide)] at h
    split at h
    · next hlt =>
      have hall : ∀ m < 10, Nat.digitChar m = '0' → m = 0 := by decide
      exact hall n hlt (Option.some.inj h)
    · next hge =>
      rw [List.head?_append_of_ne_nil _ Nat.toDigits_ne_nil] at h
      have := ih (n / 10) (by omega) h
      omega

theorem map_ofNat_toNat (text : List Char) : (text.map Char.toNat).map Char.ofNat = text := by
  rw [List.map_map]
  exact (List.map_congr_left fun c _ => Char.ofNat_toNat c).trans (List.map_id text)

theorem cursorTime_toDigits {time : ℕ} (h : time ≤ SQLITE_INT64_MAX) :
    cursorTime ((Nat.toDigits 10 time).map Char.toNat) = some time := by
  have hdigits : ∀ c ∈ Nat.toDigits 10 time, 48 ≤ c.toNat ∧ c.toNat ≤ 57 := fun c hc =>
    (plain_of_isDigit (Nat.isDigit_of_mem_toDigits (by decide) (by decide) hc)).2
  rw [cursorTime, if_neg]
  · rw [map_ofNat_toNat, Nat.ofDigitChars_ten_toDigits]
    exact if_neg (by omega)
  · rintro (hnil | hrange | ⟨hlen, hhead⟩)
    · exact Nat.toDigits_ne_nil (List.map_eq_nil_iff.mp hnil)
    · refine hrange (List.all_eq_true.mpr fun n hn => ?_)
      obtain ⟨c, hc, rfl⟩ := List.mem_map.mp hn
      exact decide_eq_true (hdigits c hc)
    · rw [List.head?_map] at hhead
      obtain ⟨c, hc, hzero⟩ := Option.map_eq_some_iff.mp hhead
      obtain rfl : c = '0' := Char.toNat_inj.mp hzero
      obtain rfl := head_toDigits time hc
      simp at hlen

/-! ### IDs -/

/-- An ID such as calls have: plain, and short enough for a cursor. -/
structure Portable (identifier : String) : Prop where
  plain : ∀ c ∈ identifier.toList, Plain c
  nonempty : identifier.toList ≠ []
  short : identifier.toList.length ≤ 64

instance : DecidablePred Portable := fun identifier =>
  decidable_of_iff (identifier.toList.all (fun c => decide (Plain c)) = true ∧
      identifier.toList ≠ [] ∧ identifier.toList.length ≤ 64)
    ⟨fun h => ⟨fun c hc => of_decide_eq_true (List.all_eq_true.mp h.1 c hc), h.2.1, h.2.2⟩,
      fun h => ⟨List.all_eq_true.mpr fun c hc => decide_eq_true (h.1 c hc), h.2, h.3⟩⟩

theorem cursorId_portable {identifier : String} (h : Portable identifier) :
    cursorId (identifier.toList.map Char.toNat) = some identifier := by
  rw [cursorId, if_neg]
  · rw [map_ofNat_toNat, String.ofList_toList]
  · rintro (hnil | hlen | hzero | hvalid)
    · exact h.nonempty (List.map_eq_nil_iff.mp hnil)
    · have := h.short
      rw [List.length_map] at hlen
      omega
    · obtain ⟨c, hc, heq⟩ := List.mem_map.mp hzero
      have := (h.plain c hc).1
      omega
    · refine hvalid (List.all_eq_true.mpr fun n hn => ?_)
      obtain ⟨c, hc, rfl⟩ := List.mem_map.mp hn
      exact decide_eq_true c.valid

/-! ### Cursors -/

theorem length_utf8Encode_le (text : List Char) :
    text.utf8Encode.data.toList.length ≤ 4 * text.length := by
  have hsize : ∀ text : List Char, text.utf8Encode.size ≤ 4 * text.length := by
    intro text
    induction text with
    | nil => simp
    | cons c text ih =>
      rw [List.utf8Encode_cons, ByteArray.size_append, List.utf8Encode_singleton,
        List.size_toByteArray, String.length_utf8EncodeChar, List.length_cons]
      have := c.utf8Size_le_four
      omega
  exact hsize text

theorem length_dumpsPair {first second : String} (hfirst : ∀ c ∈ first.toList, Plain c)
    (hsecond : ∀ c ∈ second.toList, Plain c) : (dumpsPair first second).length =
      first.toList.length + second.toList.length + 7 := by
  rw [dumpsPair, flatMap_escapeChar hfirst, flatMap_escapeChar hsecond]
  simp only [List.length_cons, List.length_append, List.length_nil]
  omega

/-- **What a page issues is read back**, for every time of the catalog's range
and every portable ID. -/
theorem decodePageCursor_encodePageCursor {time : ℕ} {identifier : String}
    (htime : time ≤ SQLITE_INT64_MAX) (hid : Portable identifier) :
    decodePageCursor (encodePageCursor time identifier) = some (time, identifier) := by
  have hstring : toString (time : ℤ) = Nat.repr time := rfl
  have htext : (toString (time : ℤ)).toList = Nat.toDigits 10 time := by
    rw [hstring, Nat.toList_repr]
  have hplain : ∀ c ∈ (toString (time : ℤ)).toList, Plain c := by
    rw [htext]
    exact fun c hc =>
      (plain_of_isDigit (Nat.isDigit_of_mem_toDigits (by decide) (by decide) hc)).1
  generalize hraw : dumpsPair (toString (time : ℤ)) identifier = raw
  have hlength : raw.utf8Encode.data.toList.length ≤ 4 * (19 + 64 + 7) := by
    have hdigits : (Nat.toDigits 10 time).length ≤ 19 := by
      rw [Nat.length_toDigits_le_iff (by decide) (by decide)]
      exact lt_of_le_of_lt htime (by decide)
    have hpair := length_dumpsPair hplain hid.plain
    rw [hraw, htext] at hpair
    have hbytes := length_utf8Encode_le raw
    have hshort := hid.short
    omega
  have hdigits := Base64.length_digits_le raw.utf8Encode.data.toList
  have hne : Base64.digits raw.utf8Encode.data.toList ≠ [] := by
    have hcons : raw ≠ [] := by
      rw [← hraw, dumpsPair]
      exact List.cons_ne_nil _ _
    intro hnil
    have hread := Base64.decode_digits raw.utf8Encode.data.toList
    rw [hnil] at hread
    have hempty : raw.utf8Encode.data.toList = [] := (Option.some.inj hread).symm
    refine hcons (List.utf8Encode_eq_empty.mp ?_)
    exact ByteArray.ext (Array.toList_eq_nil_iff.mp hempty)
  rw [decodePageCursor, encodePageCursor, hraw, String.toByteArray_ofList, Base64.strip_encode,
    String.toList_ofList]
  simp only
  rw [if_neg (by
    rintro (hnil | hlong)
    · exact hne hnil
    · rw [MAX_CURSOR_ENCODED_CHARS] at hlong
      omega), Base64.decode_digits]
  simp only [Option.bind_eq_bind, Option.bind_some]
  rw [if_neg (by rw [MAX_CURSOR_DECODED_BYTES]; omega), Array.toArray_toList,
    List.utf8Decode?_utf8Encode]
  simp only [Option.bind_some]
  rw [← hraw, loadsPair_dumpsPair hplain hid.plain, htext]
  simp only [Option.bind_some]
  rw [cursorTime_toDigits htime]
  simp only [Option.bind_some]
  rw [cursorId_portable hid]
  rfl

end PageCursor

end Earshot
