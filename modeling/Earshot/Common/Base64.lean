import Mathlib.Data.List.Basic
import Mathlib.Data.List.TakeWhile
/-!
# URL-safe base 64

Three bytes are four characters, and what is left of three is padded. A reader
that is not strict skips what is no digit, and takes the standard alphabet as
well as the URL-safe one. What was encoded is read back, also when its padding
was taken off and put on again.
-/

namespace Base64

/-- The digits of the URL-safe alphabet. -/
def ALPHABET : List Char :=
  "ABCDEFGHIJKLMNOPQRSTUVWXYZabcdefghijklmnopqrstuvwxyz0123456789-_".toList

/-- The digit of six bits. -/
def digit (n : ℕ) : Char := ALPHABET[n]?.getD 'A'

/-- What a digit stands for, in either alphabet. -/
def value (c : Char) : Option ℕ :=
  if c = '+' then some 62
  else if c = '/' then some 63
  else ALPHABET.findIdx? (· = c)

/-- The digits of bytes, without padding. -/
def digits : List UInt8 → List Char
  | [] => []
  | [a] => [digit (a.toNat / 4), digit (a.toNat % 4 * 16)]
  | [a, b] =>
      [digit (a.toNat / 4), digit (a.toNat % 4 * 16 + b.toNat / 16), digit (b.toNat % 16 * 4)]
  | a :: b :: c :: rest =>
      digit (a.toNat / 4) :: digit (a.toNat % 4 * 16 + b.toNat / 16) ::
        digit (b.toNat % 16 * 4 + c.toNat / 64) :: digit (c.toNat % 64) :: digits rest

/-- What makes a number of digits a multiple of four. -/
def padding (count : ℕ) : List Char := List.replicate ((4 - count % 4) % 4) '='

/-- `base64.urlsafe_b64encode` -/
def encode (bytes : List UInt8) : List Char := digits bytes ++ padding (digits bytes).length

/-- `.rstrip("=")` -/
def strip (text : List Char) : List Char := (text.reverse.dropWhile (· = '=')).reverse

/-- One byte, of a digit's first bits and the next digit's last. -/
def byte (high low : ℕ) : UInt8 := UInt8.ofNat (high + low)

/-- `binascii.a2b_base64`, not strict: `quad` digits of four were read, the
last leaves the bits `left`, and `pads` signs of padding followed. -/
def read : ℕ → ℕ → ℕ → List Char → Option (List UInt8)
  | quad, _, _, [] => if quad = 0 then some [] else none
  | quad, left, pads, c :: rest =>
      if c = '=' then
        if 2 ≤ quad then
          if 4 ≤ quad + (pads + 1) then some [] else read quad left (pads + 1) rest
        else read quad left pads rest
      else
        match value c with
        | none => read quad left pads rest
        | some n =>
            match quad with
            | 0 => read 1 n 0 rest
            | 1 => (read 2 (n % 16) 0 rest).map (byte (left * 4) (n / 16) :: ·)
            | 2 => (read 3 (n % 4) 0 rest).map (byte (left * 16) (n / 4) :: ·)
            | _ => (read 0 0 0 rest).map (byte (left * 64) n :: ·)

/-- `base64.urlsafe_b64decode`; text that is not ASCII is refused. -/
def decode (text : List Char) : Option (List UInt8) :=
  if text.all fun c => decide (c.toNat < 128) then read 0 0 0 text else none

/-! ## Digits -/

theorem value_digit {n : ℕ} (h : n < 64) : value (digit n) = some n := by
  have hall : ∀ m : Fin 64, value (digit m) = some m.val := by decide +kernel
  exact hall ⟨n, h⟩

theorem digit_plain {n : ℕ} (h : n < 64) : digit n ≠ '=' ∧ (digit n).toNat < 128 := by
  have hall : ∀ m : Fin 64, digit m ≠ '=' ∧ (digit m).toNat < 128 := by decide +kernel
  exact hall ⟨n, h⟩

/-- Every character of an encoding is a digit. -/
theorem exists_digit_of_mem : ∀ {bytes : List UInt8} {c : Char}, c ∈ digits bytes →
    ∃ n < 64, c = digit n := by
  intro bytes
  induction bytes using digits.induct with
  | case1 => exact fun h => absurd h List.not_mem_nil
  | case2 a =>
    intro c h
    have := a.toNat_lt
    simp only [digits, List.mem_cons, List.not_mem_nil, or_false] at h
    rcases h with rfl | rfl
    · exact ⟨_, by omega, rfl⟩
    · exact ⟨_, by omega, rfl⟩
  | case3 a b =>
    intro c h
    have := a.toNat_lt
    have := b.toNat_lt
    simp only [digits, List.mem_cons, List.not_mem_nil, or_false] at h
    rcases h with rfl | rfl | rfl
    · exact ⟨_, by omega, rfl⟩
    · exact ⟨_, by omega, rfl⟩
    · exact ⟨_, by omega, rfl⟩
  | case4 a b c rest ih =>
    intro x h
    have := a.toNat_lt
    have := b.toNat_lt
    have := c.toNat_lt
    simp only [digits, List.mem_cons] at h
    rcases h with rfl | rfl | rfl | rfl | h
    · exact ⟨_, by omega, rfl⟩
    · exact ⟨_, by omega, rfl⟩
    · exact ⟨_, by omega, rfl⟩
    · exact ⟨_, by omega, rfl⟩
    · exact ih h

theorem padding_all (count : ℕ) : ∀ c ∈ padding count, c = '=' :=
  fun _ h => List.eq_of_mem_replicate h

/-- The padding comes off, and no digit does. -/
theorem strip_encode (bytes : List UInt8) : strip (encode bytes) = digits bytes := by
  have hpad : ((padding (digits bytes).length).reverse.dropWhile (· = '=')) = [] := by
    refine List.dropWhile_eq_nil_iff.mpr fun c hc => ?_
    exact decide_eq_true (padding_all _ c (List.mem_reverse.mp hc))
  have hkeep : ((digits bytes).reverse.dropWhile (· = '=')) = (digits bytes).reverse := by
    refine List.dropWhile_eq_self_iff.mpr fun hlen h => ?_
    obtain ⟨n, hn, heq⟩ := exists_digit_of_mem (List.mem_reverse.mp (List.getElem_mem hlen))
    exact (digit_plain hn).1 (heq ▸ of_decide_eq_true h)
  rw [strip, encode, List.reverse_append, List.dropWhile_append, hpad]
  simp only [List.isEmpty_nil, if_true]
  rw [hkeep, List.reverse_reverse]

/-! ## Reading -/

section

variable {left pads n : ℕ} {rest : List Char} (h : n < 64)

include h

/-- The first digit of four. -/
theorem read_first : read 0 left pads (digit n :: rest) = read 1 n 0 rest := by
  rw [read, if_neg (digit_plain h).1, value_digit h]
  rfl

theorem read_second : read 1 left pads (digit n :: rest) =
    (read 2 (n % 16) 0 rest).map (byte (left * 4) (n / 16) :: ·) := by
  rw [read, if_neg (digit_plain h).1, value_digit h]
  rfl

theorem read_third : read 2 left pads (digit n :: rest) =
    (read 3 (n % 4) 0 rest).map (byte (left * 16) (n / 4) :: ·) := by
  rw [read, if_neg (digit_plain h).1, value_digit h]
  rfl

theorem read_fourth : read 3 left pads (digit n :: rest) =
    (read 0 0 0 rest).map (byte (left * 64) n :: ·) := by
  rw [read, if_neg (digit_plain h).1, value_digit h]
  rfl

end

theorem byte_eq {a : UInt8} {high low : ℕ} (h : high + low = a.toNat) : byte high low = a := by
  rw [byte, h, UInt8.ofNat_toNat]

/-- What was encoded is read back. -/
theorem read_digits (bytes : List UInt8) :
    read 0 0 0 (digits bytes ++ padding (digits bytes).length) = some bytes := by
  induction bytes using digits.induct with
  | case1 => rfl
  | case2 a =>
    have ha := a.toNat_lt
    have hbyte : byte (a.toNat / 4 * 4) (a.toNat % 4 * 16 / 16) = a := byte_eq (by omega)
    rw [digits, List.cons_append, List.cons_append, List.nil_append, read_first (by omega),
      read_second (by omega), hbyte]
    rfl
  | case3 a b =>
    have ha := a.toNat_lt
    have hb := b.toNat_lt
    have hfirst : byte (a.toNat / 4 * 4) ((a.toNat % 4 * 16 + b.toNat / 16) / 16) = a :=
      byte_eq (by omega)
    have hsecond : byte ((a.toNat % 4 * 16 + b.toNat / 16) % 16 * 16)
        (b.toNat % 16 * 4 / 4) = b := byte_eq (by omega)
    rw [digits, List.cons_append, List.cons_append, List.cons_append, List.nil_append,
      read_first (by omega), read_second (by omega), read_third (by omega), hfirst, hsecond]
    rfl
  | case4 a b c rest ih =>
    have ha := a.toNat_lt
    have hb := b.toNat_lt
    have hc := c.toNat_lt
    have hfirst : byte (a.toNat / 4 * 4) ((a.toNat % 4 * 16 + b.toNat / 16) / 16) = a :=
      byte_eq (by omega)
    have hsecond : byte ((a.toNat % 4 * 16 + b.toNat / 16) % 16 * 16)
        ((b.toNat % 16 * 4 + c.toNat / 64) / 4) = b := byte_eq (by omega)
    have hthird : byte ((b.toNat % 16 * 4 + c.toNat / 64) % 4 * 64) (c.toNat % 64) = c :=
      byte_eq (by omega)
    have hlen : padding (digits (a :: b :: c :: rest)).length =
        padding (digits rest).length := by
      simp only [digits, List.length_cons, padding]
      congr 1
      omega
    rw [hlen, digits]
    simp only [List.cons_append]
    rw [read_first (by omega), read_second (by omega), read_third (by omega),
      read_fourth (by omega), ih, hfirst, hsecond, hthird]
    rfl

/-- **An encoding is read back** when its padding is put on again. -/
theorem decode_digits (bytes : List UInt8) :
    decode (digits bytes ++ padding (digits bytes).length) = some bytes := by
  rw [decode, if_pos, read_digits]
  rw [List.all_eq_true]
  intro c hc
  rcases List.mem_append.mp hc with hdigit | hpad
  · obtain ⟨n, hn, rfl⟩ := exists_digit_of_mem hdigit
    exact decide_eq_true (digit_plain hn).2
  · rw [padding_all _ c hpad]
    decide

/-- Four digits for three bytes. -/
theorem length_digits_le (bytes : List UInt8) : (digits bytes).length ≤ 2 * bytes.length := by
  induction bytes using digits.induct with
  | case1 => exact Nat.le_refl _
  | case2 | case3 => simp [digits]
  | case4 a b c rest ih =>
    simp only [digits, List.length_cons]
    omega

end Base64
