import Earshot.Common.Base64
import Earshot.Exporting.Bounded
import Earshot.Transcript.Order
/-!
# The records of the spool

`_encode` and `_decode`: a record is a JSON object that names its destination
and its item, holds the payload in base 64, in the clear or under the spool's
key, and its checksum. An exporter reads back a record that was written whole
if it has the record's destination and, where the payload is encrypted, its key
(`read_back`); any other record it takes for corrupt.

`sha256` is the hexadecimal digest of the payload, and the cipher AES-GCM; both
may be any functions with the laws they are given here.
-/

namespace Earshot.Exporting

open Transcript

def SPOOL_VERSION : ℕ := 1

def SPOOL_FORMAT_AESGCM_V1 : String := "aesgcm-v1"

/-! ## Text -/

/-- `str.encode`, of ASCII text. -/
def encodeAscii (text : List Char) : Bytes := text.map fun c => UInt8.ofNat c.toNat

/-- `bytes.decode`; what is not ASCII is not read. -/
def decodeAscii (bytes : Bytes) : Option (List Char) :=
  if bytes.all (fun b => b.toNat < 128) then some (bytes.map fun b => Char.ofNat b.toNat) else none

/-- The digit of the standard alphabet. -/
def standard (c : Char) : Char := if c = '-' then '+' else if c = '_' then '/' else c

/-- `base64.b64encode` -/
def b64encode (bytes : Bytes) : String := String.ofList ((Base64.encode bytes).map standard)

/-- What `validate` lets pass: digits of the standard alphabet, and after them
the padding they need. -/
def strictBase64 (text : List Char) : Bool :=
  (text.takeWhile (· ≠ '=')).all (fun c => c ≠ '-' ∧ c ≠ '_' ∧ (Base64.value c).isSome) &&
    (text.takeWhile (· ≠ '=')).length % 4 ≠ 1 &&
    text.dropWhile (· ≠ '=') = Base64.padding (text.takeWhile (· ≠ '=')).length

/-- `base64.b64decode(…, validate=True)` -/
def b64decode (text : String) : Option Bytes :=
  if strictBase64 text.toList then Base64.read 0 0 0 text.toList else none

/-! ## Records -/

/-- AES-GCM under the spool's key: nonce, body and associated data. -/
structure SpoolCipher where
  encrypt : Bytes → Bytes → Bytes → Bytes
  decrypt : Bytes → Bytes → Bytes → Option Bytes
  decrypt_encrypt : ∀ nonce body aad, decrypt nonce (encrypt nonce body aad) aad = some body

/-- The exporter's `_destination_fingerprint` and `_cipher`. -/
structure Spool where
  destinationFingerprint : String
  cipher : Option SpoolCipher

namespace Spool

variable (sha256 : Bytes → String) (S : Spool)

def aadDocument (bundleId contentType : String) : List (String × Scalar) :=
  [("bundle_id", .str bundleId), ("content_type", .str contentType),
    ("destination_fingerprint", .str S.destinationFingerprint),
    ("spool_format", .str SPOOL_FORMAT_AESGCM_V1), ("version", .nat SPOOL_VERSION)]

/-- `_spool_aad` -/
def spoolAad (bundleId contentType : String) : Bytes :=
  encodeAscii (dumpsObject (S.aadDocument bundleId contentType))

/-- The document of `_encode`, its keys sorted. -/
def document (nonce : Bytes) (item : ExportItem) : List (String × Scalar) :=
  match S.cipher with
  | none =>
    [("bundle_id", .str item.bundleId), ("content_type", .str item.contentType),
      ("destination_fingerprint", .str S.destinationFingerprint),
      ("payload_base64", .str (b64encode item.payload)),
      ("payload_sha256", .str (sha256 item.payload)), ("version", .nat SPOOL_VERSION)]
  | some cipher =>
    [("bundle_id", .str item.bundleId),
      ("ciphertext_b64", .str (b64encode
        (cipher.encrypt nonce item.payload (S.spoolAad item.bundleId item.contentType)))),
      ("content_type", .str item.contentType),
      ("destination_fingerprint", .str S.destinationFingerprint),
      ("nonce_b64", .str (b64encode nonce)), ("payload_sha256", .str (sha256 item.payload)),
      ("spool_format", .str SPOOL_FORMAT_AESGCM_V1), ("version", .nat SPOOL_VERSION)]

/-- `_encode`, with the nonce that `os.urandom` gives. -/
def encode (nonce : Bytes) (item : ExportItem) : Bytes :=
  encodeAscii (dumpsObject (S.document sha256 nonce item))

/-- `_decrypt_record` -/
def decryptRecord (record : List (List ℕ × Json)) (bundleId contentType spoolFormat : String) :
    Option Bytes :=
  if spoolFormat ≠ SPOOL_FORMAT_AESGCM_V1 then none
  else do
    let nonceB64 ← stringEntry record "nonce_b64"
    let ciphertextB64 ← stringEntry record "ciphertext_b64"
    let cipher ← S.cipher
    let nonce ← b64decode nonceB64
    let ciphertext ← b64decode ciphertextB64
    cipher.decrypt nonce ciphertext (S.spoolAad bundleId contentType)

/-- The payload of a record, in the clear unless it names a format. -/
def payloadOf (record : List (List ℕ × Json)) (bundleId contentType : String) : Option Bytes :=
  match getEntry record "spool_format" with
  | none | some .null => (stringEntry record "payload_base64").bind b64decode
  | some (.str codes) => (textOf codes).bind (S.decryptRecord record bundleId contentType)
  | some _ => none

/-- The rest of `_decode`, of a record that is an object. -/
def decodeRecord (record : List (List ℕ × Json)) : Option ExportItem :=
  -- in Python `True` is 1
  if getEntry record "version" ≠ some (.int SPOOL_VERSION) ∧
      getEntry record "version" ≠ some (.bool true) then none
  else if stringEntry record "destination_fingerprint" ≠ some S.destinationFingerprint then none
  else do
    let bundleId ← stringEntry record "bundle_id"
    let contentType ← stringEntry record "content_type"
    let checksum ← stringEntry record "payload_sha256"
    let payload ← S.payloadOf record bundleId contentType
    if sha256 payload = checksum then some ⟨bundleId, payload, contentType⟩ else none

/-- `_decode`: none where it raises. -/
def decode (data : Bytes) : Option ExportItem :=
  ((decodeAscii data).bind loadsObject).bind (S.decodeRecord sha256)

end Spool

/-! ## Reading back -/

theorem standard_value (c : Char) : Base64.value (standard c) = Base64.value c := by
  unfold standard
  split
  · next h => subst h; decide
  · split
    · next h => subst h; decide
    · rfl

theorem standard_eq_pad (c : Char) : standard c = '=' ↔ c = '=' := by
  unfold standard
  split
  · next h => subst h; decide
  · split
    · next h => subst h; decide
    · rfl

/-- Either alphabet is read alike. -/
theorem read_standard : ∀ (text : List Char) (quad left pads : ℕ),
    Base64.read quad left pads (text.map standard) = Base64.read quad left pads text := by
  intro text
  induction text with
  | nil => exact fun _ _ _ => rfl
  | cons c text ih =>
    intro quad left pads
    rw [List.map_cons, Base64.read, Base64.read, standard_value]
    simp only [standard_eq_pad, ih]

theorem length_digits_mod (bytes : Bytes) : (Base64.digits bytes).length % 4 ≠ 1 := by
  induction bytes using Base64.digits.induct with
  | case1 => decide
  | case2 | case3 => simp [Base64.digits]
  | case4 a b c rest ih =>
    simp only [Base64.digits, List.length_cons]
    omega

theorem b64decode_b64encode (bytes : Bytes) : b64decode (b64encode bytes) = some bytes := by
  have hdigit : ∀ c ∈ (Base64.digits bytes).map standard,
      c ≠ '=' ∧ c ≠ '-' ∧ c ≠ '_' ∧ (Base64.value c).isSome := by
    intro c hc
    obtain ⟨x, hx, rfl⟩ := List.mem_map.mp hc
    obtain ⟨n, hn, rfl⟩ := Base64.exists_digit_of_mem hx
    refine ⟨fun h => (Base64.digit_plain hn).1 ((standard_eq_pad _).mp h), ?_, ?_, ?_⟩
    · unfold standard
      split
      · decide
      · split
        · decide
        · assumption
    · unfold standard
      split
      · decide
      · split
        · decide
        · assumption
    · rw [standard_value, Base64.value_digit hn]
      rfl
  have hpads : (Base64.padding (Base64.digits bytes).length).map standard =
      Base64.padding (Base64.digits bytes).length := by
    rw [Base64.padding, List.map_replicate]
    rfl
  have hsplit : (Base64.encode bytes).map standard = (Base64.digits bytes).map standard ++
      Base64.padding (Base64.digits bytes).length := by
    rw [Base64.encode, List.map_append, hpads]
  have hstop (n : ℕ) : (List.replicate n '=').takeWhile (· ≠ '=') = [] := by
    cases n <;> rfl
  have htake : ((Base64.encode bytes).map standard).takeWhile (· ≠ '=') =
      (Base64.digits bytes).map standard := by
    rw [hsplit, List.takeWhile_append_of_pos fun c hc => decide_eq_true (hdigit c hc).1]
    rw [Base64.padding, hstop, List.append_nil]
  have hdrop : ((Base64.encode bytes).map standard).dropWhile (· ≠ '=') =
      Base64.padding (Base64.digits bytes).length := by
    rw [hsplit, List.dropWhile_append_of_pos fun c hc => decide_eq_true (hdigit c hc).1]
    exact List.dropWhile_eq_self_iff.mpr fun hlen h => of_decide_eq_true h
      (Base64.padding_all _ _ (List.getElem_mem hlen))
  have hstrict : strictBase64 ((Base64.encode bytes).map standard) = true := by
    unfold strictBase64
    rw [htake, hdrop, List.length_map]
    simp only [Bool.and_eq_true, List.all_eq_true, decide_eq_true_eq]
    exact ⟨⟨fun c hc => (hdigit c hc).2, length_digits_mod bytes⟩, trivial⟩
  rw [b64decode, b64encode, String.toList_ofList, if_pos hstrict, read_standard]
  exact Base64.read_digits bytes

/-! ## ASCII -/

theorem decodeAscii_encodeAscii {text : List Char} (h : ∀ c ∈ text, c.toNat < 128) :
    decodeAscii (encodeAscii text) = some text := by
  have hback : ∀ c ∈ text, (UInt8.ofNat c.toNat).toNat = c.toNat := by
    intro c hc
    rw [UInt8.toNat_ofNat']
    exact Nat.mod_eq_of_lt (by have := h c hc; omega)
  have hall : (encodeAscii text).all (fun b => b.toNat < 128) = true := by
    rw [List.all_eq_true]
    intro b hb
    obtain ⟨c, hc, rfl⟩ := List.mem_map.mp hb
    refine decide_eq_true ?_
    rw [hback c hc]
    exact h c hc
  rw [decodeAscii, if_pos hall, encodeAscii, List.map_map]
  refine congrArg some ((List.map_congr_left fun c hc => ?_).trans (List.map_id text))
  change Char.ofNat (UInt8.ofNat c.toNat).toNat = c
  rw [hback c hc, Char.ofNat_toNat]

theorem digitChar_ascii : ∀ n < 16, (Nat.digitChar n).toNat < 128 := by decide

theorem escapeUnit_ascii (n : ℕ) : ∀ c ∈ PageCursor.escapeUnit n, c.toNat < 128 := by
  intro c hc
  simp only [PageCursor.escapeUnit, List.map_cons, List.map_nil, List.mem_cons,
    List.not_mem_nil, or_false] at hc
  rcases hc with rfl | rfl | rfl | rfl | rfl | rfl
  · decide
  · decide
  all_goals exact digitChar_ascii _ (Nat.mod_lt _ (by decide))

theorem escapeChar_ascii (c : Char) : ∀ x ∈ PageCursor.escapeChar c, x.toNat < 128 := by
  intro x hx
  unfold PageCursor.escapeChar at hx
  repeat' split at hx
  all_goals try
    simp only [List.mem_cons, List.not_mem_nil, or_false] at hx
  · rcases hx with rfl | rfl <;> decide
  · rcases hx with rfl | rfl <;> decide
  · rcases hx with rfl | rfl <;> decide
  · rcases hx with rfl | rfl <;> decide
  · rcases hx with rfl | rfl <;> decide
  · rcases hx with rfl | rfl <;> decide
  · rcases hx with rfl | rfl <;> decide
  · next h =>
    subst hx
    omega
  · exact escapeUnit_ascii _ x hx
  · rcases List.mem_append.mp hx with hx | hx
    · exact escapeUnit_ascii _ x hx
    · exact escapeUnit_ascii _ x hx

theorem intercalate_ascii {texts : List (List Char)}
    (h : ∀ text ∈ texts, ∀ c ∈ text, c.toNat < 128) :
    ∀ c ∈ [','].intercalate texts, c.toNat < 128 := by
  induction texts with
  | nil => exact fun c hc => absurd hc List.not_mem_nil
  | cons text texts ih =>
    have hrest := ih fun other hother => h other (List.mem_cons_of_mem _ hother)
    intro c hc
    cases texts with
    | nil =>
      rw [List.intercalate_singleton] at hc
      exact h text List.mem_cons_self c hc
    | cons text' texts =>
      rw [List.intercalate_cons_cons, List.append_assoc] at hc
      rcases List.mem_append.mp hc with hc | hc
      · exact h text List.mem_cons_self c hc
      · rcases List.mem_append.mp hc with hc | hc
        · rw [List.mem_singleton.mp hc]
          decide
        · exact hrest c hc

/-- **A dumped object is ASCII.** -/
theorem dumpsObject_ascii (entries : List (String × Scalar)) :
    ∀ c ∈ dumpsObject entries, c.toNat < 128 := by
  have hstring (text : String) : ∀ c ∈ dumpsString text, c.toNat < 128 := by
    intro c hc
    rcases List.mem_cons.mp hc with rfl | hc
    · decide
    · rcases List.mem_append.mp hc with hc | hc
      · obtain ⟨x, -, hx⟩ := List.mem_flatMap.mp hc
        exact escapeChar_ascii x c hx
      · rw [List.mem_singleton.mp hc]
        decide
  have hscalar (value : Scalar) : ∀ c ∈ dumpsScalar value, c.toNat < 128 := by
    cases value with
    | str text => exact hstring text
    | nat n =>
      intro c hc
      have hdigit := Nat.isDigit_of_mem_toDigits (by decide) (by decide) hc
      simp only [Char.isDigit, Bool.and_eq_true, decide_eq_true_eq] at hdigit
      have hle : c.toNat ≤ 57 := hdigit.2
      omega
  have hentry (entry : String × Scalar) : ∀ c ∈ dumpsEntry entry, c.toNat < 128 := by
    intro c hc
    rcases List.mem_append.mp hc with hc | hc
    · exact hstring _ c hc
    · rcases List.mem_cons.mp hc with rfl | hc
      · decide
      · exact hscalar _ c hc
  intro c hc
  rcases List.mem_cons.mp hc with rfl | hc
  · decide
  · rcases List.mem_append.mp hc with hc | hc
    · refine intercalate_ascii (fun text htext => ?_) c hc
      obtain ⟨entry, -, rfl⟩ := List.mem_map.mp htext
      exact hentry entry
    · rw [List.mem_singleton.mp hc]
      decide

namespace Spool

variable {sha256 : Bytes → String} {S S' : Spool} {nonce : Bytes} {item : ExportItem}

/-- What is loaded of a record, by its key. -/
theorem loads_encode (sha256 : Bytes → String) (S : Spool) (nonce : Bytes) (item : ExportItem) : ∃ record,
    (decodeAscii (S.encode sha256 nonce item)).bind loadsObject = some record ∧
    ∀ key, getEntry record key =
      ((S.document sha256 nonce item).reverse.lookup key).map Scalar.loaded := by
  have hne : S.document sha256 nonce item ≠ [] := by
    unfold document
    split <;> exact List.cons_ne_nil _ _
  refine ⟨_, ?_, getEntry_loaded _⟩
  rw [encode, decodeAscii_encodeAscii (dumpsObject_ascii _), Option.bind_some,
    loadsObject_dumpsObject hne]

theorem stringEntry_of {record : List (List ℕ × Json)} {key text : String}
    (h : getEntry record key = some (.str (codesOf text))) :
    stringEntry record key = some text := by
  rw [stringEntry, h]
  exact textOf_codesOf text

/-- What every record names, in the clear or not. -/
structure Names (sha256 : Bytes → String) (S : Spool) (item : ExportItem)
    (record : List (List ℕ × Json)) : Prop where
  version : getEntry record "version" = some (.int SPOOL_VERSION)
  destination : stringEntry record "destination_fingerprint" = some S.destinationFingerprint
  bundleId : stringEntry record "bundle_id" = some item.bundleId
  contentType : stringEntry record "content_type" = some item.contentType
  checksum : stringEntry record "payload_sha256" = some (sha256 item.payload)

theorem Names.of_lookup {record : List (List ℕ × Json)} (h : ∀ key, getEntry record key =
    ((S.document sha256 nonce item).reverse.lookup key).map Scalar.loaded) :
    Names sha256 S item record := by
  cases hcipher : S.cipher with
  | none =>
    simp only [document, hcipher] at h
    exact ⟨h _, stringEntry_of (h _), stringEntry_of (h _), stringEntry_of (h _),
      stringEntry_of (h _)⟩
  | some cipher =>
    simp only [document, hcipher] at h
    exact ⟨h _, stringEntry_of (h _), stringEntry_of (h _), stringEntry_of (h _),
      stringEntry_of (h _)⟩

/-- The identity binds: another destination reads nothing, and the payload is
checked against what was written. -/
theorem Names.decodeRecord {record : List (List ℕ × Json)} (h : Names sha256 S item record) :
    S'.decodeRecord sha256 record =
      if S.destinationFingerprint = S'.destinationFingerprint then
        (S'.payloadOf record item.bundleId item.contentType).bind fun payload =>
          if sha256 payload = sha256 item.payload then some { item with payload := payload }
          else none
      else none := by
  unfold Spool.decodeRecord
  rw [h.version, h.destination, h.bundleId, h.contentType, h.checksum]
  rw [if_neg fun hne => hne.1 rfl]
  by_cases hdestination : S.destinationFingerprint = S'.destinationFingerprint
  · rw [if_neg fun hne => hne (congrArg some hdestination), if_pos hdestination]
    rfl
  · rw [if_pos fun heq => hdestination (Option.some.inj heq), if_neg hdestination]

theorem payloadOf_plain {record : List (List ℕ × Json)} (hcipher : S.cipher = none)
    (h : ∀ key, getEntry record key =
      ((S.document sha256 nonce item).reverse.lookup key).map Scalar.loaded)
    (bundleId contentType : String) :
    S'.payloadOf record bundleId contentType = some item.payload := by
  simp only [document, hcipher] at h
  have hformat : getEntry record "spool_format" = none := h _
  have hpayload : stringEntry record "payload_base64" = some (b64encode item.payload) :=
    stringEntry_of (h _)
  rw [payloadOf, hformat]
  dsimp only
  rw [hpayload]
  exact b64decode_b64encode _

theorem payloadOf_sealed {record : List (List ℕ × Json)} {cipher : SpoolCipher}
    (hcipher : S.cipher = some cipher)
    (h : ∀ key, getEntry record key =
      ((S.document sha256 nonce item).reverse.lookup key).map Scalar.loaded) :
    S'.payloadOf record item.bundleId item.contentType = S'.cipher.bind fun cipher' =>
      cipher'.decrypt nonce (cipher.encrypt nonce item.payload
        (S.spoolAad item.bundleId item.contentType))
        (S'.spoolAad item.bundleId item.contentType) := by
  simp only [document, hcipher] at h
  have hformat : getEntry record "spool_format" =
      some (.str (codesOf SPOOL_FORMAT_AESGCM_V1)) := h _
  have hnonce : stringEntry record "nonce_b64" = some (b64encode nonce) := stringEntry_of (h _)
  have hciphertext : stringEntry record "ciphertext_b64" = some (b64encode
      (cipher.encrypt nonce item.payload (S.spoolAad item.bundleId item.contentType))) :=
    stringEntry_of (h _)
  rw [payloadOf, hformat]
  dsimp only
  rw [textOf_codesOf, Option.bind_some, decryptRecord, if_neg fun hne => hne rfl, hnonce,
    hciphertext]
  cases S'.cipher with
  | none => rfl
  | some cipher' =>
    simp only [Option.bind_eq_bind, Option.bind_some, b64decode_b64encode]

/-- **Who reads a record back.** A record that was written whole is read, and
as its own item, by an exporter of its destination that has its key or needs
none; and by no exporter of another destination, nor, where it is encrypted, by
one that has no key. -/
theorem read_back (sha256 : Bytes → String) (S S' : Spool) (nonce : Bytes) (item : ExportItem) :
    (S'.destinationFingerprint = S.destinationFingerprint →
      (S.cipher = none ∨ S'.cipher = S.cipher) →
      S'.decode sha256 (S.encode sha256 nonce item) = some item) ∧
    (S'.destinationFingerprint ≠ S.destinationFingerprint ∨
      (S.cipher.isSome ∧ S'.cipher = none) →
      S'.decode sha256 (S.encode sha256 nonce item) = none) := by
  obtain ⟨record, hrecord, hget⟩ := loads_encode sha256 S nonce item
  have hnames : Names sha256 S item record := .of_lookup hget
  rw [decode, hrecord, Option.bind_some, hnames.decodeRecord]
  refine ⟨fun hdestination hkey => ?_, fun hrefused => ?_⟩
  · have hpayload : S'.payloadOf record item.bundleId item.contentType = some item.payload := by
      cases hcipher : S.cipher with
      | none => exact payloadOf_plain hcipher hget _ _
      | some cipher =>
        have hsame : S' = S := by
          have hcipher' := hkey.resolve_left (by rw [hcipher]; nofun)
          cases S'
          cases S
          simp_all
        rw [payloadOf_sealed hcipher hget, hsame, hcipher]
        exact cipher.decrypt_encrypt _ _ _
    rw [if_pos hdestination.symm, hpayload, Option.bind_some, if_pos rfl]
  · by_cases hdestination : S.destinationFingerprint = S'.destinationFingerprint
    · obtain ⟨hsealed, hnone⟩ := hrefused.resolve_left fun hne => hne hdestination.symm
      obtain ⟨cipher, hcipher⟩ := Option.isSome_iff_exists.mp hsealed
      rw [if_pos hdestination, payloadOf_sealed hcipher hget, hnone]
      rfl
    · rw [if_neg hdestination]

/-- A cipher that masks the body and puts the nonce before it. -/
def maskedSpool : SpoolCipher where
  encrypt nonce body _ := nonce ++ body.map (· ^^^ 90)
  decrypt nonce body _ :=
    if nonce <+: body then some ((body.drop nonce.length).map (· ^^^ 90)) else none
  decrypt_encrypt nonce body aad := by
    rw [if_pos (List.prefix_append _ _), List.drop_left, List.map_map]
    refine congrArg some (List.map_id'' (fun byte => ?_) body)
    rw [Function.comp_apply, UInt8.xor_assoc, UInt8.xor_self, UInt8.xor_zero]

def sampleSpool : Spool := ⟨"destination", some maskedSpool⟩

def sampleItem : ExportItem := ⟨"bundle", [1, 2, 3], "application/json"⟩

/-- An encrypted record is read with its key, and not without one. -/
theorem read_back_encrypted :
    sampleSpool.decode (fun payload => toString payload.length)
        (sampleSpool.encode (fun payload => toString payload.length) [7, 7] sampleItem) =
          some sampleItem ∧
      ({ sampleSpool with cipher := none } : Spool).decode (fun payload => toString payload.length)
        (sampleSpool.encode (fun payload => toString payload.length) [7, 7] sampleItem) = none :=
  ⟨(read_back _ sampleSpool sampleSpool [7, 7] sampleItem).1 rfl (.inr rfl),
    (read_back _ sampleSpool { sampleSpool with cipher := none } [7, 7] sampleItem).2
      (.inr ⟨rfl, rfl⟩)⟩

end Spool

end Earshot.Exporting
