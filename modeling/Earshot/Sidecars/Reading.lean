import Earshot.Common.Run
import Earshot.Sidecars.Document
/-!
# Reading back what was written

A sidecar is consistent (`WellFormed`) where it keeps every rule of
`from_json`. A consistent sidecar's document is read back as the sidecar,
its dictionaries up to the order of their items (`fromJson_toJson`), and
whatever is read from a document is consistent (`wellFormed_of_fromJson`).
-/

namespace Earshot.Sidecars

open Checked

/-! ## Dictionaries -/

section Dict

variable {κ ν : Type} [DecidableEq κ]

namespace Dict

omit [DecidableEq κ] in
theorem mem_keys {dict : Dict κ ν} {key : κ} :
    key ∈ dict.keys ↔ ∃ value, (key, value) ∈ dict := by
  unfold keys
  rw [List.mem_map]
  constructor
  · rintro ⟨⟨k, v⟩, hmem, rfl⟩
    exact ⟨v, hmem⟩
  · rintro ⟨v, hmem⟩
    exact ⟨(key, v), hmem, rfl⟩

theorem get_nil (key : κ) : get ([] : Dict κ ν) key = none := rfl

theorem get_cons (item : κ × ν) (dict : Dict κ ν) (key : κ) :
    get (item :: dict) key = if item.1 = key then some item.2 else get dict key := by
  unfold get
  rw [List.find?_cons]
  by_cases h : item.1 = key
  · rw [if_pos h, decide_eq_true h]
    rfl
  · rw [if_neg h, decide_eq_false h]

/-- **Each key is there once**, so an item is what its key gives. -/
theorem get_eq_some {dict : Dict κ ν} (hkeys : dict.keys.Nodup) {key : κ} {value : ν} :
    dict.get key = some value ↔ (key, value) ∈ dict := by
  induction dict with
  | nil => simp [get_nil]
  | cons item dict ih =>
    obtain ⟨hfresh, hrest⟩ := List.nodup_cons.mp hkeys
    rw [get_cons]
    by_cases h : item.1 = key
    · rw [if_pos h]
      constructor
      · intro hvalue
        exact List.mem_cons.mpr (.inl (Prod.ext h.symm (Option.some.inj hvalue).symm))
      · intro hmem
        rcases List.mem_cons.mp hmem with heq | hmem
        · rw [← heq]
        · subst h
          exact absurd (mem_keys.mpr ⟨value, hmem⟩) hfresh
    · rw [if_neg h, ih hrest]
      constructor
      · exact List.mem_cons_of_mem _
      · intro hmem
        rcases List.mem_cons.mp hmem with heq | hmem
        · exact absurd (congrArg Prod.fst heq).symm h
        · exact hmem

theorem get_eq_none {dict : Dict κ ν} {key : κ} : dict.get key = none ↔ key ∉ dict.keys := by
  induction dict with
  | nil => simp [get_nil, keys]
  | cons item dict ih =>
    rw [get_cons]
    by_cases h : item.1 = key
    · rw [if_pos h]
      simp [keys, h]
    · rw [if_neg h, ih]
      simp only [keys, List.map_cons, List.mem_cons, not_or]
      exact ⟨fun hmem => ⟨fun heq => h heq.symm, hmem⟩, fun hmem => hmem.2⟩

omit [DecidableEq κ] in
theorem keys_perm {dict other : Dict κ ν} (h : dict.Perm other) : dict.keys.Perm other.keys :=
  h.map _

/-- The order of its items is nothing to a reader. -/
theorem get_perm {dict other : Dict κ ν} (h : dict.Perm other) (hkeys : dict.keys.Nodup)
    (key : κ) : dict.get key = other.get key := by
  have hother : other.keys.Nodup := (keys_perm h).nodup_iff.mp hkeys
  cases hget : other.get key with
  | none => exact get_eq_none.mpr fun hmem => get_eq_none.mp hget ((keys_perm h).mem_iff.mp hmem)
  | some value =>
    exact (get_eq_some hkeys).mpr (h.mem_iff.mpr ((get_eq_some hother).mp hget))

/-- **Dictionaries with the same keys and the same values** are the same. -/
theorem perm_of_get {dict other : Dict κ ν} (hkeys : dict.keys.Nodup) (hother : other.keys.Nodup)
    (h : ∀ key, dict.get key = other.get key) : dict.Perm other := by
  refine (List.perm_ext_iff_of_nodup (List.Nodup.of_map _ hkeys)
    (List.Nodup.of_map _ hother)).mpr fun item => ?_
  obtain ⟨key, value⟩ := item
  rw [← get_eq_some hkeys, ← get_eq_some hother, h]

end Dict

end Dict

/-! ## Dumping -/

theorem sortKeys_perm {ν : Type} (entries : Dict String ν) : (sortKeys entries).Perm entries :=
  List.perm_insertionSort _ _

/-- A field of what was dumped. -/
theorem get_dumps {document : Document} (hkeys : document.keys.Nodup) (key : String) :
    Dict.get (dumps document) key = (Dict.get document key).map Value.sorted := by
  have hsorted : (Dict.keys (document.map fun entry => (entry.1, entry.2.sorted))).Nodup := by
    unfold Dict.keys at hkeys ⊢
    rw [List.map_map]
    exact hkeys
  unfold dumps
  rw [← Dict.get_perm (sortKeys_perm _).symm hsorted]
  clear hkeys hsorted
  induction document with
  | nil => rfl
  | cons entry document ih =>
    rw [List.map_cons, Dict.get_cons, Dict.get_cons, ih]
    split <;> rfl

/-- A sequence is read as it was written. -/
theorem parseSequence_toString (n : ℕ) (message : String) :
    parseSequence (toString n) message = .ok n := by
  have hdigits : Nat.ofDigitChars 10 (toString n).toList 0 = n := by
    rw [show (toString n).toList = Nat.toDigits 10 n from Nat.toList_repr,
      Nat.ofDigitChars_ten_toDigits]
  unfold parseSequence
  rw [hdigits, if_pos rfl]

/-! ## Setting items -/

namespace Dict

variable {κ ν : Type} [DecidableEq κ]

theorem set_fresh {dict : Dict κ ν} {key : κ} (h : key ∉ dict.keys) (value : ν) :
    dict.set key value = dict ++ [(key, value)] := if_neg h

omit [DecidableEq κ] in
theorem keys_append (dict other : Dict κ ν) : (dict ++ other).keys = dict.keys ++ other.keys :=
  List.map_append

/-- A key that is there keeps its place. -/
theorem keys_replace (dict : Dict κ ν) (key : κ) (value : ν) :
    Dict.keys (dict.map fun item => if item.1 = key then (key, value) else item) = dict.keys := by
  unfold keys
  rw [List.map_map]
  refine List.map_congr_left fun item _ => ?_
  show (if item.1 = key then (key, value) else item).1 = item.1
  split
  · rename_i heq
    exact heq.symm
  · rfl

/-- An item set, or one that was there. -/
theorem mem_set {dict : Dict κ ν} {key : κ} {value : ν} {item : κ × ν}
    (h : item ∈ dict.set key value) : item = (key, value) ∨ item ∈ dict := by
  unfold set at h
  split at h
  · obtain ⟨old, hold, hitem⟩ := List.mem_map.mp h
    split at hitem
    · exact .inl hitem.symm
    · exact .inr (hitem ▸ hold)
  · rcases List.mem_append.mp h with hmem | hmem
    · exact .inr hmem
    · exact .inl (List.mem_singleton.mp hmem)

theorem mem_keys_set {dict : Dict κ ν} {key other : κ} {value : ν} :
    other ∈ (dict.set key value).keys ↔ other = key ∨ other ∈ dict.keys := by
  unfold set
  split
  · rename_i hpresent
    rw [keys_replace]
    exact ⟨.inr, fun h => h.elim (fun heq => heq ▸ hpresent) id⟩
  · rw [keys_append]
    simp [keys, or_comm]

/-- Setting a key keeps the keys distinct. -/
theorem nodup_set {dict : Dict κ ν} (h : dict.keys.Nodup) (key : κ) (value : ν) :
    (dict.set key value).keys.Nodup := by
  unfold set
  split
  · rw [keys_replace]
    exact h
  · rename_i hfresh
    rw [keys_append]
    refine List.nodup_append.mpr ⟨h, by simp [keys], fun a ha b hb => ?_⟩
    simp only [keys, List.map_cons, List.map_nil, List.mem_singleton] at hb
    rintro rfl
    exact hfresh (hb ▸ ha)

end Dict

/-- **A dictionary's loop**, over items each of which reads as its own. -/
theorem foldlM_set {ν : Type} {parse : Dict ℕ ν → String × Scalar → Parse (Dict ℕ ν)}
    {write : ν → Scalar} {P : ℕ × ν → Prop}
    (hparse : ∀ dict item, P item → parse dict (toString item.1, write item.2) =
      .ok (dict.set item.1 item.2)) :
    ∀ (items acc : Dict ℕ ν), (∀ item ∈ items, P item) → (acc ++ items).keys.Nodup →
      (items.map fun item => (toString item.1, write item.2)).foldlM parse acc =
        .ok (acc ++ items)
  | [], acc, _, _ => by rw [List.append_nil]; rfl
  | item :: items, acc, hall, hnodup => by
    have hfresh : item.1 ∉ acc.keys := fun hmem => by
      rw [Dict.keys_append] at hnodup
      exact (List.nodup_append.mp hnodup).2.2 _ hmem _ (List.mem_map_of_mem List.mem_cons_self)
        rfl
    rw [List.map_cons, List.foldlM_cons, hparse acc item (hall item List.mem_cons_self),
      Dict.set_fresh hfresh]
    refine (foldlM_set hparse items (acc ++ [item])
      (fun other hother => hall other (List.mem_cons_of_mem _ hother)) ?_).trans ?_
    · rw [List.append_assoc]
      exact hnodup
    · rw [List.append_assoc]
      rfl

/-! ## Consistent sidecars -/

/-- The identity of a drain whose outcome is open: whole or not there, and of
a drain past the last one applied. -/
structure Fence (applied : ℕ) (sequence : Option ℕ) (digest : Option String)
    (version : Option DigestVersion) : Prop where
  wholeDigest : digest.isSome = sequence.isSome
  wholeVersion : version.isSome = sequence.isSome
  past : ∀ n, sequence = some n → applied < n
  hex : ∀ d, digest = some d → isSha256 d = true

/-- The ring of digests, with their versions. -/
structure Ring (applied : ℕ) (digests : Dict ℕ String) (versions : Dict ℕ DigestVersion) :
    Prop where
  nodup : digests.keys.Nodup
  versionsNodup : versions.keys.Nodup
  /-- Each digest has a version, and each version a digest. -/
  matching : ∀ sequence, sequence ∈ digests.keys ↔ sequence ∈ versions.keys
  range : ∀ sequence ∈ digests.keys, 1 ≤ sequence ∧ sequence ≤ applied
  hex : ∀ item ∈ digests, isSha256 item.2 = true
  bound : digests.length ≤ DIGEST_RING_SIZE
  /-- The ring covers the latest drain. -/
  latest : 0 < applied → applied ∈ digests.keys

/-- The observed span is whole and in order. -/
structure Span (first last : Option ℚ) : Prop where
  whole : first.isSome = last.isSome
  ordered : ∀ a b, first = some a → last = some b → a ≤ b

/-- **A consistent sidecar**: every rule of `from_json`. -/
structure WellFormed (s : CaptureSidecar) : Prop where
  project : s.projectId ≠ ""
  call : s.callKey ≠ ""
  correlation : ∀ k, s.correlationKeyId = some k → isSha256 k = true
  metadata : ∀ d, s.callMetadataDigest = some d → isSha256 d = true
  bound : s.callMetadataDigest.isSome = s.callMetadataBound
  pending : Fence s.applied s.pendingSequence s.pendingDigest s.pendingDigestVersion
  journalSize : s.pendingJournalSize.isSome = s.pendingSequence.isSome
  retry : Fence s.applied s.retrySequence s.retryDigest s.retryDigestVersion
  agree : s.pendingSequence.isSome = true → s.retrySequence.isSome = true →
    s.pendingSequence = s.retrySequence ∧ s.pendingDigest = s.retryDigest ∧
      s.pendingDigestVersion = s.retryDigestVersion
  sealed : s.sealed = true → s.finalized = true
  expired : s.expired = true → s.sealed = false ∧ s.finalized = false
  closed : s.finalized = true → s.pendingSequence = none ∧ s.retrySequence = none
  ring : Ring s.applied s.digests s.digestVersions
  span : Span s.firstObservedMs s.lastObservedMs

/-- Two sidecars are equal, as their dictionaries are: whatever the order of
the items. -/
def CaptureSidecar.Same (s t : CaptureSidecar) : Prop :=
  { s with digests := t.digests, digestVersions := t.digestVersions } = t ∧
    s.digests.Perm t.digests ∧ s.digestVersions.Perm t.digestVersions

/-! ## The round trip -/

theorem refuse_ok {condition : Prop} [Decidable condition] (h : ¬ condition) (message : String) :
    refuse condition message = .ok () := if_neg h

/-- A field of a document that was written is the one it was given. -/
theorem field_dumps {document : Document} (hkeys : document.keys.Nodup) {key : String}
    {value : Value} (h : Dict.get document key = some value) :
    (dumps document).field key = value.sorted := by
  unfold Document.field
  rw [get_dumps hkeys, h]
  rfl

theorem fieldOr_dumps {document : Document} (hkeys : document.keys.Nodup) {key : String}
    {value : Value} (h : Dict.get document key = some value) (other : Value) :
    (dumps document).fieldOr key other = value.sorted := by
  unfold Document.fieldOr
  rw [get_dumps hkeys, h]
  rfl

theorem requiredNonnegativeInt_ofNat (n : ℕ) (name : String) :
    requiredNonnegativeInt (Value.ofNat n).sorted name = .ok n := rfl

theorem requiredBool_ofBool (b : Bool) (name : String) :
    requiredBool (Value.ofBool b).sorted name = .ok b := rfl

theorem requiredName_ofString {s : String} (h : s ≠ "") (message : String) :
    requiredName (Value.ofString s).sorted message = .ok s := if_neg h

theorem optionalNonnegativeInt_ofOption (n : Option ℕ) :
    optionalNonnegativeInt (Value.ofOption .ofNat n).sorted = .ok n := by
  cases n <;> rfl

theorem optionalSha256_ofOption {d : Option String} (h : ∀ s, d = some s → isSha256 s = true) :
    optionalSha256 (Value.ofOption .ofString d).sorted = .ok d := by
  cases d with
  | none => rfl
  | some s => exact if_pos (h s rfl)

/-- A digest version is read by its number. -/
theorem versionOf_versionNumber (version : DigestVersion) :
    versionOf (versionNumber version) = some version := by
  cases version <;> rfl

theorem optionalCaptureDigestVersion_ofOption {sequence : Option ℕ}
    {version : Option DigestVersion} (h : version.isSome = sequence.isSome)
    (fallback : DigestVersion) :
    optionalCaptureDigestVersion
      (Value.ofOption .ofVersion (CaptureSidecar.versionOr sequence version)).sorted
      (sequence.map fun _ => fallback) = .ok version := by
  cases sequence with
  | none =>
    cases version with
    | none => rfl
    | some version => exact absurd h (by simp)
  | some n =>
    cases version with
    | none => exact absurd h (by simp)
    | some version => cases version <;> rfl

theorem optionalFiniteFloat_ofOption (floatOf : ℤ → Option ℚ) (x : Option ℚ) :
    optionalFiniteFloat floatOf (Value.ofOption (fun x => .scalar (.float x)) x).sorted = .ok x := by
  cases x <;> rfl

/-- Items in the order of their keys' texts. -/
def Dict.byText {ν : Type} (items : Dict ℕ ν) : Dict ℕ ν :=
  items.insertionSort fun a b => toString a.1 ≤ toString b.1

theorem Dict.byText_perm {ν : Type} (items : Dict ℕ ν) : items.byText.Perm items :=
  List.perm_insertionSort _ _

/-- Items sorted by their keys, as they were before they were written. -/
theorem sortKeys_map {ν : Type} (write : ℕ × ν → Scalar) (items : Dict ℕ ν) :
    sortKeys (items.map fun item => (toString item.1, write item)) =
      items.byText.map fun item => (toString item.1, write item) := by
  unfold sortKeys Dict.byText
  symm
  apply List.map_insertionSort
  intro a _ b _
  rfl

namespace CaptureSidecar

variable {s : CaptureSidecar}

/-- A sidecar writes each field once. -/
theorem toJson_nodup (s : CaptureSidecar) : (Dict.keys s.toJson).Nodup := by
  unfold Dict.keys toJson
  simp only [List.map_cons, List.map_nil]
  simp

/-- A field of a sidecar's document. -/
theorem field_toJson {key : String} {value : Value} (h : Dict.get s.toJson key = some value) :
    (dumps s.toJson).field key = value.sorted := field_dumps (toJson_nodup s) h

theorem fieldOr_toJson {key : String} {value : Value} (h : Dict.get s.toJson key = some value)
    (other : Value) : (dumps s.toJson).fieldOr key other = value.sorted :=
  fieldOr_dumps (toJson_nodup s) h other

/-- The ring's digests are read. -/
theorem parseDigests_toJson (h : Ring s.applied s.digests s.digestVersions) :
    parseDigests s.applied
      (Value.object (s.digests.map fun item => (toString item.1, .str item.2))).sorted =
        .ok s.digests.byText := by
  unfold Value.sorted parseDigests
  dsimp only
  rw [sortKeys_map fun item : ℕ × String => .str item.2]
  have hperm := s.digests.byText_perm
  refine (foldlM_set
    (P := fun item => (1 ≤ item.1 ∧ item.1 ≤ s.applied) ∧ isSha256 item.2 = true)
    (fun dict item hitem => ?_) _ [] (fun item hmem => ?_) ?_).trans rfl
  · unfold parseDigest
    rw [parseSequence_toString, ok_bind, refuse_ok (by omega), ok_bind]
    unfold optionalSha256
    dsimp only
    rw [if_pos hitem.2]
    rfl
  · have hin := hperm.mem_iff.mp hmem
    exact ⟨h.range _ (Dict.mem_keys.mpr ⟨_, hin⟩), h.hex _ hin⟩
  · rw [List.nil_append]
    exact (Dict.keys_perm hperm).nodup_iff.mpr h.nodup

/-- The digests' versions, in the order of the digests. -/
def writtenVersions (s : CaptureSidecar) : Dict ℕ DigestVersion :=
  s.digests.map fun item => (item.1, (s.digestVersions.get item.1).getD .current)

theorem keys_writtenVersions (s : CaptureSidecar) : s.writtenVersions.keys = s.digests.keys := by
  unfold writtenVersions Dict.keys
  rw [List.map_map]
  rfl

/-- A version is written for each digest, and no other. -/
theorem writtenVersions_perm (h : Ring s.applied s.digests s.digestVersions) :
    s.writtenVersions.Perm s.digestVersions := by
  have hnodup : s.writtenVersions.keys.Nodup := by
    rw [keys_writtenVersions]
    exact h.nodup
  refine Dict.perm_of_get hnodup h.versionsNodup fun key => ?_
  cases hget : s.digestVersions.get key with
  | none =>
    have hkey := Dict.get_eq_none.mp hget
    rw [← h.matching, ← keys_writtenVersions] at hkey
    exact Dict.get_eq_none.mpr hkey
  | some version =>
    have hkey : key ∈ s.digests.keys := (h.matching key).mpr
      (Dict.mem_keys.mpr ⟨version, (Dict.get_eq_some h.versionsNodup).mp hget⟩)
    obtain ⟨digest, hmem⟩ := Dict.mem_keys.mp hkey
    refine (Dict.get_eq_some hnodup).mpr (List.mem_map.mpr ⟨(key, digest), hmem, ?_⟩)
    dsimp only
    rw [hget]
    rfl

/-- The versions written are the versions read. -/
theorem parseVersions_toJson (h : Ring s.applied s.digests s.digestVersions) :
    parseVersions s.digests.byText
      (Value.object (s.digests.map fun item => (toString item.1,
        .int (.ofNat (versionNumber ((s.digestVersions.get item.1).getD .current)))))).sorted =
        .ok s.writtenVersions.byText := by
  have hwritten : (s.digests.map fun item => (toString item.1,
      Scalar.int (.ofNat (versionNumber ((s.digestVersions.get item.1).getD .current))))) =
        s.writtenVersions.map fun item => (toString item.1,
          Scalar.int (.ofNat (versionNumber item.2))) := by
    unfold writtenVersions
    rw [List.map_map]
    rfl
  have hperm := s.writtenVersions.byText_perm
  have hkeys : ∀ key, key ∈ s.writtenVersions.byText.keys ↔ key ∈ s.digests.byText.keys := by
    intro key
    rw [(Dict.keys_perm hperm).mem_iff, keys_writtenVersions,
      (Dict.keys_perm s.digests.byText_perm).mem_iff]
  have hread : (s.writtenVersions.byText.map fun item => (toString item.1,
      Scalar.int (.ofNat (versionNumber item.2)))).foldlM (parseVersion s.digests.byText) [] =
        .ok s.writtenVersions.byText := by
    refine (@foldlM_set _ _ (fun version => Scalar.int (.ofNat (versionNumber version)))
      ( fun item => item.1 ∈ s.digests.byText.keys)
      (fun dict item hitem => ?_) _ [] (fun item hmem => ?_) ?_).trans rfl
    · unfold parseVersion
      rw [parseSequence_toString, ok_bind]
      unfold optionalCaptureDigestVersion
      dsimp only
      rw [versionOf_versionNumber, ok_bind]
      dsimp only
      rw [if_pos hitem]
    · exact (hkeys _).mp (Dict.mem_keys.mpr ⟨_, hmem⟩)
    · rw [List.nil_append, (Dict.keys_perm hperm).nodup_iff, keys_writtenVersions]
      exact h.nodup
  rw [hwritten]
  unfold Value.sorted parseVersions
  dsimp only
  rw [sortKeys_map fun item : ℕ × DigestVersion => .int (.ofNat (versionNumber item.2)), hread,
    ok_bind, refuse_ok (not_not.mpr fun key hkey => (hkeys key).mpr hkey)]
  rfl

/-! ### No rule refuses a consistent sidecar -/

theorem isNone_eq {α β : Type} {a : Option α} {b : Option β} (h : a.isSome = b.isSome) :
    a.isNone = b.isNone := by
  rw [← Option.not_isSome, ← Option.not_isSome, h]

theorem any_eq_false {sequence : Option ℕ} {P : ℕ → Bool}
    (h : ∀ n, sequence = some n → P n = false) : ¬ sequence.any P = true := by
  cases sequence with
  | none => exact Bool.false_ne_true
  | some n =>
    rw [Option.any_some, h n rfl]
    exact Bool.false_ne_true

/-- A pending drain is written whole or not at all. -/
theorem pending_complete (h : WellFormed s) :
    ¬ ((s.pendingSequence.isSome = true ∨ s.pendingDigest.isSome = true ∨
        s.pendingJournalSize.isSome = true) ∧
      (s.pendingSequence.isNone = true ∨ s.pendingDigest.isNone = true ∨
        s.pendingJournalSize.isNone = true ∨ s.pendingSequence.any (· < 1) = true)) := by
  have hpast : ¬ s.pendingSequence.any (fun n => decide (n < 1)) = true :=
    any_eq_false fun n hn => decide_eq_false (by have := h.pending.past n hn; omega)
  rw [h.pending.wholeDigest, h.journalSize, isNone_eq h.pending.wholeDigest,
    isNone_eq h.journalSize]
  rintro ⟨hsome, hnone⟩
  have hpresent : s.pendingSequence.isSome = true := by tauto
  rw [← Option.not_isSome, hpresent] at hnone
  simp only [Bool.not_true, Bool.false_eq_true, false_or] at hnone
  exact hpast hnone

theorem past_applied {sequence : Option ℕ} {applied : ℕ}
    (h : ∀ n, sequence = some n → applied < n) :
    ¬ sequence.any (fun n => decide (n ≤ applied)) = true :=
  any_eq_false fun n hn => decide_eq_false (by have := h n hn; omega)

/-- A pending drain that is retried is the one that was refused. -/
theorem agreed (h : WellFormed s) :
    ¬ (s.pendingSequence.isSome = true ∧ s.retrySequence.isSome = true ∧
      (s.pendingSequence ≠ s.retrySequence ∨ s.pendingDigest ≠ s.retryDigest ∨
        s.pendingDigestVersion ≠ s.retryDigestVersion)) := by
  rintro ⟨hpending, hretry, hdiffer⟩
  obtain ⟨hsequence, hdigest, hversion⟩ := h.agree hpending hretry
  rcases hdiffer with hne | hne | hne
  · exact hne hsequence
  · exact hne hdigest
  · exact hne hversion

/-- A finalized call has nothing outstanding. -/
theorem resolved (h : WellFormed s) :
    ¬ (s.finalized = true ∧
      (s.pendingSequence.isSome = true ∨ s.retrySequence.isSome = true)) := by
  rintro ⟨hfinalized, hopen⟩
  obtain ⟨hpending, hretry⟩ := h.closed hfinalized
  rw [hpending, hretry] at hopen
  exact hopen.elim Bool.false_ne_true Bool.false_ne_true

theorem sealed_consistent (h : WellFormed s) :
    ¬ (s.sealed = true ∧ ((!s.finalized) = true ∨ s.pendingSequence.isSome = true ∨
      s.retrySequence.isSome = true)) := by
  rintro ⟨hsealed, hopen⟩
  have hfinalized := h.sealed hsealed
  rw [hfinalized] at hopen
  exact resolved h ⟨hfinalized, hopen.resolve_left Bool.false_ne_true⟩

theorem not_expired_closed (h : WellFormed s) :
    ¬ (s.expired = true ∧ (s.sealed = true ∨ s.finalized = true)) := by
  rintro ⟨hexpired, hclosed⟩
  obtain ⟨hsealed, hfinalized⟩ := h.expired hexpired
  rw [hsealed, hfinalized] at hclosed
  exact hclosed.elim Bool.false_ne_true Bool.false_ne_true

theorem bound_complete (h : WellFormed s) :
    ¬ (s.callMetadataBound = true ∧ s.callMetadataDigest.isNone = true) := by
  rintro ⟨hbound, hnone⟩
  rw [← h.bound, ← Option.not_isNone, hnone] at hbound
  exact Bool.false_ne_true hbound

theorem unbound_empty (h : WellFormed s) :
    ¬ ((!s.callMetadataBound) = true ∧ s.callMetadataDigest.isSome = true) := by
  rintro ⟨hbound, hsome⟩
  rw [← h.bound, hsome] at hbound
  exact Bool.false_ne_true hbound

/-- The ring holds the latest drain that was applied. -/
theorem latest_covered {applied : ℕ} {digests : Dict ℕ String}
    (hrange : ∀ sequence ∈ digests.keys, 1 ≤ sequence ∧ sequence ≤ applied)
    (hlatest : 0 < applied → applied ∈ digests.keys) :
    ¬ ((applied = 0 ∧ digests ≠ []) ∨ (0 < applied ∧ applied ∉ digests.keys)) := by
  rintro (⟨hzero, hne⟩ | ⟨hpos, hmem⟩)
  · obtain ⟨item, hitem⟩ := List.exists_mem_of_ne_nil _ hne
    have := hrange item.1 (Dict.mem_keys.mpr ⟨item.2, hitem⟩)
    omega
  · exact hmem (hlatest hpos)

theorem span_ordered (h : Span s.firstObservedMs s.lastObservedMs) :
    ¬ s.firstObservedMs.any (fun first => s.lastObservedMs.any fun last => decide (last < first)) =
      true := by
  intro hany
  obtain ⟨first, hfirst, hlast⟩ := (Option.any_eq_true _ _).mp hany
  obtain ⟨last, hlast, hlt⟩ := (Option.any_eq_true _ _).mp hlast
  exact absurd (of_decide_eq_true hlt) (not_lt.mpr (h.ordered first last hfirst hlast))

/-- **What is written is read back**: a consistent sidecar's document gives the
sidecar. -/
theorem fromJson_toJson (floatOf : ℤ → Option ℚ) (h : WellFormed s) :
    ∃ t, fromJson floatOf (dumps s.toJson) = .ok t ∧ s.Same t := by
  refine ⟨{ s with digests := s.digests.byText, digestVersions := s.writtenVersions.byText },
    ?_, rfl, s.digests.byText_perm.symm,
    (writtenVersions_perm h.ring).symm.trans s.writtenVersions.byText_perm.symm⟩
  have happlied : (dumps s.toJson).field "applied" =
      (Value.ofNat s.applied).sorted := field_toJson rfl
  have hturn : (dumps s.toJson).fieldOr "turn_sequence" (.ofNat 0) =
      (Value.ofNat s.turnSequence).sorted := fieldOr_toJson rfl _
  have hlossy : (dumps s.toJson).fieldOr "lossy" (.ofBool false) =
      (Value.ofBool s.lossy).sorted := fieldOr_toJson rfl _
  have hfinalized : (dumps s.toJson).fieldOr "finalized" (.ofBool false) =
      (Value.ofBool s.finalized).sorted := fieldOr_toJson rfl _
  have hsealed : (dumps s.toJson).fieldOr "sealed" (.ofBool false) =
      (Value.ofBool s.sealed).sorted := fieldOr_toJson rfl _
  have hexpired : (dumps s.toJson).fieldOr "expired" (.ofBool false) =
      (Value.ofBool s.expired).sorted := fieldOr_toJson rfl _
  have hbound : (dumps s.toJson).fieldOr "call_metadata_bound" (.ofBool false) =
      (Value.ofBool s.callMetadataBound).sorted := fieldOr_toJson rfl _
  have hmetadata : (dumps s.toJson).field "call_metadata_digest" =
      (Value.ofOption .ofString s.callMetadataDigest).sorted := field_toJson rfl
  have hcorrelation : (dumps s.toJson).field "correlation_key_id" =
      (Value.ofOption .ofString s.correlationKeyId).sorted := field_toJson rfl
  have hproject : (dumps s.toJson).field "project_id" =
      (Value.ofString s.projectId).sorted := field_toJson rfl
  have hcall : (dumps s.toJson).field "call_key" =
      (Value.ofString s.callKey).sorted := field_toJson rfl
  have hpending : (dumps s.toJson).field "pending_sequence" =
      (Value.ofOption .ofNat s.pendingSequence).sorted := field_toJson rfl
  have hsize : (dumps s.toJson).field "pending_journal_size" =
      (Value.ofOption .ofNat s.pendingJournalSize).sorted := field_toJson rfl
  have hpendingDigest : (dumps s.toJson).field "pending_digest" =
      (Value.ofOption .ofString s.pendingDigest).sorted := field_toJson rfl
  have hretry : (dumps s.toJson).field "retry_sequence" =
      (Value.ofOption .ofNat s.retrySequence).sorted := field_toJson rfl
  have hretryDigest : (dumps s.toJson).field "retry_digest" =
      (Value.ofOption .ofString s.retryDigest).sorted := field_toJson rfl
  have hpendingVersion : (dumps s.toJson).field "pending_digest_version" =
      (Value.ofOption .ofVersion (versionOr s.pendingSequence s.pendingDigestVersion)).sorted :=
    field_toJson rfl
  have hretryVersion : (dumps s.toJson).field "retry_digest_version" =
      (Value.ofOption .ofVersion (versionOr s.retrySequence s.retryDigestVersion)).sorted :=
    field_toJson rfl
  have hdigests : (dumps s.toJson).fieldOr "digests" (.object []) =
      (Value.object (s.digests.map fun item => (toString item.1, .str item.2))).sorted :=
    fieldOr_toJson rfl _
  have hversions : (dumps s.toJson).field "digest_versions" =
      (Value.object (s.digests.map fun item => (toString item.1,
        .int (.ofNat (versionNumber ((s.digestVersions.get item.1).getD .current)))))).sorted :=
    field_toJson rfl
  have hfirst : (dumps s.toJson).field "first_observed_ms" =
      (Value.ofOption (fun x => .scalar (.float x)) s.firstObservedMs).sorted := field_toJson rfl
  have hlast : (dumps s.toJson).field "last_observed_ms" =
      (Value.ofOption (fun x => .scalar (.float x)) s.lastObservedMs).sorted := field_toJson rfl
  unfold fromJson
  rw [happlied, requiredNonnegativeInt_ofNat, ok_bind, hturn, requiredNonnegativeInt_ofNat,
    ok_bind, hlossy, requiredBool_ofBool, ok_bind, hfinalized, requiredBool_ofBool, ok_bind,
    hsealed, requiredBool_ofBool, ok_bind, hexpired, requiredBool_ofBool, ok_bind,
    hbound, requiredBool_ofBool, ok_bind, hmetadata, optionalSha256_ofOption h.metadata, ok_bind,
    hcorrelation, optionalSha256_ofOption h.correlation, ok_bind,
    hproject, requiredName_ofString h.project, ok_bind, hcall, requiredName_ofString h.call,
    ok_bind, hpending, optionalNonnegativeInt_ofOption, ok_bind,
    hsize, optionalNonnegativeInt_ofOption, ok_bind,
    hpendingDigest, optionalSha256_ofOption h.pending.hex, ok_bind,
    hretry, optionalNonnegativeInt_ofOption, ok_bind,
    hretryDigest, optionalSha256_ofOption h.retry.hex, ok_bind,
    hpendingVersion, optionalCaptureDigestVersion_ofOption h.pending.wholeVersion, ok_bind,
    hretryVersion, optionalCaptureDigestVersion_ofOption h.retry.wholeVersion, ok_bind]
  have hretryPositive : ¬ s.retrySequence.any (fun n => decide (n < 1)) = true :=
    any_eq_false fun n hn => decide_eq_false (by have := h.retry.past n hn; omega)
  have hperm := s.digests.byText_perm
  have hcovered : ¬ ((s.applied = 0 ∧ s.digests.byText ≠ []) ∨
      (0 < s.applied ∧ s.applied ∉ s.digests.byText.keys)) :=
    latest_covered (fun n hn => h.ring.range n ((Dict.keys_perm hperm).mem_iff.mp hn))
      fun hpos => (Dict.keys_perm hperm).mem_iff.mpr (h.ring.latest hpos)
  rw [refuse_ok (pending_complete h), ok_bind,
    refuse_ok (not_not.mpr (isNone_eq h.retry.wholeDigest).symm), ok_bind,
    refuse_ok (not_not.mpr (isNone_eq h.pending.wholeVersion).symm), ok_bind,
    refuse_ok (not_not.mpr (isNone_eq h.retry.wholeVersion).symm), ok_bind,
    refuse_ok hretryPositive, ok_bind, refuse_ok (past_applied h.pending.past), ok_bind,
    refuse_ok (past_applied h.retry.past), ok_bind, refuse_ok (agreed h), ok_bind,
    refuse_ok (sealed_consistent h), ok_bind, refuse_ok (not_expired_closed h), ok_bind,
    refuse_ok (bound_complete h), ok_bind, refuse_ok (unbound_empty h), ok_bind,
    refuse_ok (resolved h), ok_bind, hdigests, parseDigests_toJson h.ring, ok_bind,
    refuse_ok (by rw [hperm.length_eq]; exact Nat.not_lt.mpr h.ring.bound), ok_bind,
    refuse_ok hcovered, ok_bind, hversions, parseVersions_toJson h.ring, ok_bind,
    hfirst, optionalFiniteFloat_ofOption, ok_bind, hlast, optionalFiniteFloat_ofOption, ok_bind,
    refuse_ok (not_not.mpr (isNone_eq h.span.whole)), ok_bind, refuse_ok (span_ordered h.span),
    ok_bind]
  rfl

/-! ## What is read is consistent -/

end CaptureSidecar

/-- A document that is read meets the condition. -/
theorem refuse_eq_ok {condition : Prop} [Decidable condition] {message : String} {u : Unit}
    (h : refuse condition message = .ok u) : ¬ condition := by
  intro hcondition
  unfold refuse at h
  rw [if_pos hcondition] at h
  exact absurd h nofun

theorem requiredName_eq_ok {value : Value} {message s : String}
    (h : requiredName value message = .ok s) : s ≠ "" := by
  unfold requiredName at h
  split at h
  · split at h
    · exact absurd h nofun
    · rename_i hne
      rw [← Except.ok.inj h]
      exact hne
  · exact absurd h nofun

theorem optionalSha256_eq_ok {value : Value} {d : Option String}
    (h : optionalSha256 value = .ok d) : ∀ s, d = some s → isSha256 s = true := by
  rintro s rfl
  unfold optionalSha256 at h
  split at h
  · exact absurd (Except.ok.inj h) nofun
  · split at h
    · rename_i hhex
      rw [← Option.some.inj (Except.ok.inj h)]
      exact hhex
    · exact absurd h nofun
  · exact absurd h nofun

/-- A property of the dictionaries that each item keeps is one of what the loop
makes. -/
theorem foldlM_ok {σ ι : Type} {step : σ → ι → Parse σ} {P : σ → Prop}
    (hstep : ∀ s item t, P s → step s item = .ok t → P t) :
    ∀ {items : List ι} {s t : σ}, P s → items.foldlM step s = .ok t → P t
  | [], s, t, hs, h => by
    rw [← Except.ok.inj (show (Except.ok s : Parse σ) = .ok t from h)]
    exact hs
  | item :: items, s, t, hs, h => by
    rw [List.foldlM_cons] at h
    obtain ⟨u, hu, h⟩ := bind_eq_ok.mp h
    exact foldlM_ok hstep (hstep s item u hs hu) h

/-- The digests read so far. -/
structure Digests (applied : ℕ) (digests : Dict ℕ String) : Prop where
  nodup : digests.keys.Nodup
  range : ∀ sequence ∈ digests.keys, 1 ≤ sequence ∧ sequence ≤ applied
  hex : ∀ item ∈ digests, isSha256 item.2 = true

theorem digests_nil (applied : ℕ) : Digests applied [] where
  nodup := List.nodup_nil 
  range := fun _ hkey => absurd hkey List.not_mem_nil
  hex := fun _ hitem => absurd hitem List.not_mem_nil

theorem digests_parseDigest {applied : ℕ} {digests other : Dict ℕ String}
    {entry : String × Scalar} (hdigests : Digests applied digests)
    (h : parseDigest applied digests entry = .ok other) : Digests applied other := by
  unfold parseDigest at h
  obtain ⟨sequence, _, h⟩ := bind_eq_ok.mp h
  obtain ⟨_, hrange, h⟩ := bind_eq_ok.mp h
  obtain ⟨digest, hdigest, h⟩ := bind_eq_ok.mp h
  have hwithin := refuse_eq_ok hrange
  cases digest with
  | none => exact absurd h nofun
  | some digest =>
    rw [← Except.ok.inj h]
    refine ⟨Dict.nodup_set hdigests.nodup _ _, fun key hkey => ?_, fun item hitem => ?_⟩
    · rcases Dict.mem_keys_set.mp hkey with rfl | hkey
      · omega
      · exact hdigests.range key hkey
    · rcases Dict.mem_set hitem with rfl | hitem
      · exact optionalSha256_eq_ok hdigest digest rfl
      · exact hdigests.hex item hitem

/-- The digests that are read are in range, each once. -/
theorem digests_parseDigests {applied : ℕ} {value : Value} {digests : Dict ℕ String}
    (h : parseDigests applied value = .ok digests) : Digests applied digests := by
  unfold parseDigests at h
  split at h
  · exact foldlM_ok (fun _ _ _ => digests_parseDigest) (digests_nil applied) h
  · exact absurd h nofun

/-- The versions read so far, each of a digest. -/
structure Versions (digests : Dict ℕ String) (versions : Dict ℕ DigestVersion) : Prop where
  nodup : versions.keys.Nodup
  subset : ∀ sequence ∈ versions.keys, sequence ∈ digests.keys

theorem versions_nil (digests : Dict ℕ String) : Versions digests [] where
  nodup := List.nodup_nil 
  subset := fun _ hkey => absurd hkey List.not_mem_nil

theorem versions_parseVersion {digests : Dict ℕ String} {versions other : Dict ℕ DigestVersion}
    {entry : String × Scalar} (hversions : Versions digests versions)
    (h : parseVersion digests versions entry = .ok other) : Versions digests other := by
  unfold parseVersion at h
  obtain ⟨sequence, _, h⟩ := bind_eq_ok.mp h
  obtain ⟨version, _, h⟩ := bind_eq_ok.mp h
  cases version with
  | none => exact absurd h nofun
  | some version =>
    dsimp only at h
    split at h
    · rename_i hmem
      rw [← Except.ok.inj h]
      refine ⟨Dict.nodup_set hversions.nodup _ _, fun key hkey => ?_⟩
      rcases Dict.mem_keys_set.mp hkey with rfl | hkey
      · exact hmem
      · exact hversions.subset key hkey
    · exact absurd h nofun

/-- The versions that are read are those of the digests. -/
theorem versions_parseVersions {digests : Dict ℕ String} {value : Value}
    {versions : Dict ℕ DigestVersion} (hnodup : digests.keys.Nodup)
    (h : parseVersions digests value = .ok versions) :
    versions.keys.Nodup ∧ ∀ sequence, sequence ∈ digests.keys ↔ sequence ∈ versions.keys := by
  unfold parseVersions at h
  split at h
  · rw [← Except.ok.inj h]
    have hkeys : Dict.keys (digests.map fun item => (item.1, DigestVersion.legacy)) =
        digests.keys := by
      unfold Dict.keys
      rw [List.map_map]
      rfl
    rw [hkeys]
    exact ⟨hnodup, fun _ => Iff.rfl⟩
  · obtain ⟨read, hread, h⟩ := bind_eq_ok.mp h
    obtain ⟨_, hall, h⟩ := bind_eq_ok.mp h
    have hversions : Versions digests read :=
      foldlM_ok (fun _ _ _ => versions_parseVersion) (versions_nil digests) hread
    rw [← Except.ok.inj (show (Except.ok read : Parse _) = .ok versions from h)]
    exact ⟨hversions.nodup, fun key =>
      ⟨not_not.mp (refuse_eq_ok hall) key, hversions.subset key⟩⟩
  · exact absurd h nofun

theorem isSome_eq {α β : Type} {a : Option α} {b : Option β} (h : ¬ a.isNone ≠ b.isNone) :
    b.isSome = a.isSome := by
  rw [← Option.not_isNone, ← Option.not_isNone, not_not.mp h]

theorem bound_eq {bound : Bool} {metadata : Option String}
    (hbound : ¬ (bound = true ∧ metadata.isNone = true))
    (hunbound : ¬ ((!bound) = true ∧ metadata.isSome = true)) : metadata.isSome = bound := by
  cases bound <;> cases metadata <;> simp at hbound hunbound ⊢

/-- The parts of a pending drain come together. -/
theorem whole_of_complete {sequence size : Option ℕ} {digest : Option String}
    (h : ¬ ((sequence.isSome = true ∨ digest.isSome = true ∨ size.isSome = true) ∧
      (sequence.isNone = true ∨ digest.isNone = true ∨ size.isNone = true ∨
        sequence.any (· < 1) = true))) :
    digest.isSome = sequence.isSome ∧ size.isSome = sequence.isSome := by
  cases sequence <;> cases digest <;> cases size <;> simp at h ⊢

theorem past_of_any {sequence : Option ℕ} {applied : ℕ}
    (h : ¬ sequence.any (fun n => decide (n ≤ applied)) = true) :
    ∀ n, sequence = some n → applied < n := by
  rintro n rfl
  rw [Option.any_some, decide_eq_true_eq] at h
  omega

namespace CaptureSidecar

variable {s : CaptureSidecar}

/-- **What is read is consistent**, whatever the document. -/
theorem wellFormed_of_fromJson {floatOf : ℤ → Option ℚ} {document : Document}
    (h : fromJson floatOf document = .ok s) : WellFormed s := by
  unfold fromJson at h
  obtain ⟨applied, _, h⟩ := bind_eq_ok.mp h
  obtain ⟨turnSequence, _, h⟩ := bind_eq_ok.mp h
  obtain ⟨lossy, _, h⟩ := bind_eq_ok.mp h
  obtain ⟨finalized, _, h⟩ := bind_eq_ok.mp h
  obtain ⟨isSealed, _, h⟩ := bind_eq_ok.mp h
  obtain ⟨expired, _, h⟩ := bind_eq_ok.mp h
  obtain ⟨bound, _, h⟩ := bind_eq_ok.mp h
  obtain ⟨metadata, hmetadata, h⟩ := bind_eq_ok.mp h
  obtain ⟨correlation, hcorrelation, h⟩ := bind_eq_ok.mp h
  obtain ⟨project, hproject, h⟩ := bind_eq_ok.mp h
  obtain ⟨call, hcall, h⟩ := bind_eq_ok.mp h
  obtain ⟨pending, _, h⟩ := bind_eq_ok.mp h
  obtain ⟨size, _, h⟩ := bind_eq_ok.mp h
  obtain ⟨pendingDigest, hpendingDigest, h⟩ := bind_eq_ok.mp h
  obtain ⟨retry, _, h⟩ := bind_eq_ok.mp h
  obtain ⟨retryDigest, hretryDigest, h⟩ := bind_eq_ok.mp h
  obtain ⟨pendingVersion, _, h⟩ := bind_eq_ok.mp h
  obtain ⟨retryVersion, _, h⟩ := bind_eq_ok.mp h
  obtain ⟨_, hpendingWhole, h⟩ := bind_eq_ok.mp h
  obtain ⟨_, hretryWhole, h⟩ := bind_eq_ok.mp h
  obtain ⟨_, hpendingVersion, h⟩ := bind_eq_ok.mp h
  obtain ⟨_, hretryVersion, h⟩ := bind_eq_ok.mp h
  obtain ⟨_, _, h⟩ := bind_eq_ok.mp h
  obtain ⟨_, hpendingPast, h⟩ := bind_eq_ok.mp h
  obtain ⟨_, hretryPast, h⟩ := bind_eq_ok.mp h
  obtain ⟨_, hagree, h⟩ := bind_eq_ok.mp h
  obtain ⟨_, hsealed, h⟩ := bind_eq_ok.mp h
  obtain ⟨_, hexpired, h⟩ := bind_eq_ok.mp h
  obtain ⟨_, hbound, h⟩ := bind_eq_ok.mp h
  obtain ⟨_, hunbound, h⟩ := bind_eq_ok.mp h
  obtain ⟨_, hclosed, h⟩ := bind_eq_ok.mp h
  obtain ⟨digests, hdigests, h⟩ := bind_eq_ok.mp h
  obtain ⟨_, hring, h⟩ := bind_eq_ok.mp h
  obtain ⟨_, hlatest, h⟩ := bind_eq_ok.mp h
  obtain ⟨versions, hversions, h⟩ := bind_eq_ok.mp h
  obtain ⟨first, _, h⟩ := bind_eq_ok.mp h
  obtain ⟨last, _, h⟩ := bind_eq_ok.mp h
  obtain ⟨_, hspan, h⟩ := bind_eq_ok.mp h
  obtain ⟨_, hordered, h⟩ := bind_eq_ok.mp h
  rw [← Except.ok.inj h]
  replace hpendingWhole := refuse_eq_ok hpendingWhole
  replace hagree := refuse_eq_ok hagree
  replace hclosed := refuse_eq_ok hclosed
  replace hsealed := refuse_eq_ok hsealed
  have hread := digests_parseDigests hdigests
  have hmatching := versions_parseVersions hread.nodup hversions
  exact {
    project := requiredName_eq_ok hproject
    call := requiredName_eq_ok hcall
    correlation := optionalSha256_eq_ok hcorrelation
    metadata := optionalSha256_eq_ok hmetadata
    bound := bound_eq (refuse_eq_ok hbound) (refuse_eq_ok hunbound)
    pending :=
      { wholeDigest := (whole_of_complete hpendingWhole).1
        wholeVersion := isSome_eq (refuse_eq_ok hpendingVersion)
        past := past_of_any (refuse_eq_ok hpendingPast)
        hex := optionalSha256_eq_ok hpendingDigest }
    journalSize := (whole_of_complete hpendingWhole).2
    retry :=
      { wholeDigest := isSome_eq (refuse_eq_ok hretryWhole)
        wholeVersion := isSome_eq (refuse_eq_ok hretryVersion)
        past := past_of_any (refuse_eq_ok hretryPast)
        hex := optionalSha256_eq_ok hretryDigest }
    agree := fun hsome hretry => by
      by_contra hdiffer
      exact hagree ⟨hsome, hretry, by tauto⟩
    sealed := fun hseal => by
      by_contra hopen
      exact hsealed ⟨hseal, .inl ((Bool.not_eq_true' _).mpr (Bool.eq_false_iff.mpr hopen))⟩
    expired := fun hexpire => not_or.mp (fun hclose => refuse_eq_ok hexpired ⟨hexpire, hclose⟩)
      |>.imp Bool.eq_false_iff.mpr Bool.eq_false_iff.mpr
    closed := fun hfinal => not_or.mp (fun hopen => hclosed ⟨hfinal, hopen⟩)
      |>.imp Option.not_isSome_iff_eq_none.mp Option.not_isSome_iff_eq_none.mp
    ring :=
      { nodup := hread.nodup
        versionsNodup := hmatching.1
        matching := hmatching.2
        range := hread.range
        hex := hread.hex
        bound := Nat.not_lt.mp (refuse_eq_ok hring)
        latest := fun hpos => by
          by_contra hmissing
          exact refuse_eq_ok hlatest (.inr ⟨hpos, hmissing⟩) }
    span :=
      { whole := (isSome_eq (refuse_eq_ok hspan)).symm
        ordered := fun a b ha hb => by
          subst ha hb
          exact not_lt.mp fun hlt => refuse_eq_ok hordered (by simpa using hlt) } }

end CaptureSidecar

end Earshot.Sidecars
