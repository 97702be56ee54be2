import Earshot.Sidecars.Registry
/-!
# What is written can be read

A sidecar is written from a call's state or from a sidecar that was read. What
is read is consistent. A call's sequencing state is consistent whenever it is
kept: an append that failed leaves the versions of its digests without the
digests, but the call is let go before anything is written of it. So every
sidecar that is written is consistent, and is read back as it was written
(`written_read_back`).
-/

namespace Earshot.Sidecars

open Crash Crash.Prog

/-! ## Dictionaries -/

namespace Dict

variable {κ ν : Type} [DecidableEq κ]

theorem mem_keys_pop {dict : Dict κ ν} {key other : κ} :
    other ∈ (dict.pop key).keys ↔ other ∈ dict.keys ∧ other ≠ key := by
  rw [mem_keys, mem_keys]
  simp only [pop, List.mem_filter, decide_eq_true_eq]
  constructor
  · rintro ⟨value, hmem, hne⟩
    exact ⟨⟨value, hmem⟩, hne⟩
  · rintro ⟨⟨value, hmem⟩, hne⟩
    exact ⟨value, hmem, hne⟩

theorem nodup_pop {dict : Dict κ ν} (h : dict.keys.Nodup) (key : κ) : (dict.pop key).keys.Nodup :=
  h.sublist (List.filter_sublist.map _)

theorem sorted_perm {ν : Type} (dict : Dict ℕ ν) : dict.sorted.Perm dict :=
  List.perm_insertionSort _ _

end Dict

/-! ## The ring -/

/-- **What is left of a ring**: its last items, no more than fit, and their
versions. -/
theorem evict_spec (digests : Dict ℕ String) (versions : Dict ℕ DigestVersion)
    (hnodup : digests.keys.Nodup) (hversions : versions.keys.Nodup)
    (hmatching : ∀ n, n ∈ digests.keys ↔ n ∈ versions.keys) :
    (∃ dropped, digests = dropped ++ (evict digests versions).1) ∧
      (digests ≠ [] → (evict digests versions).1 ≠ []) ∧
      (evict digests versions).1.length ≤ DIGEST_RING_SIZE ∧
      (evict digests versions).2.keys.Nodup ∧
      ∀ n, n ∈ (evict digests versions).1.keys ↔ n ∈ (evict digests versions).2.keys := by
  induction digests generalizing versions with
  | nil =>
    exact ⟨⟨[], rfl⟩, fun h => absurd rfl h, Nat.zero_le _, hversions, hmatching⟩
  | cons item rest ih =>
    rw [evict]
    split
    · rename_i hlong
      have hrest : Dict.keys rest = rest.map (·.1) := rfl
      have hcons : Dict.keys (item :: rest) = item.1 :: Dict.keys rest := rfl
      rw [hcons, List.nodup_cons] at hnodup
      obtain ⟨⟨dropped, hdropped⟩, hne, hlength, hnodup', hmatching'⟩ :=
        ih (versions.pop item.1) hnodup.2 (Dict.nodup_pop hversions _) fun n => by
          rw [Dict.mem_keys_pop, ← hmatching n, hcons, List.mem_cons]
          constructor
          · exact fun hn => ⟨Or.inr hn, fun heq => hnodup.1 (heq ▸ hn)⟩
          · exact fun hn => hn.1.resolve_left hn.2
      refine ⟨⟨item :: dropped, congrArg (item :: ·) hdropped⟩, fun _ => hne ?_, hlength, hnodup',
        hmatching'⟩
      rintro rfl
      exact absurd hlong (show ¬ DIGEST_RING_SIZE < 1 by decide)
    · rename_i hshort
      exact ⟨⟨[], rfl⟩, fun _ => List.cons_ne_nil _ _, not_lt.mp hshort, hversions, hmatching⟩

/-- **A digest is remembered**, of a drain past the last one applied. -/
theorem Ring.remember {applied sequence : ℕ} {digests : Dict ℕ String}
    {versions : Dict ℕ DigestVersion} (h : Ring applied digests versions)
    (hlt : applied < sequence) {digest : String} (hdigest : isSha256 digest = true)
    (version : DigestVersion) :
    Ring sequence (evict (digests.set sequence digest) (versions.set sequence version)).1
      (evict (digests.set sequence digest) (versions.set sequence version)).2 := by
  have hfresh : sequence ∉ digests.keys := fun hmem => by
    have := (h.range sequence hmem).2
    omega
  have hset : digests.set sequence digest = digests ++ [(sequence, digest)] :=
    Dict.set_fresh hfresh digest
  obtain ⟨⟨dropped, hdropped⟩, hne, hlength, hnodup, hmatching⟩ :=
    evict_spec (digests.set sequence digest) (versions.set sequence version)
      (Dict.nodup_set h.nodup _ _) (Dict.nodup_set h.versionsNodup _ _) fun n => by
        rw [Dict.mem_keys_set, Dict.mem_keys_set, h.matching]
  generalize evict (digests.set sequence digest) (versions.set sequence version) = ring at *
  have hmem : ∀ item ∈ ring.1, item ∈ digests ∨ item = (sequence, digest) := by
    intro item hitem
    have hin : item ∈ digests.set sequence digest := by
      rw [hdropped]
      exact List.mem_append_right _ hitem
    rw [hset] at hin
    exact (List.mem_append.mp hin).imp_right List.mem_singleton.mp
  refine ⟨?_, hnodup, hmatching, ?_, ?_, hlength, fun _ => ?_⟩
  · have hall := Dict.nodup_set h.nodup sequence digest
    rw [hdropped, Dict.keys_append] at hall
    exact hall.sublist (List.sublist_append_right _ _)
  · intro n hn
    obtain ⟨value, hitem⟩ := Dict.mem_keys.mp hn
    rcases hmem _ hitem with hold | heq
    · have := h.range n (Dict.mem_keys.mpr ⟨value, hold⟩)
      omega
    · obtain ⟨rfl, -⟩ := Prod.mk.inj heq
      omega
  · intro item hitem
    rcases hmem _ hitem with hold | rfl
    · exact h.hex item hold
    · exact hdigest
  · have hlast : (digests.set sequence digest).getLast? = some (sequence, digest) := by
      rw [hset, List.getLast?_concat]
    rw [hdropped, List.getLast?_append] at hlast
    cases hring : ring.1.getLast? with
    | none =>
      refine absurd (List.getLast?_eq_none_iff.mp hring) (hne ?_)
      rw [hset]
      exact List.append_ne_nil_of_right_ne_nil _ (List.cons_ne_nil _ _)
    | some item =>
      rw [hring] at hlast
      obtain rfl := Option.some.inj hlast
      exact Dict.mem_keys.mpr ⟨digest, List.mem_of_getLast? hring⟩

/-- A ring is its items, in any order. -/
theorem Ring.sorted {applied : ℕ} {digests : Dict ℕ String} {versions : Dict ℕ DigestVersion}
    (h : Ring applied digests versions) : Ring applied digests.sorted versions.sorted where
  nodup := (Dict.keys_perm digests.sorted_perm).nodup_iff.mpr h.nodup
  versionsNodup := (Dict.keys_perm versions.sorted_perm).nodup_iff.mpr h.versionsNodup
  matching n := by
    rw [(Dict.keys_perm digests.sorted_perm).mem_iff, (Dict.keys_perm versions.sorted_perm).mem_iff]
    exact h.matching n
  range n hn := h.range n ((Dict.keys_perm digests.sorted_perm).mem_iff.mp hn)
  hex item hitem := h.hex item (digests.sorted_perm.mem_iff.mp hitem)
  bound := by
    rw [digests.sorted_perm.length_eq]
    exact h.bound
  latest hpos := (Dict.keys_perm digests.sorted_perm).mem_iff.mpr (h.latest hpos)

theorem Ring.empty : Ring 0 [] [] where
  nodup := List.nodup_nil
  versionsNodup := List.nodup_nil
  matching _ := Iff.rfl
  range _ hn := absurd hn List.not_mem_nil
  hex _ hitem := absurd hitem List.not_mem_nil
  bound := Nat.zero_le _
  latest hpos := absurd hpos (Nat.lt_irrefl 0)

theorem Fence.none (applied : ℕ) : Fence applied none none none where
  wholeDigest := rfl
  wholeVersion := rfl
  past _ h := by cases h
  hex _ h := by cases h

theorem Span.none : Span none none where
  whole := rfl
  ordered _ _ h := by cases h

/-! ## Sidecars made of sidecars -/

namespace CaptureSidecar

variable {s : CaptureSidecar}

/-- The intent undone. -/
theorem wellFormed_recovered (h : WellFormed s) : WellFormed s.recovered :=
  { h with
    pending := .none _
    journalSize := rfl
    retry := h.pending
    agree := fun hpending => by cases hpending
    closed := fun hfinalized => ⟨rfl, (h.closed hfinalized).1⟩ }

/-- Nothing fenced. -/
theorem wellFormed_unfenced (h : WellFormed s) (hpending : s.pendingSequence = none) :
    WellFormed { s with retrySequence := none, retryDigest := none, retryDigestVersion := none } :=
  { h with
    retry := .none _
    agree := fun _ hretry => by cases hretry
    closed := fun _ => ⟨hpending, rfl⟩ }

/-- A call that expired. -/
theorem wellFormed_expired (h : WellFormed s) (hsealed : s.sealed = false)
    (hfinalized : s.finalized = false) : WellFormed { s with expired := true } :=
  { h with expired := fun _ => ⟨hsealed, hfinalized⟩ }

/-- A call that was sealed. -/
theorem wellFormed_sealed (h : WellFormed s) (hfinalized : s.finalized = true) :
    WellFormed { s with sealed := true, expired := false } :=
  { h with
    sealed := fun _ => hfinalized
    expired := fun hexpired => by cases hexpired }

/-- A legacy ledger given its call's metadata. -/
theorem wellFormed_migrated (C : LedgerConfig) (drain : CaptureDrain) (h : WellFormed s) :
    WellFormed (s.migrated C drain) :=
  { h with
    metadata := fun d hd => by
      obtain rfl := Option.some.inj hd
      exact C.hash_metadata _ _ _
    bound := rfl }

end CaptureSidecar

/-! ## The call -/

variable {C : LedgerConfig} {call : CaptureCall} {drain : CaptureDrain} {s : CaptureSidecar}

/-- **A call whose ledger can be written**: everything a reader asks of it. -/
structure Sequenced (call : CaptureCall) : Prop where
  project : call.projectId ≠ ""
  callKey : call.callKey ≠ ""
  correlation : ∀ k, call.correlationKeyId = some k → isSha256 k = true
  metadata : isSha256 call.callMetadataDigest = true
  ring : Ring call.applied call.digests call.digestVersions
  retry : Fence call.applied call.retrySequence call.retryDigest call.retryDigestVersion
  span : Span call.firstObservedMs call.lastObservedMs

namespace Sequenced

theorem fresh (C : LedgerConfig) (drain : CaptureDrain) (bound : Bool) :
    Sequenced (.fresh C drain bound) where
  project := C.projectId_ne
  callKey := C.callKey_ne
  correlation := C.correlationKeyId_hex
  metadata := C.hash_metadata _ _ _
  ring := .empty
  retry := .none _
  span := .none

theorem rebuild (h : WellFormed s) (maxFactSequence : ℕ) (finalized : Bool) :
    Sequenced (.rebuild C drain s maxFactSequence finalized) :=
  { fresh C drain s.callMetadataBound with
    ring := h.ring.sorted
    retry := h.retry
    span := h.span }

theorem rebuildFinalizedLedger (h : WellFormed s)
    (hcall : CaptureCall.rebuildFinalizedLedger C drain s = .ok call) : Sequenced call := by
  rw [CaptureCall.rebuildFinalizedLedger] at hcall
  split at hcall
  · cases hcall
  · rename_i hopen
    obtain rfl := Except.ok.inj hcall
    have hretry : s.retrySequence = none := by
      cases hretry : s.retrySequence with
      | none => rfl
      | some n => exact absurd (Or.inr (Or.inr (Or.inr (by rw [hretry]; rfl)))) hopen
    have hversion : s.retryDigestVersion = none := by
      have hwhole := h.retry.wholeVersion
      rw [hretry] at hwhole
      exact Option.isNone_iff_eq_none.mp (by simpa using hwhole)
    exact { fresh C drain s.callMetadataBound with
      ring := h.ring.sorted
      retry := by
        show Fence _ none none s.retryDigestVersion
        rw [hversion]
        exact .none _
      span := h.span }

theorem rebuildFenced (h : WellFormed s) (happlied : s.applied = 0) (bound : Bool) :
    Sequenced (.rebuildFenced C drain s bound) :=
  { fresh C drain bound with
    retry := by
      have hretry := h.retry
      rw [happlied] at hretry
      exact hretry }

theorem intentPending (h : Sequenced call) (pending : Bool) :
    Sequenced { call with intentPending := pending } := { h with }

theorem turnSequence (h : Sequenced call) (n : ℕ) : Sequenced { call with turnSequence := n } :=
  { h with }

/-- **One sample** widens the span. -/
theorem span_widened {first last : Option ℚ} (h : Span first last) (reading : ℚ) :
    Span (some (first.elim reading (min reading))) (some (last.elim reading (max reading))) where
  whole := rfl
  ordered a b ha hb := by
    obtain rfl := Option.some.inj ha
    obtain rfl := Option.some.inj hb
    have hfirst : first.elim reading (min reading) ≤ reading := by
      cases first with
      | none => exact le_rfl
      | some a => exact min_le_left _ _
    have hlast : reading ≤ last.elim reading (max reading) := by
      cases last with
      | none => exact le_rfl
      | some a => exact le_max_left _ _
    exact hfirst.trans hlast

/-- **A drain's samples** leave the call as it is but for its span. -/
theorem observeSamples (h : Sequenced call) (drain : CaptureDrain) :
    Sequenced (call.observeSamples drain) ∧
      (call.observeSamples drain).applied = call.applied ∧
      (call.observeSamples drain).intentPending = call.intentPending := by
  unfold CaptureCall.observeSamples
  generalize drain.snapshots ++ drain.deviceEvents = samples
  induction samples generalizing call with
  | nil => exact ⟨h, rfl, rfl⟩
  | cons sample samples ih =>
    rw [List.foldl_cons]
    cases hreading : sample.timestampMs with
    | none => exact ih h
    | some reading => exact ih { h with span := span_widened h.span reading }

theorem observed (h : Sequenced call) (drain : CaptureDrain) (decision : Decision) :
    Sequenced (call.observed drain decision) ∧
      (call.observed drain decision).applied = call.applied ∧
      (call.observed drain decision).intentPending = call.intentPending := by
  obtain ⟨hcall, hkept⟩ := h.observeSamples drain
  exact ⟨{ hcall with }, hkept⟩

/-- **A drain that is committed** leaves a call that can be written, and fences
nothing. -/
theorem settled (h : Sequenced call) (hlt : call.applied < drain.drainSequence) {digest : String}
    (hdigest : isSha256 digest = true) (version : DigestVersion) :
    Sequenced (call.settled drain digest version) :=
  { h with
    ring := h.ring.remember hlt hdigest version
    retry := .none _ }

/-- The ledger of a call is consistent, where it fences nothing or is open. -/
theorem wellFormed_ledger (h : Sequenced call)
    (hclosed : call.finalized = true → call.retrySequence = none) : WellFormed call.ledger where
  project := h.project
  call := h.callKey
  correlation := h.correlation
  metadata d hd := by
    simp only [CaptureCall.ledger] at hd
    split at hd
    · obtain rfl := Option.some.inj hd
      exact h.metadata
    · cases hd
  bound := by
    simp only [CaptureCall.ledger]
    cases call.callMetadataBound <;> rfl
  pending := .none _
  journalSize := rfl
  retry := h.retry
  agree hpending := by cases hpending
  sealed hsealed := by cases hsealed
  expired hexpired := by cases hexpired
  closed hfinalized := ⟨rfl, hclosed hfinalized⟩
  ring := h.ring
  span := h.span

theorem hex_digest (C : LedgerConfig) (call : CaptureCall) (drain : CaptureDrain) :
    isSha256 (call.digest C drain) = true := C.hash_content _

/-- What a drain that is next says of a fence: it is the drain's own. -/
theorem fence_of_classify {decision : Decision} (hdecision : call.classify C drain = .ok decision)
    (hreplay : decision ≠ .replay) : call.applied < drain.drainSequence ∧
      (call.retrySequence.isSome = true → call.retrySequence = some drain.drainSequence ∧
        call.retryDigest = some (call.digest C drain)) := by
  rw [CaptureCall.classify] at hdecision
  split at hdecision
  · cases hdecision
  · split at hdecision
    · split at hdecision
      · cases hdecision
        exact absurd rfl hreplay
      · cases hdecision
    · rename_i hnew
      split at hdecision
      · cases hdecision
      · rename_i hfence
        refine ⟨by omega, fun hretry => ?_⟩
        constructor
        · by_contra hne
          exact hfence ⟨hretry, Or.inl hne⟩
        · by_contra hne
          exact hfence ⟨hretry, Or.inr hne⟩

/-- **The intent is consistent**: it agrees with what the call fences. -/
theorem wellFormed_intent (h : Sequenced call) {decision : Decision}
    (hdecision : call.classify C drain = .ok decision) (hreplay : decision ≠ .replay)
    (hopen : call.finalized = false) (journalSize : ℕ) :
    WellFormed (call.intent C drain journalSize) := by
  obtain ⟨hlt, hfence⟩ := fence_of_classify hdecision hreplay
  have hledger := h.wellFormed_ledger fun hfinalized => by
    rw [hopen] at hfinalized
    cases hfinalized
  exact { hledger with
    pending :=
      { wholeDigest := rfl
        wholeVersion := rfl
        past := fun n hn => by
          obtain rfl := Option.some.inj hn
          exact hlt
        hex := fun d hd => by
          obtain rfl := Option.some.inj hd
          exact hex_digest C call drain }
    journalSize := rfl
    agree := fun _ hretry => by
      obtain ⟨hsequence, hdigest⟩ := hfence hretry
      refine ⟨hsequence.symm, hdigest.symm, ?_⟩
      have hversion := h.retry.wholeVersion
      rw [hsequence] at hversion
      obtain ⟨version, hsome⟩ := Option.isSome_iff_exists.mp hversion
      show some (call.digestVersionFor drain) = call.retryDigestVersion
      rw [CaptureCall.digestVersionFor, if_pos hsequence, hsome]
      rfl
    closed := fun hfinalized => by
      have hfinalized' : call.finalized = true := hfinalized
      rw [hopen] at hfinalized'
      cases hfinalized' }

end Sequenced

/-! ## What is kept of the registry -/

namespace LedgerRegistry

/-- Every sidecar that was written is consistent. -/
def Wrote (w : LedgerRegistry) : Prop := ∀ s ∈ w.written, WellFormed s

/-- The call in memory can be written. -/
structure Held (w : LedgerRegistry) : Prop where
  wrote : Wrote w
  call : ∀ call, w.call = some call → Sequenced call

/-- The call in memory can be written, unless its intent is pending: then it is
let go. -/
structure Begun (w : LedgerRegistry) : Prop where
  wrote : Wrote w
  call : ∀ call, w.call = some call → call.intentPending = true ∨ Sequenced call

/-- What does not depend on the files, and is kept where a consistent sidecar
is written. -/
structure Robust (I : LedgerRegistry → Prop) : Prop where
  files : ∀ w files, I w → I { w with files := files }
  note : ∀ w s, WellFormed s → I w → I (noteWritten s w)

theorem Wrote.note {w : LedgerRegistry} (h : Wrote w) {s : CaptureSidecar} (hs : WellFormed s) :
    Wrote (noteWritten s w) := by
  intro t ht
  rcases List.mem_append.mp ht with ht | ht
  · exact h t ht
  · rw [List.mem_singleton.mp ht]
    exact hs

theorem robust_held : Robust Held where
  files _ _ h := ⟨h.wrote, h.call⟩
  note _ _ hs h := ⟨h.wrote.note hs, h.call⟩

theorem robust_begun : Robust Begun where
  files _ _ h := ⟨h.wrote, h.call⟩
  note _ _ hs h := ⟨h.wrote.note hs, h.call⟩

theorem Held.begun {w : LedgerRegistry} (h : Held w) : Begun w :=
  ⟨h.wrote, fun call hcall => Or.inr (h.call call hcall)⟩

/-- A call that is let go leaves what was written. -/
theorem held_letGo {w : LedgerRegistry} (h : Begun w) : Held (letGo w) :=
  ⟨h.wrote, fun _ hcall => by cases hcall⟩

theorem held_setCall {w : LedgerRegistry} {call : CaptureCall} (h : Wrote w)
    (hcall : Sequenced call) : Held (setCall call w) :=
  ⟨h, fun other hother => by
    obtain rfl := Option.some.inj hother
    exact hcall⟩

theorem begun_setCall {w : LedgerRegistry} {call : CaptureCall} (h : Wrote w)
    (hcall : call.intentPending = true) : Begun (setCall call w) :=
  ⟨h, fun other hother => by
    obtain rfl := Option.some.inj hother
    exact Or.inl hcall⟩

/-! ## The file operations -/

section Files

variable {I : LedgerRegistry → Prop}

theorem keeps_touch : (touch : LedgerProg Unit).Keeps I fun _ => True :=
  Keeps.effect (fun _ _ hs => hs) fun _ hs => hs

theorem keeps_orUnavailable {α : Type} {m : LedgerProg α} {R : α → Prop} (h : m.Keeps I R) :
    (orUnavailable m).Keeps I R :=
  Leads.tryCatch h fun _ => Leads.throw _

/-- **What is read is consistent**, and reading does not fail. -/
theorem wp_readSidecar (C : LedgerConfig) {w : LedgerRegistry} (hw : I w) :
    (readSidecar C).wp (fun read w' => (∀ s, read = some s → WellFormed s) ∧ I w')
      (fun _ _ => False) I w := by
  refine wp_tryCatch (wp_bind (wp_mono (keeps_touch w hw) ?_ ?_ fun _ hk => hk))
  · rintro _ w' ⟨-, hw'⟩
    refine wp_bind (wp_get.mpr (wp_return.mpr ⟨fun s hs => ?_, hw'⟩))
    obtain ⟨document, -, hread⟩ := Option.bind_eq_some_iff.mp hs
    cases hparse : CaptureSidecar.fromJson C.floatOf document with
    | error message =>
      rw [hparse] at hread
      cases hread
    | ok t =>
      rw [hparse] at hread
      obtain rfl := Option.some.inj hread
      exact CaptureSidecar.wellFormed_of_fromJson hparse
  · exact fun _ w' hw' => wp_return.mpr ⟨(fun _ hnone => by cases hnone), hw'⟩

theorem keeps_readSidecar (C : LedgerConfig) :
    (readSidecar C).Keeps I fun read => ∀ s, read = some s → WellFormed s :=
  fun _ hw => wp_mono (wp_readSidecar C hw) (fun _ _ hq => hq) (fun _ _ he => he.elim)
    fun _ hk => hk

variable (hI : Robust I)
include hI

/-- A change of the files. -/
theorem keeps_change {f : LedgerRegistry → LedgerRegistry}
    (hf : ∀ w, ∃ files, f w = { w with files := files }) :
    (change f : LedgerProg Unit).Keeps I fun _ => True := by
  have hkept : ∀ w, I w → I (f w) := by
    intro w hw
    obtain ⟨files, hfiles⟩ := hf w
    rw [hfiles]
    exact hI.files w files hw
  refine Keeps.effect (fun n w hw => ?_) hkept
  split
  · exact hw
  · exact hkept w hw

theorem keeps_setJournal (journal : Option ℕ) :
    (change (setJournal journal) : LedgerProg Unit).Keeps I fun _ => True :=
  keeps_change hI fun _ => ⟨_, rfl⟩

theorem keeps_setSidecar (document : Option Document) :
    (change (setSidecar document) : LedgerProg Unit).Keeps I fun _ => True :=
  keeps_change hI fun _ => ⟨_, rfl⟩

theorem keeps_setTemporary (temporary : Bool) :
    (change (setTemporary temporary) : LedgerProg Unit).Keeps I fun _ => True :=
  keeps_change hI fun _ => ⟨_, rfl⟩

/-- **A consistent sidecar is written.** -/
theorem keeps_writeSidecar {s : CaptureSidecar} (hs : WellFormed s) :
    (writeSidecar s).Keeps I fun _ => True := by
  refine Leads.bind (Keeps.modify fun w hw => hI.note w s hs hw) fun _ _ => ?_
  refine Leads.tryCatch (Keeps.effect (fun n w hw => ?_) fun w hw => ?_) fun e => ?_
  · split
    · exact hw
    · split
      · exact hI.files w _ hw
      · exact hI.files _ _ (hI.files w _ hw)
  · exact hI.files _ _ (hI.files w _ hw)
  · exact Leads.bind (Keeps.suppress (keeps_setTemporary hI false)) fun _ _ => Leads.throw e

/-- What an intent that is undone leaves: a consistent sidecar without one. -/
structure Undone (s t : CaptureSidecar) : Prop where
  wellFormed : WellFormed t
  pending : t.pendingSequence = none
  finalized : t.finalized = s.finalized
  sealed : t.sealed = s.sealed

/-- **An intent is undone.** -/
theorem keeps_recoverPending {s : CaptureSidecar} (hs : WellFormed s) :
    (recoverPending s).Keeps I (Undone s) := by
  have hwrite : (writeSidecar s.recovered >>= fun _ =>
      pure s.recovered : LedgerProg CaptureSidecar).Keeps I (Undone s) :=
    Leads.bind (keeps_writeSidecar hI (CaptureSidecar.wellFormed_recovered hs)) fun _ _ =>
      Keeps.return ⟨CaptureSidecar.wellFormed_recovered hs, rfl, rfl, rfl⟩
  unfold recoverPending
  cases hpending : s.pendingSequence with
  | none => exact Keeps.return ⟨hs, hpending, rfl, rfl⟩
  | some n =>
    refine Leads.bind keeps_touch fun _ _ => Leads.bind Keeps.get fun w _ => ?_
    dsimp only
    refine Leads.ite (fun _ => Leads.throw _) fun _ => ?_
    refine Leads.ite (fun _ => Leads.ite (fun _ => ?_) fun _ => hwrite) fun _ =>
      Leads.ite (fun _ => ?_) fun _ => hwrite
    · exact Leads.bind (keeps_setJournal hI _) fun _ _ => hwrite
    · exact Leads.bind (keeps_setJournal hI _) fun _ _ => hwrite

theorem keeps_discardRejectedFirstDrain (C : LedgerConfig) (s : CaptureSidecar) :
    (discardRejectedFirstDrain C s).Keeps I fun _ => True := by
  unfold discardRejectedFirstDrain
  refine Leads.ite (fun _ => Leads.throw _) fun _ => ?_
  refine Leads.bind keeps_touch fun _ _ => Leads.bind (keeps_readSidecar C) fun held _ => ?_
  refine Leads.ite (fun _ => Leads.throw _) fun _ => ?_
  refine Leads.bind keeps_touch fun _ _ => Leads.bind Keeps.get fun w _ => ?_
  exact Leads.ite (fun _ => Leads.throw _) fun _ => keeps_setSidecar hI none

/-- **A legacy ledger is given its call's metadata.** -/
theorem keeps_migrate (C : LedgerConfig) (drain : CaptureDrain) {s : CaptureSidecar}
    (hs : WellFormed s) : (migrate C drain s).Keeps I WellFormed := by
  have hmigrated := CaptureSidecar.wellFormed_migrated C drain hs
  unfold migrate
  refine Leads.ite (fun _ => Keeps.return hs) fun _ => ?_
  exact Leads.bind (keeps_orUnavailable (keeps_writeSidecar hI hmigrated)) fun _ _ =>
    Keeps.return hmigrated

/-! ## Finding the call -/

/-- **A call is rebuilt** of a ledger that is not sealed, or there is none. -/
theorem keeps_rebuildFromJournal (C : LedgerConfig) (around : Surroundings) (drain : CaptureDrain)
    {s : CaptureSidecar} (hs : WellFormed s) : (rebuildFromJournal C around drain s).Keeps I
      fun rebuilt => ∀ call, rebuilt = some call → Sequenced call := by
  have hsome : ∀ {call : CaptureCall}, Sequenced call →
      ∀ other, some call = some other → Sequenced other := fun h _ heq => Option.some.inj heq ▸ h
  unfold rebuildFromJournal
  refine Leads.bind (keeps_orUnavailable (keeps_recoverPending hI hs)) fun t ht => ?_
  refine Leads.ite (fun hzero => Keeps.return
    (hsome (.rebuildFenced ht.wellFormed hzero.1 true))) fun _ => ?_
  cases around.journal with
  | missing =>
    refine Leads.ite (fun _ => Leads.throw _) fun hzero => ?_
    refine Leads.ite (fun _ => Keeps.return fun _ hnone => by cases hnone) fun _ => ?_
    exact Keeps.return (hsome (.rebuildFenced ht.wellFormed (by omega) _))
  | tooLarge | unreadable | corrupt => exact Leads.throw _
  | entries maxFactSequence =>
    refine Leads.ite (fun _ => Leads.throw _) fun _ => ?_
    refine Leads.ite (fun _ => Leads.throw _) fun _ => ?_
    refine Leads.bind (keeps_migrate hI C drain ht.wellFormed) fun t ht => ?_
    refine Leads.ite (fun _ => Leads.throw _) fun _ => ?_
    cases around.closeObserved with
    | none => exact Leads.throw _
    | some finalized => exact Keeps.return (hsome (.rebuild ht _ _))

/-- **A call is rebuilt of its files**, or there is none. -/
theorem keeps_rebuildCall (C : LedgerConfig) (around : Surroundings) (drain : CaptureDrain) :
    (rebuildCall C around drain).Keeps I
      fun rebuilt => ∀ call, rebuilt = some call → Sequenced call := by
  unfold rebuildCall
  refine Leads.bind (keeps_orUnavailable keeps_touch) fun _ _ => ?_
  refine Leads.bind (keeps_readSidecar C) fun held hheld => ?_
  cases held with
  | none =>
    refine Leads.bind (keeps_orUnavailable keeps_touch) fun _ _ => ?_
    refine Leads.bind (keeps_orUnavailable keeps_touch) fun _ _ => ?_
    refine Leads.bind Keeps.get fun w _ => ?_
    exact Leads.ite (fun _ => Leads.throw _) fun _ =>
      Keeps.return fun _ hnone => by cases hnone
  | some s =>
    have hs := hheld s rfl
    refine Leads.ite (fun _ => Leads.throw _) fun _ => ?_
    cases s.preflight C drain with
    | error error => exact Leads.throw _
    | ok u =>
      refine Leads.ite (fun _ => ?_) fun _ => keeps_rebuildFromJournal hI C around drain hs
      refine Leads.bind (keeps_migrate hI C drain hs) fun t ht => ?_
      cases hcall : CaptureCall.rebuildFinalizedLedger C drain t with
      | error error => exact Leads.throw _
      | ok call =>
        exact Keeps.return fun other heq => by
          obtain rfl := Option.some.inj heq
          exact .rebuildFinalizedLedger ht hcall

end Files

/-- **The call a drain is given can be written.** -/
theorem keeps_callFor (C : LedgerConfig) (around : Surroundings) (drain : CaptureDrain) :
    (callFor C around drain).Keeps Held Sequenced := by
  unfold callFor
  refine Leads.bind Keeps.get fun w hw => ?_
  cases hkept : kept around w with
  | some call =>
    exact Keeps.return (hw.call call (Option.filter_eq_some_iff.mp hkept).1)
  | none =>
    refine Leads.bind (Keeps.modify fun w hw => held_letGo hw.begun) fun _ _ => ?_
    refine Leads.bind (keeps_rebuildCall robust_held C around drain) fun rebuilt hrebuilt => ?_
    cases rebuilt with
    | some call =>
      have hcall := hrebuilt call rfl
      exact Leads.bind (Keeps.modify fun w hw => held_setCall hw.wrote hcall) fun _ _ =>
        Keeps.return hcall
    | none =>
      refine Leads.ite (fun _ => Leads.throw _) fun _ => ?_
      exact Leads.bind (Keeps.modify fun w hw => held_setCall hw.wrote (.fresh C drain true))
        fun _ _ => Keeps.return (.fresh C drain true)

/-! ## Processing a drain -/

variable {C : LedgerConfig} {around : Surroundings} {drain : CaptureDrain} {call : CaptureCall}

/-- **The append is committed** by a ledger that is consistent. -/
theorem leads_acceptRecords {settled : CaptureCall} (hsettled : Sequenced settled)
    (hledger : WellFormed settled.ledger) :
    (acceptRecords around settled).Leads Begun fun _ => Held := by
  have hI := robust_begun
  unfold acceptRecords
  cases around.refusal with
  | some error => exact Leads.throw _
  | none =>
    refine Leads.bind Keeps.get fun w _ => ?_
    refine Leads.bind (Leads.tryCatch (Keeps.effect (fun n w hw => hI.files w _ hw)
      fun w hw => hI.files w _ hw) fun e => ?_) fun _ _ => ?_
    · exact Leads.bind (Keeps.suppress (keeps_setJournal hI _)) fun _ _ => Leads.throw e
    · refine Leads.bind (keeps_writeSidecar hI hledger) fun _ _ w hw => ?_
      exact wp_modify.mpr (held_setCall hw.wrote (hsettled.intentPending false))

/-- **The intent is persisted**, and the call marked. -/
theorem keeps_persistIntent (hintent : ∀ size, WellFormed (call.intent C drain size)) :
    (persistIntent C drain call).Keeps Begun fun _ => True := by
  unfold persistIntent
  refine Leads.bind keeps_touch fun _ _ => Leads.bind Keeps.get fun w _ => ?_
  refine Leads.bind (keeps_orUnavailable (keeps_writeSidecar robust_begun (hintent _)))
    fun _ _ => ?_
  exact Keeps.modify fun w hw => begun_setCall hw.wrote rfl

/-- **A drain that is next** leaves a call that can be written, or one whose
intent is pending. -/
theorem leads_applyDrain (hcall : Sequenced call) {decision : Decision}
    (hdecision : call.classify C drain = .ok decision) (hreplay : decision ≠ .replay)
    (hopen : call.finalized = false) :
    (applyDrain C around drain call decision).Leads Begun fun _ => Held := by
  obtain ⟨hrecorded, happlied, hpending⟩ :=
    (hcall.intentPending true).observed drain decision
  have hlt : (({ call with intentPending := true } : CaptureCall).observed drain
      decision).applied < drain.drainSequence := by
    rw [happlied]
    exact (Sequenced.fence_of_classify hdecision hreplay).1
  have hsettled := (hrecorded.turnSequence around.turnSequence).settled hlt
    (Sequenced.hex_digest C call drain) (call.digestVersionFor drain)
  unfold applyDrain
  refine Leads.bind (keeps_persistIntent fun size =>
    hcall.wellFormed_intent hdecision hreplay hopen size) fun _ _ => ?_
  dsimp only
  refine Leads.bind (Keeps.modify fun w hw => begun_setCall hw.wrote hpending) fun _ _ => ?_
  refine Leads.ite (fun _ => Leads.throw _) fun _ => ?_
  refine Leads.bind (Keeps.modify fun w hw => begun_setCall hw.wrote hpending) fun _ _ => ?_
  refine Leads.tryCatch (leads_acceptRecords hsettled
    (hsettled.wellFormed_ledger fun _ => rfl)) fun e => Leads.ite (fun _ => ?_) fun _ =>
      Leads.throw _
  exact Leads.bind (Keeps.modify fun w hw => begun_setCall hw.wrote hpending) fun _ _ =>
    Leads.throw _

/-- A drain's pending append is undone. -/
theorem keeps_releasePending {I : LedgerRegistry → Prop} (hI : Robust I) (C : LedgerConfig)
    (error : CaptureError) {held : Option CaptureSidecar}
    (hheld : ∀ s, held = some s → WellFormed s) :
    (releasePending C error held).Keeps I fun _ => True := by
  unfold releasePending
  cases hpending : held.filter (·.pendingSequence.isSome) with
  | none => exact Keeps.return trivial
  | some s =>
    have hs := hheld s (Option.filter_eq_some_iff.mp hpending).1
    refine Leads.bind (keeps_recoverPending hI hs) fun t ht => ?_
    refine Leads.ite (fun _ => Leads.ite (fun _ => ?_) fun _ => ?_) fun _ => Keeps.return trivial
    · exact keeps_discardRejectedFirstDrain hI C t
    · exact keeps_writeSidecar hI (CaptureSidecar.wellFormed_unfenced ht.wellFormed ht.pending)

/-- **A drain that failed** leaves a call that can be written, or none. -/
theorem wp_recoverFailed (error : CaptureError) {w : LedgerRegistry} (hw : Begun w) :
    (recoverFailed C drain error).wp (fun _ => Held) (fun _ => Held) Begun w := by
  unfold recoverFailed
  refine wp_bind (wp_mono (wp_readSidecar C hw) ?_ (fun _ _ he => he.elim) fun _ hk => hk)
  rintro held w' ⟨hheld, hw'⟩
  refine wp_bind (wp_get.mpr ?_)
  cases hcall : w'.call with
  | none =>
    refine wp_throw.mpr ⟨hw'.wrote, fun other hother => ?_⟩
    rw [hcall] at hother
    cases hother
  | some call =>
    dsimp only
    split
    · refine wp_bind (wp_withCleanup (wp_mono (Leads.tryCatch
        (keeps_releasePending robust_begun C error hheld) (fun _ => Leads.throw _) w' hw')
        (fun _ w hkept => wp_throw.mpr (held_letGo hkept.2)) (fun _ w hkept => held_letGo hkept)
        fun _ hk => hk))
    · rename_i hopen
      refine wp_throw.mpr ⟨hw'.wrote, fun other hother => ?_⟩
      obtain rfl := Option.some.inj (hcall.symm.trans hother)
      exact (hw'.call call hcall).resolve_left fun hpending => hopen (Or.inl hpending)

/-- **A drain leaves a call that can be written**, or none; where it is cut off
the call is lost. -/
theorem wp_drainSerialized {w : LedgerRegistry} (hw : Held w) :
    (drainSerialized C around drain).wp (fun _ => Held) (fun _ => Held) Begun w := by
  unfold drainSerialized
  refine wp_bind (wp_mono (keeps_callFor C around drain w hw) ?_ (fun _ _ he => he)
    fun _ hk => hk.begun)
  rintro call w' ⟨hcall, hw'⟩
  refine wp_tryCatch ?_
  have hfailed : ∀ error w, Begun w →
      (recoverFailed C drain error).wp (fun _ => Held) (fun _ => Held) Begun w :=
    fun error w hw => wp_recoverFailed error hw
  unfold processDrain
  cases hdecision : call.classify C drain with
  | error error => exact wp_throw.mpr (hfailed error w' hw'.begun)
  | ok decision =>
    have happly : decision ≠ .replay →
        (if call.finalized = true then throw .closed else applyDrain C around drain call decision :
          LedgerProg Unit).wp (fun _ => Held)
          (fun error w => (recoverFailed C drain error).wp (fun _ => Held) (fun _ => Held) Begun w)
          Begun w' := by
      intro hreplay
      split
      · exact wp_throw.mpr (hfailed _ w' hw'.begun)
      · rename_i hopen
        exact wp_mono (leads_applyDrain hcall hdecision hreplay (Bool.eq_false_iff.mpr hopen) w'
          hw'.begun) (fun _ _ hq => hq) (fun error w he => hfailed error w he) fun _ hk => hk
    cases decision with
    | replay => exact wp_return.mpr hw'
    | apply | applyGap => exact happly (by simp)

/-! ## Other requests -/

theorem keeps_rebuildFromDisk (C : LedgerConfig) (around : Surroundings) :
    (rebuildFromDisk C around).Keeps Held fun _ => True := by
  have hI := robust_held
  unfold rebuildFromDisk
  refine Leads.bind (keeps_readSidecar C) fun held hheld => ?_
  cases held with
  | none => exact Keeps.return trivial
  | some s =>
    refine Leads.ite (fun _ => Keeps.return trivial) fun _ => ?_
    refine Leads.ite (fun _ => Keeps.suppress (keeps_setJournal hI none)) fun _ => ?_
    refine Leads.ite (fun _ => Keeps.return trivial) fun _ => ?_
    refine Leads.bind (R := fun _ => True) (Leads.tryCatch (Leads.bind
      (keeps_recoverPending hI (hheld s rfl)) fun t _ => Keeps.return trivial)
      fun _ => Keeps.return trivial) fun recovered _ => ?_
    cases recovered with
    | none => exact Keeps.return trivial
    | some t =>
      exact Leads.ite (fun _ => Keeps.suppress (keeps_setSidecar hI none)) fun _ =>
        Keeps.return trivial

theorem keeps_expireSession (C : LedgerConfig) (around : Surroundings) :
    (expireSession C around).Keeps Held fun _ => True := by
  have hI := robust_held
  unfold expireSession
  refine Leads.ite (fun _ => ?_) fun _ => Keeps.return trivial
  refine Leads.bind keeps_touch fun _ _ => Leads.bind (keeps_readSidecar C) fun held hheld => ?_
  cases held with
  | none => exact Leads.throw _
  | some s =>
    refine Leads.ite (fun _ => Leads.throw _) fun hopen => ?_
    refine Leads.bind (keeps_recoverPending hI (hheld s rfl)) fun t ht => ?_
    refine Leads.ite (fun _ => ?_) fun _ => Keeps.return trivial
    refine keeps_writeSidecar hI (CaptureSidecar.wellFormed_expired ht.wellFormed ?_ ?_)
    · rw [ht.sealed]
      exact Bool.eq_false_iff.mpr fun hsealed => hopen (by simp [hsealed])
    · rw [ht.finalized]
      exact Bool.eq_false_iff.mpr fun hfinalized => hopen (by simp [hfinalized])

theorem keeps_markSealed (C : LedgerConfig) : (markSealed C).Keeps Held fun _ => True := by
  have hI := robust_held
  unfold markSealed
  refine Leads.bind (keeps_orUnavailable keeps_touch) fun _ _ => ?_
  refine Leads.bind (keeps_readSidecar C) fun held hheld => ?_
  cases held with
  | none => exact Leads.throw _
  | some s =>
    have hrest : (orUnavailable (change (setJournal none)) >>= fun _ => modify letGo :
        LedgerProg Unit).Keeps Held fun _ => True :=
      Leads.bind (keeps_orUnavailable (keeps_setJournal hI none)) fun _ _ =>
        Keeps.modify fun w hw => held_letGo hw.begun
    refine Leads.ite (fun _ => Leads.throw _) fun hopen => ?_
    refine Leads.ite (fun _ => ?_) fun _ => hrest
    refine Leads.bind (keeps_orUnavailable (keeps_writeSidecar hI
      (CaptureSidecar.wellFormed_sealed (hheld s rfl) ?_))) fun _ _ => hrest
    by_contra hfinalized
    exact hopen (by simp [hfinalized])

theorem keeps_erase : erase.Keeps Held fun _ => True := by
  have hI := robust_held
  unfold erase
  refine Leads.bind (Keeps.modify fun w hw => held_letGo hw.begun) fun _ _ => ?_
  refine Leads.bind (Keeps.suppress (keeps_setJournal hI none)) fun _ _ => ?_
  refine Leads.bind (Keeps.suppress (keeps_setSidecar hI none)) fun _ _ => ?_
  exact Keeps.suppress (keeps_setTemporary hI false)

/-! ## Runs -/

/-- What an operation leaves, however it ends. -/
theorem held_settle {α : Type} {m : LedgerProg α} {fates : List Fate} {w : LedgerRegistry}
    (h : m.wp (fun _ => Held) (fun _ => Held) Begun w) : Held (settle (m fates w)) := by
  have hended := h fates
  generalize m fates w = ended at hended ⊢
  obtain ⟨exit, state, rest⟩ := ended
  cases exit with
  | ok a => exact hended
  | error e => exact hended
  | crash => exact held_letGo hended

theorem held_settle_of_keeps {α : Type} {m : LedgerProg α} {R : α → Prop} (h : m.Keeps Held R)
    {fates : List Fate} {w : LedgerRegistry} (hw : Held w) : Held (settle (m fates w)) :=
  held_settle (wp_mono (h w hw) (fun _ _ hq => hq.2) (fun _ _ he => he) fun _ hk => hk.begun)

/-- **One operation.** -/
theorem held_step (C : LedgerConfig) {w : LedgerRegistry} (hw : Held w) (op : LedgerOp) :
    Held (step C w op) := by
  rcases op with ⟨drain, around, fates⟩ | ⟨around, fates⟩ | ⟨around, fates⟩ | ⟨around, fates⟩ |
    fates | fates
  · exact held_settle (wp_drainSerialized hw)
  · exact held_settle_of_keeps (keeps_rebuildFromDisk C around) (held_letGo hw.begun)
  · exact held_settle_of_keeps (keeps_rebuildFromDisk C around) hw
  · exact held_settle_of_keeps (keeps_expireSession C around) hw
  · exact held_settle_of_keeps (keeps_markSealed C) hw
  · exact held_settle_of_keeps keeps_erase hw

/-- **Any run** of a registry that is opened over any files. -/
theorem held_run (C : LedgerConfig) (files : LedgerFiles) (ops : List LedgerOp) :
    Held (run C (opened files) ops) := by
  have hstart : Held (opened files) :=
    ⟨fun _ hs => absurd hs List.not_mem_nil, fun _ hcall => by cases hcall⟩
  unfold run
  generalize opened files = w at hstart
  induction ops generalizing w with
  | nil => exact hstart
  | cons op ops ih => exact ih (step C w op) (held_step C hstart op)

/-- **What is written is read back.** Every sidecar that any run writes obeys
every rule of its reader, and its document is read as that sidecar. -/
theorem written_read_back (C : LedgerConfig) (files : LedgerFiles) (ops : List LedgerOp) :
    ∀ s ∈ (run C (opened files) ops).written, WellFormed s ∧
      ∃ t, CaptureSidecar.fromJson C.floatOf (dumps s.toJson) = .ok t ∧ s.Same t := by
  intro s hs
  have hwell := (held_run C files ops).wrote s hs
  exact ⟨hwell, CaptureSidecar.fromJson_toJson C.floatOf hwell⟩

theorem isSha256_replicate {n : ℕ} (hn : n = 64) :
    isSha256 (String.ofList (List.replicate n '0')) = true := by
  rw [isSha256, String.length_ofList, String.toList_ofList, List.length_replicate, hn,
    Bool.and_eq_true, List.all_eq_true]
  refine ⟨decide_eq_true rfl, fun c hc => ?_⟩
  obtain rfl := List.eq_of_mem_replicate hc
  decide

/-- A digest. -/
def zeroDigest : String := String.ofList (List.replicate 64 '0')

theorem isSha256_zeroDigest : isSha256 zeroDigest = true := isSha256_replicate rfl

/-- A call whose every digest is the same. -/
def zeroConfig : LedgerConfig where
  hash := ⟨fun _ _ _ => zeroDigest, fun _ => zeroDigest⟩
  hash_metadata _ _ _ := isSha256_zeroDigest
  hash_content _ := isSha256_zeroDigest
  floatOf n := some n
  projectId := "project"
  projectId_ne := by decide
  callKey := "call"
  callKey_ne := by decide
  correlationKeyId := none
  correlationKeyId_hex := by
    intro key hkey
    cases hkey

/-- A call's first drain that arrives: it declares the two before it lost,
observes the call twice and ends it. -/
def endingDrain : CaptureDrain where
  traceId := none
  spanId := none
  clockUncertaintyMs := 0
  drainSequence := 3
  snapshots := [⟨some 5, "audio"⟩, ⟨some 6, "audio"⟩]
  deviceEvents := []
  coverage := []
  rejectionCoverage := []
  resync := some ⟨1, 2, "drain_failed"⟩
  ending := some ⟨END_CALL_ENDED, 7⟩

def quiet : Surroundings where
  contains := false
  journal := .missing
  legacy := .agrees
  rebuilt := true
  closeObserved := some false
  room := true
  raised := false
  turnSequence := 0
  refusal := none
  payload := 10
  preserved := true
  abandoned := false
  projectActive := true

/-- The ledger of a call that this drain ended. -/
def endedLedger : CaptureSidecar where
  projectId := "project"
  callKey := "call"
  applied := 3
  digests := [(3, zeroDigest)]
  turnSequence := 0
  firstObservedMs := some 5
  lastObservedMs := some 6
  lossy := true
  finalized := true
  correlationKeyId := none
  sealed := false
  pendingSequence := none
  pendingDigest := none
  pendingJournalSize := none
  retrySequence := none
  retryDigest := none
  digestVersions := [(3, .current)]
  pendingDigestVersion := none
  retryDigestVersion := none
  expired := false
  callMetadataBound := true
  callMetadataDigest := some zeroDigest

theorem endedLedger_written : (run zeroConfig (opened ⟨none, false, none⟩)
    [.drain endingDrain quiet []]).written[1]? = some endedLedger := by
  decide +kernel

theorem written_read_back_ended : WellFormed endedLedger ∧
    ∃ t, CaptureSidecar.fromJson zeroConfig.floatOf (dumps endedLedger.toJson) = .ok t ∧
      endedLedger.Same t :=
  written_read_back zeroConfig ⟨none, false, none⟩ [.drain endingDrain quiet []] endedLedger
    (List.mem_of_getElem? endedLedger_written)

end LedgerRegistry

end Earshot.Sidecars
