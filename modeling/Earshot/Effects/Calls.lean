import Earshot.Calls.Closer
/-!
# What a write does to the calls

One lemma for each write of the `calls` table: how it answers a lookup of
the call it is about (`…_self`) and of any other (`…_of_ne`). None of them
touches another table but the counters (`OnlyCalls`).
-/

namespace Earshot

open Relational

/-! ## Shapes -/

/-- Only calls and counters may differ. -/
structure Catalog.OnlyCalls (c c' : Catalog) : Prop where
  projects : c'.projects = c.projects
  callTraces : c'.callTraces = c.callTraces
  spans : c'.spans = c.spans
  recordings : c'.recordings = c.recordings
  callRevisions : c'.callRevisions = c.callRevisions
  otlpResources : c'.otlpResources = c.otlpResources
  callKeyGenerations : c'.callKeyGenerations = c.callKeyGenerations
  callTombstones : c'.callTombstones = c.callTombstones

namespace Catalog

theorem OnlyCalls.refl (c : Catalog) : OnlyCalls c c := ⟨rfl, rfl, rfl, rfl, rfl, rfl, rfl, rfl⟩

theorem OnlyCalls.trans {c₁ c₂ c₃ : Catalog} (h : OnlyCalls c₁ c₂) (h' : OnlyCalls c₂ c₃) :
    OnlyCalls c₁ c₃ where
  projects := h'.projects.trans h.projects
  callTraces := h'.callTraces.trans h.callTraces
  spans := h'.spans.trans h.spans
  recordings := h'.recordings.trans h.recordings
  callRevisions := h'.callRevisions.trans h.callRevisions
  otlpResources := h'.otlpResources.trans h.otlpResources
  callKeyGenerations := h'.callKeyGenerations.trans h.callKeyGenerations
  callTombstones := h'.callTombstones.trans h.callTombstones

variable {c c' : Catalog} {k k' : CallKey}

/-- Only the revisions say whether a call has a final one. -/
theorem hasFinal_congr (h : c'.callRevisions = c.callRevisions) (k : CallKey) :
    c'.hasFinal k = c.hasFinal k := by rw [hasFinal, hasFinal, h]

/-- A call has a final revision if one is stored. -/
theorem hasFinal_iff : c.hasFinal k = true ↔
    ∃ v ∈ c.callRevisions, v.callKey = k ∧ v.finality = .final := by
  simp [hasFinal, Table.mem_def]

/-! ## Updates of one call -/

theorem onlyCalls_updateCall (f : Call → Call) (hf : ∀ r, (f r).key = r.key) :
    OnlyCalls c (c.updateCall k f hf) := ⟨rfl, rfl, rfl, rfl, rfl, rfl, rfl, rfl⟩

/-- An update writes its own row. -/
theorem find?_updateCall_self (f : Call → Call) (hf : ∀ r, (f r).key = r.key) :
    (c.updateCall k f hf).calls.find? k = (c.calls.find? k).map f := by
  rw [updateCall, Table.find?_patch]
  cases h : c.calls.find? k with
  | none => rfl
  | some r => rw [Option.map_some, Option.map_some, if_pos (Table.key_of_find? h)]

/-- And no other. -/
theorem find?_updateCall_of_ne (f : Call → Call) (hf : ∀ r, (f r).key = r.key) (h : k' ≠ k) :
    (c.updateCall k f hf).calls.find? k' = c.calls.find? k' := by
  rw [updateCall, Table.find?_patch]
  cases hr : c.calls.find? k' with
  | none => rfl
  | some r =>
      have hk : r.key ≠ k := Table.key_of_find? hr ▸ h
      rw [Option.map_some, if_neg hk]

/-! ## Counters -/

theorem bumpCounter_eq (p : ProjectId) (name : OtlpCounterName) (n : ℕ) :
    ∃ t, c.bumpCounter p name n = { c with otlpCounters := t } := by
  unfold bumpCounter
  split
  · exact ⟨c.otlpCounters, rfl⟩
  · exact ⟨_, rfl⟩

@[simp] theorem calls_bumpCounter (p : ProjectId) (name : OtlpCounterName) (n : ℕ) :
    (c.bumpCounter p name n).calls = c.calls := by
  obtain ⟨t, ht⟩ := bumpCounter_eq (c := c) p name n
  rw [ht]

theorem onlyCalls_bumpCounter (p : ProjectId) (name : OtlpCounterName) (n : ℕ) :
    OnlyCalls c (c.bumpCounter p name n) := by
  obtain ⟨t, ht⟩ := bumpCounter_eq (c := c) p name n
  rw [ht]
  exact ⟨rfl, rfl, rfl, rfl, rfl, rfl, rfl, rfl⟩

/-! ## Evidence past the cap -/

end Catalog

/-- The row `note_evidence_past_cap` leaves. -/
def Call.noted (final : Bool) (r : Call) : Call :=
  if r.dirty && !r.evidenceAfterLatestRevision && !r.uncapped final then r.flag.count else r

theorem Call.count_eq_self {r : Call} (h : r.revisionCapCounted = true) : r.count = r := by
  rw [Call.count, ← h]

/-- The row `_add_evidence` leaves, the note past the cap included. -/
def Call.credited (S : CallStore) (item : Evidence) (now : UnixNano) (final : Bool) (r : Call) :
    Call :=
  if !r.countedOnly item && r.latestRevision.any (REVISION_CAP ≤ ·) then
    (r.addEvidence S item now).noted final
  else r.addEvidence S item now

namespace Catalog

variable {c c' : Catalog} {k k' : CallKey}

/-- Noting evidence past the cap writes call rows alone. -/
theorem onlyCalls_noteEvidencePastCap : OnlyCalls c (c.noteEvidencePastCap k) := by
  unfold noteEvidencePastCap
  split
  · exact .refl c
  · split
    · dsimp only
      split
      · exact onlyCalls_updateCall _ _
      · exact ((onlyCalls_updateCall _ _).trans (onlyCalls_updateCall _ _)).trans
          (onlyCalls_bumpCounter _ _ _)
    · exact .refl c

/-- A note is of the call it is made of. -/
theorem find?_noteEvidencePastCap_self :
    (c.noteEvidencePastCap k).calls.find? k = (c.calls.find? k).map (Call.noted (c.hasFinal k)) := by
  unfold noteEvidencePastCap
  cases h : c.calls.find? k with
  | none => rw [h, Option.map_none]
  | some r =>
      have huncapped : c.uncapped r = r.uncapped (c.hasFinal k) := by
        rw [uncapped, Table.key_of_find? h]
      dsimp only
      rw [huncapped, Option.map_some, Call.noted]
      split
      · split
        · rename_i hcounted
          have hflag : r.flag.revisionCapCounted = true := hcounted
          rw [find?_updateCall_self, h, Option.map_some, Call.count_eq_self hflag]
        · rw [calls_bumpCounter, find?_updateCall_self, find?_updateCall_self, h,
            Option.map_some, Option.map_some]
      · exact h

theorem find?_noteEvidencePastCap_of_ne (hne : k' ≠ k) :
    (c.noteEvidencePastCap k).calls.find? k' = c.calls.find? k' := by
  unfold noteEvidencePastCap
  split
  · rfl
  · split
    · dsimp only
      split
      · exact find?_updateCall_of_ne _ _ hne
      · rw [calls_bumpCounter, find?_updateCall_of_ne _ _ hne, find?_updateCall_of_ne _ _ hne]
    · rfl

/-! ## Evidence -/

variable {S : CallStore} {item : Evidence} {now : UnixNano}

theorem onlyCalls_addCallEvidence : OnlyCalls c (c.addCallEvidence S k item now) := by
  unfold addCallEvidence
  split
  · exact .refl c
  · dsimp only
    split
    · exact (onlyCalls_updateCall _ _).trans onlyCalls_noteEvidencePastCap
    · exact onlyCalls_updateCall _ _

/-- Evidence is credited to its own call. -/
theorem find?_addCallEvidence_self :
    (c.addCallEvidence S k item now).calls.find? k =
      (c.calls.find? k).map (Call.credited S item now (c.hasFinal k)) := by
  unfold addCallEvidence
  cases h : c.calls.find? k with
  | none => rw [h, Option.map_none]
  | some r =>
      have hself := find?_updateCall_self (c := c) (k := k) (Call.addEvidence S item now)
        (Call.addEvidence_key S item now)
      dsimp only
      rw [Option.map_some, Call.credited]
      split
      · rw [find?_noteEvidencePastCap_self, hself, h, Option.map_some, Option.map_some,
          hasFinal_congr (onlyCalls_updateCall _ _).callRevisions]
      · rw [hself, h, Option.map_some]

/-- And to no other. -/
theorem find?_addCallEvidence_of_ne (hne : k' ≠ k) :
    (c.addCallEvidence S k item now).calls.find? k' = c.calls.find? k' := by
  unfold addCallEvidence
  split
  · rfl
  · dsimp only
    split
    · rw [find?_noteEvidencePastCap_of_ne hne, find?_updateCall_of_ne _ _ hne]
    · exact find?_updateCall_of_ne _ _ hne

variable {p : ProjectId} {evidence : List (String × Evidence)}

theorem addEvidence_cons (e : String × Evidence) :
    c.addEvidence S p (e :: evidence) now =
      (c.addCallEvidence S (p, e.1) e.2 now).addEvidence S p evidence now := rfl

/-- A batch's credit writes call rows alone. -/
theorem onlyCalls_addEvidence : OnlyCalls c (c.addEvidence S p evidence now) := by
  induction evidence generalizing c with
  | nil => exact .refl c
  | cons e evidence ih => exact onlyCalls_addCallEvidence.trans ih

/-- A call the write says nothing of keeps its row. -/
theorem find?_addEvidence_of_notMem (h : ∀ e ∈ evidence, (p, e.1) ≠ k) :
    (c.addEvidence S p evidence now).calls.find? k = c.calls.find? k := by
  induction evidence generalizing c with
  | nil => rfl
  | cons e evidence ih =>
      rw [addEvidence_cons, ih fun e' he' => h e' (List.mem_cons_of_mem _ he'),
        find?_addCallEvidence_of_ne (h e List.mem_cons_self).symm]

/-- A call the write credits has its row credited, once. -/
theorem find?_addEvidence_of_mem {callId : String} (hnd : (evidence.map (·.1)).Nodup)
    (h : (callId, item) ∈ evidence) :
    (c.addEvidence S p evidence now).calls.find? (p, callId) =
      (c.calls.find? (p, callId)).map (Call.credited S item now (c.hasFinal (p, callId))) := by
  induction evidence generalizing c with
  | nil => exact absurd h List.not_mem_nil
  | cons e evidence ih =>
      rw [List.map_cons, List.nodup_cons] at hnd
      rw [addEvidence_cons]
      rcases List.mem_cons.mp h with rfl | hmem
      · rw [find?_addEvidence_of_notMem, find?_addCallEvidence_self]
        intro e' he' heq
        have hid : e'.1 = callId := congrArg Prod.snd heq
        exact hnd.1 (List.mem_map.mpr ⟨e', he', hid⟩)
      · have hne : (p, callId) ≠ (p, e.1) := by
          intro heq
          have hid : callId = e.1 := congrArg Prod.snd heq
          exact hnd.1 (List.mem_map.mpr ⟨_, hmem, hid⟩)
        rw [ih hnd.2 hmem, find?_addCallEvidence_of_ne hne,
          hasFinal_congr onlyCalls_addCallEvidence.callRevisions]

/-! ## New calls -/

/-- A call is inserted under an ID that no call has. -/
theorem insertCall_eq_some {row : Call} (h : c.insertCall row = some c') :
    (∀ r ∈ c.calls, r.callId ≠ row.callId) ∧ c' = { c with calls := c.calls.insert row } := by
  rw [insertCall] at h
  split at h
  · cases h
  · rename_i hnew
    refine ⟨fun r hr heq => hnew ?_, (Option.some.inj h).symm⟩
    exact List.any_eq_true.mpr ⟨r, hr, beq_iff_eq.mpr heq⟩

/-- A new call stands beside those there were. -/
theorem find?_insertCall {row : Call} (h : c.insertCall row = some c') :
    c'.calls.find? k = (c.calls.find? k).or (if row.key = k then some row else none) := by
  rw [(insertCall_eq_some h).2, Table.find?_insert]

theorem onlyCalls_insertCall {row : Call} (h : c.insertCall row = some c') : OnlyCalls c c' := by
  rw [(insertCall_eq_some h).2]
  exact ⟨rfl, rfl, rfl, rfl, rfl, rfl, rfl, rfl⟩

/-- A new call's ID was no call's. -/
theorem find?_eq_none_of_insertCall {row : Call} (h : c.insertCall row = some c') :
    c.calls.find? row.key = none := by
  rw [Table.find?_eq_none]
  intro r hr hk
  exact (insertCall_eq_some h).1 r hr (congrArg Prod.snd hk)

variable {targets : List CallTarget} {preset : CapturePreset} {due : Option UnixNano}

/-- Only a target that was created gets a row. -/
theorem insertCalls_cons {target : CallTarget} (h : c.insertCalls p (target :: targets) preset due =
    some c') :
    (target.created = false ∧ c.insertCalls p targets preset due = some c') ∨
    (target.created = true ∧ ∃ key c₁, target.key = some key ∧
      c.insertCall (newCall p target key preset due) = some c₁ ∧
      c₁.insertCalls p targets preset due = some c') := by
  rw [insertCalls, List.foldlM_cons, Option.bind_eq_bind, Option.bind_eq_some_iff] at h
  obtain ⟨c₁, h₁, h₂⟩ := h
  by_cases hc : target.created = true
  · rw [if_pos hc, Option.bind_eq_some_iff] at h₁
    obtain ⟨key, hkey, h₁⟩ := h₁
    exact Or.inr ⟨hc, key, c₁, hkey, h₁, h₂⟩
  · rw [if_neg hc] at h₁
    obtain rfl := Option.some.inj h₁
    exact Or.inl ⟨by simpa using hc, h₂⟩

theorem onlyCalls_insertCalls (h : c.insertCalls p targets preset due = some c') :
    OnlyCalls c c' := by
  induction targets generalizing c with
  | nil => obtain rfl := Option.some.inj h; exact .refl c
  | cons target targets ih =>
      rcases insertCalls_cons h with ⟨-, h⟩ | ⟨-, key, c₁, -, h₁, h⟩
      · exact ih h
      · exact (onlyCalls_insertCall h₁).trans (ih h)

/-- Stored calls keep their rows. -/
theorem find?_insertCalls_of_some {r : Call} (h : c.insertCalls p targets preset due = some c')
    (hr : c.calls.find? k = some r) : c'.calls.find? k = some r := by
  induction targets generalizing c with
  | nil => obtain rfl := Option.some.inj h; exact hr
  | cons target targets ih =>
      rcases insertCalls_cons h with ⟨-, h⟩ | ⟨-, key, c₁, -, h₁, h⟩
      · exact ih h hr
      · refine ih h ?_
        rw [find?_insertCall h₁, hr, Option.some_or]

/-- A new call's row is the one a created target gives it. -/
theorem find?_insertCalls_of_none {r : Call} (h : c.insertCalls p targets preset due = some c')
    (hnone : c.calls.find? k = none) (hr : c'.calls.find? k = some r) :
    ∃ target ∈ targets, target.created = true ∧ ∃ key, target.key = some key ∧
      r = newCall p target key preset due ∧ ∀ r' ∈ c.calls, r'.callId ≠ r.callId := by
  induction targets generalizing c with
  | nil =>
      obtain rfl := Option.some.inj h
      rw [hnone] at hr
      cases hr
  | cons target targets ih =>
      rcases insertCalls_cons h with ⟨-, h⟩ | ⟨hc, key, c₁, hkey, h₁, h⟩
      · obtain ⟨t, ht, hrest⟩ := ih h hnone
        exact ⟨t, List.mem_cons_of_mem _ ht, hrest⟩
      · have hfind := find?_insertCall (k := k) h₁
        rw [hnone, Option.none_or] at hfind
        split at hfind
        · rw [find?_insertCalls_of_some h hfind] at hr
          obtain rfl := Option.some.inj hr
          exact ⟨target, List.mem_cons_self, hc, key, hkey, rfl, (insertCall_eq_some h₁).1⟩
        · obtain ⟨t, ht, hct, key', hkey', hreq, hfresh⟩ := ih h hfind
          refine ⟨t, List.mem_cons_of_mem _ ht, hct, key', hkey', hreq, fun r' hr' => ?_⟩
          refine hfresh r' ?_
          rw [(insertCall_eq_some h₁).2]
          exact Table.mem_insert.mpr (Or.inl hr')

/-- A created target's call is there afterwards. -/
theorem exists_find?_insertCalls {target : CallTarget}
    (h : c.insertCalls p targets preset due = some c') (ht : target ∈ targets)
    (hc : target.created = true) : ∃ r, c'.calls.find? (p, target.callId) = some r := by
  induction targets generalizing c with
  | nil => exact absurd ht List.not_mem_nil
  | cons t targets ih =>
      rcases insertCalls_cons h with ⟨hno, h₂⟩ | ⟨-, key, c₁, -, h₁, h₂⟩
      · rcases List.mem_cons.mp ht with rfl | ht
        · rw [hno] at hc
          cases hc
        · exact ih h₂ ht
      · rcases List.mem_cons.mp ht with rfl | ht
        · change ∃ r, c'.calls.find? (newCall p target key preset due).key = some r
          have hfind := find?_insertCall (k := (newCall p target key preset due).key) h₁
          rw [find?_eq_none_of_insertCall h₁, Option.none_or, if_pos rfl] at hfind
          exact ⟨_, find?_insertCalls_of_some h₂ hfind⟩
        · exact ih h₂ ht

end Catalog

end Earshot
