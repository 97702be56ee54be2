import Earshot.Recording.Changes
import Mathlib.Algebra.Order.Ring.Nat
/-!
# Budgets and the omission ledger

What a recorder retains is the first of what it was offered, in order; the rest
is counted, once each, in all and by kind. The counters saturate. The invariant
is `Accounts`, of a recorder against everything offered and noted so far.
-/

namespace Earshot.Recording

variable {ν β : Type} [DecidableEq ν]

/-- No records. -/
def Kept.empty : Kept ν := ⟨[], [], [], [], [], [], [], [], [], []⟩

/-! ## Accounts -/

/-- **A recorder's accounts**: of the offers so far, it retains the first and
has counted the rest. -/
def Accounts (offers : List (Offer ν)) (notes : List Note) (r : Recorder ν β) : Prop :=
  ∃ kept refused, offers = kept ++ refused ∧
    r.toKept = kept.foldl Kept.keep Kept.empty ∧
    r.truncatedRecords = min MAX_COUNTER refused.length ∧
    (∀ kind, r.omittedRecordsByKind kind =
      min MAX_COUNTER (refused.countP fun o => o.kind = kind)) ∧
    (r.admissionFrozen = true ↔ refused ≠ []) ∧
    (r.firstLimitReason.isSome = true ↔ refused ≠ [] ∨ notes ≠ [])

theorem saturatingAdd_min (n : ℕ) :
    saturatingAdd (min MAX_COUNTER n) 1 = min MAX_COUNTER (n + 1) := by
  unfold saturatingAdd
  omega

omit [DecidableEq ν] in
/-- **Each change keeps the accounts.** -/
theorem Accounts.change {C : RecorderConfig ν} {r r' : Recorder ν β}
    {log : List (Offer ν × Bool)} {notes' : List Note} (h : Change C r log notes' r')
    {offers : List (Offer ν)} {notes : List Note} (hr : Accounts offers notes r) :
    Accounts (offers ++ log.map Prod.fst) (notes ++ notes') r' := by
  induction h generalizing offers notes with
  | plain h =>
    obtain ⟨kept, refused, hoffers, hkept, htruncated, hkinds, hfrozen, hfirst⟩ := hr
    rw [List.map_nil, List.append_nil, List.append_nil]
    exact ⟨kept, refused, hoffers, h.kept.trans hkept, h.truncated.trans htruncated,
      fun kind => (congrFun h.byKind kind).trans (hkinds kind), h.frozen ▸ hfrozen,
      h.first ▸ hfirst⟩
  | @note r n hn =>
    obtain ⟨kept, refused, hoffers, hkept, htruncated, hkinds, hfrozen, hfirst⟩ := hr
    rw [List.map_nil, List.append_nil]
    refine ⟨kept, refused, hoffers, hkept, ?_, fun kind => ?_, ?_, ?_⟩
    · unfold Recorder.noteOmission
      dsimp only
      rw [if_neg (by rw [hn.1]; exact Bool.false_ne_true)]
      exact htruncated
    · unfold Recorder.noteOmission
      dsimp only
      rw [if_neg fun h => by rw [hn.1] at h; exact Bool.false_ne_true h.1]
      exact hkinds kind
    · unfold Recorder.noteOmission
      dsimp only
      rw [hn.2, Bool.or_false]
      exact hfrozen
    · refine ⟨fun _ => .inr (List.append_ne_nil_of_right_ne_nil _ (List.cons_ne_nil _ _)), fun _ => ?_⟩
      unfold Recorder.noteOmission
      cases r.firstLimitReason <;> rfl
  | @refused r n o hn =>
    obtain ⟨kept, refused, hoffers, hkept, htruncated, hkinds, hfrozen, hfirst⟩ := hr
    rw [List.append_nil]
    have hne : refused ++ [o] ≠ [] := List.append_ne_nil_of_right_ne_nil _ (List.cons_ne_nil _ _)
    refine ⟨kept, refused ++ [o], by rw [hoffers, List.append_assoc]; rfl, hkept, ?_,
      fun kind => ?_, ?_, fun _ => .inl hne, fun _ => ?_⟩
    · unfold Recorder.noteOmission
      dsimp only
      rw [if_pos hn.wholeRecord, htruncated, saturatingAdd_min, List.length_append]
      rfl
    · unfold Recorder.noteOmission
      dsimp only
      rw [List.countP_append, List.countP_cons, List.countP_nil, hkinds kind]
      by_cases hkind : o.kind = kind
      · rw [if_pos ⟨hn.wholeRecord, hkind.symm.trans hn.kind_eq.symm⟩, saturatingAdd_min,
          if_pos (decide_eq_true hkind)]
      · rw [if_neg fun h => hkind (hn.kind_eq.symm.trans h.2.symm),
          if_neg (by rw [decide_eq_true_eq]; exact hkind)]
        rfl
    · unfold Recorder.noteOmission
      dsimp only
      rw [hn.freeze, Bool.or_true]
      exact ⟨fun _ => hne, fun _ => rfl⟩
    · unfold Recorder.noteOmission
      cases r.firstLimitReason <;> rfl
  | @kept r r' o hopen h =>
    obtain ⟨kept, refused, hoffers, hkept, htruncated, hkinds, hfrozen, hfirst⟩ := hr
    have hnone : refused = [] := by
      by_contra hne
      rw [hfrozen.mpr hne] at hopen
      cases hopen
    subst hnone
    rw [List.append_nil]
    refine ⟨kept ++ [o], [], by rw [hoffers, List.append_nil, List.append_nil]; rfl, ?_,
      h.truncated.trans htruncated, fun kind => (congrFun h.byKind kind).trans (hkinds kind),
      h.frozen ▸ hfrozen, h.first ▸ hfirst⟩
    rw [h.kept, hkept, List.foldl_append]
    rfl
  | trans _ _ ih ih' =>
    have := ih' (ih hr)
    rwa [List.append_assoc, List.append_assoc, ← List.map_append] at this

omit [DecidableEq ν] in
/-- A frozen recorder retains what it has. -/
theorem Change.frozen {C : RecorderConfig ν} {r r' : Recorder ν β}
    {log : List (Offer ν × Bool)} {notes : List Note} (h : Change C r log notes r')
    (hfrozen : r.admissionFrozen = true) :
    r'.toKept = r.toKept ∧ r'.admissionFrozen = true := by
  induction h with
  | plain h => exact ⟨h.kept, h.frozen.trans hfrozen⟩
  | note _ =>
    refine ⟨rfl, ?_⟩
    unfold Recorder.noteOmission
    dsimp only
    rw [hfrozen, Bool.true_or]
  | refused _ _ =>
    refine ⟨rfl, ?_⟩
    unfold Recorder.noteOmission
    dsimp only
    rw [hfrozen, Bool.true_or]
  | kept _ hopen _ =>
    rw [hfrozen] at hopen
    cases hopen
  | trans _ _ ih ih' =>
    obtain ⟨hkept, hstill⟩ := ih hfrozen
    obtain ⟨hkept', hstill'⟩ := ih' hstill
    exact ⟨hkept'.trans hkept, hstill'⟩

omit [DecidableEq ν] in
/-- The first limit's reason stays. -/
theorem Change.first {C : RecorderConfig ν} {r r' : Recorder ν β}
    {log : List (Offer ν × Bool)} {notes : List Note} (h : Change C r log notes r')
    {reason : String} (hfirst : r.firstLimitReason = some reason) :
    r'.firstLimitReason = some reason := by
  induction h with
  | plain h => exact h.first.trans hfirst
  | note _ =>
    unfold Recorder.noteOmission
    dsimp only
    rw [hfirst]
    rfl
  | refused _ _ =>
    unfold Recorder.noteOmission
    dsimp only
    rw [hfirst]
    rfl
  | kept _ _ h => exact h.first.trans hfirst
  | trans _ _ ih ih' => exact ih' (ih hfirst)

omit [DecidableEq ν] in
/-- A recorder stays within its budgets. -/
theorem Change.within {C : RecorderConfig ν} {r r' : Recorder ν β}
    {log : List (Offer ν × Bool)} {notes : List Note} (h : Change C r log notes r')
    (hwithin : Within C r) : Within C r' := by
  induction h with
  | plain h => exact h.within hwithin
  | note | refused => exact ⟨hwithin.records, hwithin.bytes, hwithin.raw⟩
  | kept _ _ h => exact h.within hwithin
  | trans _ _ ih ih' => exact ih' (ih hwithin)

omit [DecidableEq ν] in
/-- Kinds partition what is counted. -/
theorem sum_countP_kind (refused : List (Offer ν)) :
    (RecordKind.all.map fun kind => refused.countP fun o => o.kind = kind).sum =
      refused.length := by
  induction refused with
  | nil => rfl
  | cons o refused ih =>
    rw [List.length_cons, ← ih]
    unfold RecordKind.all
    simp only [List.countP_cons, List.map_cons, List.map_nil, List.sum_cons, List.sum_nil]
    cases o.kind <;> simp only [reduceCtorEq, decide_false, decide_true, if_true,
      Bool.false_eq_true, if_false] <;> omega

/-! ## Runs -/

namespace Session

/-- Everything a run offers. -/
def offersOf (C : RecorderConfig ν) (K : CloseConfig ν β) (s : Session ν β) :
    List (Call ν) → List (Offer ν)
  | [] => []
  | call :: calls => offered C s.recorder call ++ offersOf C K (s.apply C K call).2 calls

/-- Every value a run omits by its size. -/
def notesOf (C : RecorderConfig ν) (K : CloseConfig ν β) (s : Session ν β) :
    List (Call ν) → List Note
  | [] => []
  | call :: calls => noted C s.recorder call ++ notesOf C K (s.apply C K call).2 calls

theorem run_changes (C : RecorderConfig ν) (K : CloseConfig ν β) (s : Session ν β)
    (calls : List (Call ν)) :
    Changes C s (s.offersOf C K calls) (s.notesOf C K calls) (s.run C K calls).2 := by
  induction calls generalizing s with
  | nil => exact .of_plain (plain_refl C _)
  | cons call calls ih =>
    obtain ⟨log, hlog, h⟩ := apply_changes C K s call
    obtain ⟨log', hlog', h'⟩ := ih (s.apply C K call).2
    exact ⟨log ++ log', by rw [List.map_append, hlog, hlog', offersOf], h.trans h'⟩

theorem run_append (C : RecorderConfig ν) (K : CloseConfig ν β) (s : Session ν β)
    (calls more : List (Call ν)) :
    (s.run C K (calls ++ more)).2 = ((s.run C K calls).2.run C K more).2 := by
  induction calls generalizing s with
  | nil => rfl
  | cons call calls ih => exact ih _

/-! ## Construction -/

/-- The configured adapters the constructor offers: up to the first that finds
no room. -/
def offersOfAdapters (C : RecorderConfig ν) :
    List (Prep ν (Draft ν)) → Session ν β → List (Offer ν)
  | [], _ => []
  | prep :: preps, s =>
    match s.prepare C prep with
    | (.error _, _) => []
    | (.ok draft, s) =>
      .record .adapter { draft with omissions := [] } ::
        if (s.openAdapter C draft).1 = true then offersOfAdapters C preps (s.openAdapter C draft).2
        else []

/-- The values the constructor omits by their size. -/
def notesOfAdapters (C : RecorderConfig ν) :
    List (Prep ν (Draft ν)) → Session ν β → List Note
  | [], _ => []
  | prep :: preps, s =>
    (prep.run C (!s.recorder.closed)).2 ++
      match s.prepare C prep with
      | (.error _, _) => []
      | (.ok draft, s) =>
        if (s.openAdapter C draft).1 = true then notesOfAdapters C preps (s.openAdapter C draft).2
        else []

omit [DecidableEq ν] in
theorem openAdapter_change (C : RecorderConfig ν) (s : Session ν β) (draft : Draft ν) :
    ∃ fate, Change C s.recorder [(.record .adapter { draft with omissions := [] }, fate)] []
      (s.openAdapter C draft).2.recorder := by
  have hpush : ∀ r : Recorder ν β,
      Keeps C (·.keep (.record .adapter { draft with omissions := [] })) r
        { r with toKept := r.toKept.push .adapter draft.record } := by
    intro r
    refine ⟨?_, rfl, rfl, rfl, rfl, fun h => ⟨h.records, h.bytes, h.raw⟩, List.prefix_rfl,
      List.prefix_rfl⟩
    unfold Kept.keep Kept.add
    dsimp only
    rw [List.append_nil]
  unfold openAdapter
  dsimp only
  rcases tryAdmit_cases C s .adapter .metadata draft.size 0 with
    ⟨hrefused, _, n, hn, hrecorder⟩ | ⟨hadmitted, _, hfrozen, hplain⟩
  · rw [if_neg (by rw [hrefused]; exact Bool.false_ne_true), hrecorder]
    exact ⟨false, .refused (.record .adapter { draft with omissions := [] }) hn⟩
  · rw [if_pos hadmitted]
    exact ⟨true, .kept _ hfrozen (.afterPlain hplain
      (.andPlain (hpush _) (plain_journalLocked C _ _ _ _)))⟩

omit [DecidableEq ν] in
theorem openAdapters_changes (C : RecorderConfig ν) (preps : List (Prep ν (Draft ν)))
    (s : Session ν β) :
    Changes C s (offersOfAdapters C preps s) (notesOfAdapters C preps s)
      (openAdapters C preps s).2 := by
  induction preps generalizing s with
  | nil => exact .of_plain (plain_refl C _)
  | cons prep preps ih =>
    obtain ⟨hnotes, _, _⟩ := prepare_change C s prep
    unfold offersOfAdapters notesOfAdapters openAdapters
    revert hnotes
    generalize s.prepare C prep = p
    obtain ⟨result, s'⟩ := p
    intro hnotes
    cases result with
    | error e =>
      dsimp only
      rw [List.append_nil]
      exact ⟨[], rfl, hnotes⟩
    | ok draft =>
      dsimp only
      obtain ⟨fate, hopened⟩ := openAdapter_change C s' draft
      by_cases hadmitted : (s'.openAdapter C draft).1 = true
      · rw [if_pos hadmitted, if_pos hadmitted, if_pos hadmitted]
        obtain ⟨log, hlog, hrest⟩ := ih (s'.openAdapter C draft).2
        exact ⟨_, by rw [← hlog]; rfl, (hnotes.after hopened).trans hrest⟩
      · rw [if_neg hadmitted, if_neg hadmitted, if_neg hadmitted, List.append_nil]
        exact ⟨_, rfl, hnotes.after hopened⟩

omit [DecidableEq ν] in
/-- A recorder as it is constructed. -/
theorem opened_changes (C : RecorderConfig ν) (adapters : List (Prep ν (Draft ν))) :
    Changes C (⟨.empty, []⟩ : Session ν β) (offersOfAdapters C adapters (⟨.empty, []⟩ : Session ν β))
      (notesOfAdapters C adapters (⟨.empty, []⟩ : Session ν β)) (opened C adapters).2 := by
  have h := openAdapters_changes C adapters (⟨.empty, []⟩ : Session ν β)
  unfold opened
  revert h
  generalize openAdapters C adapters (⟨.empty, []⟩ : Session ν β) = p
  obtain ⟨_ | classes, s⟩ := p
  · exact id
  · intro h
    dsimp only at h ⊢
    split
    · exact h
    · have hclasses : Plain C s.recorder
          { s.recorder with retainedClasses := s.recorder.retainedClasses ∪ classes } :=
        ⟨rfl, rfl, rfl, rfl, rfl, fun h => ⟨h.records, h.bytes, h.raw⟩, List.prefix_rfl,
          List.prefix_rfl⟩
      exact h.andPlain (hclasses.andPlain (plain_journalLocked C _ _ _ _))

/-! ## The ledger -/

variable (C : RecorderConfig ν) (K : CloseConfig ν β) (adapters : List (Prep ν (Draft ν)))
  (calls : List (Call ν))

/-- A recorder constructed with some adapters, after some calls. -/
def after : Recorder ν β := ((opened C adapters).2.run C K calls).2.recorder

/-- Everything it was offered, in order. -/
def allOffers : List (Offer ν) :=
  offersOfAdapters C adapters (⟨.empty, []⟩ : Session ν β) ++
    (opened C adapters).2.offersOf C K calls

/-- Every value it omitted by its size. -/
def allNotes : List Note :=
  notesOfAdapters C adapters (⟨.empty, []⟩ : Session ν β) ++
    (opened C adapters).2.notesOf C K calls

/-- What became of a recorder since it was empty. -/
theorem after_change :
    ∃ log, log.map Prod.fst = allOffers C K adapters calls ∧
      Change C (.empty : Recorder ν β) log (allNotes C K adapters calls)
        (after C K adapters calls) := by
  obtain ⟨log, hlog, h⟩ := opened_changes (β := β) C adapters
  obtain ⟨log', hlog', h'⟩ := run_changes C K (opened C adapters).2 calls
  exact ⟨log ++ log', by rw [List.map_append, hlog, hlog', allOffers], h.trans h'⟩

theorem after_accounts :
    Accounts (allOffers C K adapters calls) (allNotes C K adapters calls)
      (after C K adapters calls) := by
  obtain ⟨log, hlog, h⟩ := after_change C K adapters calls
  have hempty : Accounts [] [] (.empty : Recorder ν β) :=
    ⟨[], [], rfl, rfl, rfl, fun _ => rfl, ⟨by rintro ⟨⟩, fun h => absurd rfl h⟩,
      ⟨by rintro ⟨⟩, by rintro (h | h) <;> exact absurd rfl h⟩⟩
  have := hempty.change h
  rwa [List.nil_append, List.nil_append, hlog] at this

/-- **Budgets and the omission ledger are exact.** After any calls, the recorder
is within its budgets. Of everything offered, in order, it retains a first part;
the rest is counted, once each, in all and by kind, up to the counters' bound.
Admission is frozen once anything is counted, and from then on nothing more is
retained; the first limit's reason is set where something was omitted by a
limit, and stays. -/
theorem budgets_exact :
    (∃ kept refused, allOffers C K adapters calls = kept ++ refused ∧
      (after C K adapters calls).toKept = kept.foldl Kept.keep Kept.empty ∧
      (after C K adapters calls).truncatedRecords = min MAX_COUNTER refused.length ∧
      (∀ kind, (after C K adapters calls).omittedRecordsByKind kind =
        min MAX_COUNTER (refused.countP fun o => o.kind = kind)) ∧
      (refused.length ≤ MAX_COUNTER → (after C K adapters calls).truncatedRecords =
        (RecordKind.all.map (after C K adapters calls).omittedRecordsByKind).sum) ∧
      ((after C K adapters calls).admissionFrozen = true ↔ refused ≠ []) ∧
      ((after C K adapters calls).firstLimitReason.isSome = true ↔
        refused ≠ [] ∨ allNotes C K adapters calls ≠ [])) ∧
    (after C K adapters calls).capturedRecords ≤ C.maxRecords ∧
    (after C K adapters calls).capturedBytes ≤ C.maxCaptureBytes ∧
    (after C K adapters calls).rawOtlpBytes ≤ C.maxRawOtlpBytes ∧
    ∀ more : List (Call ν),
      ((after C K adapters calls).admissionFrozen = true →
        (after C K adapters (calls ++ more)).toKept = (after C K adapters calls).toKept) ∧
      ∀ reason, (after C K adapters calls).firstLimitReason = some reason →
        (after C K adapters (calls ++ more)).firstLimitReason = some reason := by
  obtain ⟨kept, refused, hoffers, hkept, htruncated, hkinds, hfrozen, hfirst⟩ :=
    after_accounts C K adapters calls
  obtain ⟨log, _, hchange⟩ := after_change C K adapters calls
  have hwithin := hchange.within ⟨Nat.zero_le _, Nat.zero_le _, Nat.zero_le _⟩
  refine ⟨⟨kept, refused, hoffers, hkept, htruncated, hkinds, fun hsmall => ?_, hfrozen, hfirst⟩,
    hwithin.records, hwithin.bytes, hwithin.raw, fun more => ?_⟩
  · have hbelow : ∀ kind, (after C K adapters calls).omittedRecordsByKind kind =
        refused.countP fun o => o.kind = kind := fun kind =>
      (hkinds kind).trans (Nat.min_eq_right (Nat.le_trans List.countP_le_length hsmall))
    rw [htruncated, Nat.min_eq_right hsmall, funext hbelow]
    exact (sum_countP_kind refused).symm
  · obtain ⟨log', _, hmore⟩ := run_changes C K ((opened C adapters).2.run C K calls).2 more
    have happend : after C K adapters (calls ++ more) =
        (((opened C adapters).2.run C K calls).2.run C K more).2.recorder := by
      unfold after
      rw [run_append]
    rw [happend]
    exact ⟨fun h => (hmore.frozen h).1, fun reason h => hmore.first h⟩

/-! ## Coverage of a signal that has some -/

/-- Room for everything. -/
def roomy : RecorderConfig Unit where
  maxRecords := 10
  maxCaptureBytes := 1000
  maxRawOtlpBytes := 1000
  maxValueBytes := 1000
  allows := fun _ => true
  clockDomainId := "process"
  journaled := false
  valueSize := fun _ => some (1, false)
  classify := fun _ => .metadata
  coverageSize := fun _ => 40
  omissionSize := fun _ => 40
  sha256 := id

/-- An artifact of nothing. -/
def closes : CloseConfig Unit Unit := ⟨fun _ _ => .ok (), fun _ _ => .ok (), fun _ => .ok (), false⟩

/-- **A note that supersedes nothing is dropped without a count.** A signal keeps
its first note until an `available` one; another that differs from it is
neither retained nor counted. -/
theorem not_kept_or_counted :
    ¬ ∀ (C : RecorderConfig Unit) (K : CloseConfig Unit Unit) (calls : List (Call Unit))
        (c : Coverage),
      (after C K [] calls).closed = false → c ∉ (after C K [] calls).coverage →
        c ∈ (after C K [] (calls ++ [.recordCoverage c])).coverage ∨
          (after C K [] (calls ++ [.recordCoverage c])).truncatedRecords =
            (after C K [] calls).truncatedRecords + 1 := by
  intro h
  rcases h roomy closes [.recordCoverage ⟨"audio", "unavailable", some "muted", none⟩]
    ⟨"audio", "partial", some "gap", some 3⟩ rfl (by decide) with hkept | hcounted
  · revert hkept
    decide
  · cases hcounted

end Session

end Earshot.Recording
