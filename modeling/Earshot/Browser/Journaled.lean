import Earshot.Browser.Ledger
import Mathlib.Tactic.Common
/-!
# What a recorder journals

A recorder's verbs journal exactly what they do to the lists it holds:
replaying the entries over the lists before gives the lists after. The
relation composes (`Recorder.Logs.trans`), so it is shown for each verb once
and read off for a whole drain; with it go the facts' numbers, which the
turn hands out in order.
-/

namespace Earshot

namespace Replay

variable {add add' : ℕ → ℕ → ℕ} {t t' u : Replay} {entries entries' : List JournalEntry}

/-- Every entry, a finalize entry changing nothing. -/
def applyEach (add : ℕ → ℕ → ℕ) (t : Replay) : List JournalEntry → Option Replay
  | [] => some t
  | entry :: entries => (t.applyWith add entry).bind fun t => t.applyEach add entries

theorem applyEach_append :
    t.applyEach add (entries ++ entries') =
      (t.applyEach add entries).bind fun u => u.applyEach add entries' := by
  induction entries generalizing t with
  | nil => rfl
  | cons entry entries ih =>
      simp only [List.cons_append, applyEach, Option.bind_assoc]
      congr 1
      funext u
      exact ih

theorem applyEach_trans (h : t.applyEach add entries = some u)
    (h' : u.applyEach add entries' = some t') :
    t.applyEach add (entries ++ entries') = some t' := by
  rw [applyEach_append, h, Option.bind_some, h']

theorem applyWith_supersede {c : Coverage} {index : ℕ} :
    t.applyWith add (.coverage c (some index)) =
      if index < t.coverage.length then some { t with coverage := t.coverage.set index c }
      else none := rfl

/-- **What replaying does to each list.** -/
structure Replays (t t' : Replay) (entries : List JournalEntry) : Prop where
  adapters : t'.adapters = t.adapters + entries.count .adapter
  clockDomains : t'.clockDomains = t.clockDomains + entries.count .clockDomain
  coverage : t'.coverage = entries.foldl replayCoverageEntry t.coverage
  events : t'.events = t.events ++ (factsOf entries).filter (·.kind = .event)
  qualitySamples : t'.qualitySamples = t.qualitySamples ++ (factsOf entries).filter (·.kind ≠ .event)
  omissions : t'.omissions = t.omissions ++ (factsOf entries).flatMap (·.omissions)
  limits : (∀ e, .limit e ∉ entries) → t'.limits = t.limits

theorem replays_entry {entry : JournalEntry} (h : t.applyWith add entry = some t') :
    Replays t t' [entry] := by
  cases entry with
  | coverage c replacesIndex =>
      cases replacesIndex with
      | none =>
          cases h
          constructor <;> simp [replayCoverageEntry, factsOf]
      | some index =>
          rw [applyWith_supersede] at h
          split at h
          · next hindex =>
            cases h
            constructor <;> simp [replayCoverageEntry, factsOf, hindex]
          · cases h
  | fact f =>
      cases h
      by_cases hkind : f.kind = .event <;>
        constructor <;> simp [replayCoverageEntry, factsOf, hkind]
  | limit e =>
      cases h
      constructor <;> simp [replayCoverageEntry, factsOf]
  | opened | adapter | clockDomain | finalize totals =>
      cases h
      constructor <;> simp [replayCoverageEntry, factsOf]

theorem factsOf_append (entries entries' : List JournalEntry) :
    factsOf (entries ++ entries') = factsOf entries ++ factsOf entries' :=
  List.filterMap_append

theorem Replays.trans (h : Replays t u entries) (h' : Replays u t' entries') :
    Replays t t' (entries ++ entries') where
  adapters := by rw [h'.adapters, h.adapters, List.count_append, Nat.add_assoc]
  clockDomains := by rw [h'.clockDomains, h.clockDomains, List.count_append, Nat.add_assoc]
  coverage := by rw [h'.coverage, h.coverage, List.foldl_append]
  events := by rw [h'.events, h.events, factsOf_append, List.filter_append, List.append_assoc]
  qualitySamples := by
    rw [h'.qualitySamples, h.qualitySamples, factsOf_append, List.filter_append,
      List.append_assoc]
  omissions := by
    rw [h'.omissions, h.omissions, factsOf_append, List.flatMap_append, List.append_assoc]
  limits := by
    intro hlimit
    rw [h'.limits fun e he => hlimit e (List.mem_append_right _ he),
      h.limits fun e he => hlimit e (List.mem_append_left _ he)]

theorem replays_of_applyEach (h : t.applyEach add entries = some t') :
    Replays t t' entries := by
  induction entries generalizing t with
  | nil =>
      cases h
      constructor <;> simp [factsOf]
  | cons entry entries ih =>
      obtain ⟨u, hentry, hrest⟩ := Option.bind_eq_some_iff.mp h
      exact (replays_entry hentry).trans (ih hrest)

/-- Whether replaying succeeds is a matter of the coverage alone. -/
theorem applyEach_of_coverage (hcov : u.coverage = t.coverage)
    (h : t.applyEach add entries = some t') : ∃ u', u.applyEach add' entries = some u' := by
  induction entries generalizing t u with
  | nil => exact ⟨u, rfl⟩
  | cons entry entries ih =>
      obtain ⟨t₁, hentry, hrest⟩ := Option.bind_eq_some_iff.mp h
      have hstep : ∃ u₁, u.applyWith add' entry = some u₁ := by
        cases entry with
        | coverage c replacesIndex =>
            cases replacesIndex with
            | none => exact ⟨_, rfl⟩
            | some index =>
                rw [applyWith_supersede] at hentry ⊢
                rw [hcov]
                split at hentry
                · next hindex => exact ⟨_, if_pos hindex⟩
                · cases hentry
        | opened | adapter | clockDomain | fact f | limit e | finalize totals => exact ⟨_, rfl⟩
      obtain ⟨u₁, hu₁⟩ := hstep
      have hcov₁ : u₁.coverage = t₁.coverage := by
        rw [(replays_entry hu₁).coverage, (replays_entry hentry).coverage, hcov]
      obtain ⟨u', hu'⟩ := ih hcov₁ hrest
      refine ⟨u', ?_⟩
      unfold applyEach
      rw [hu₁, Option.bind_some, hu']

/-- What follows a finalize entry is not replayed. -/
theorem applyAll_append_finalize {totals : JournalFinalize} (h : finalizeOf entries = none) :
    t.applyAll (entries ++ .finalize totals :: entries') = t.applyEach (· + ·) entries := by
  induction entries generalizing t with
  | nil => rfl
  | cons entry entries ih =>
      cases entry with
      | finalize totals => cases h
      | opened | adapter | clockDomain | coverage c i | fact f | limit e =>
          unfold applyEach
          simp only [List.cons_append, applyAll, apply]
          congr 1
          funext u
          exact ih h

end Replay

theorem finalizeOf_append_of_none {entries entries' : List JournalEntry}
    (h : finalizeOf entries = none) : finalizeOf (entries ++ entries') = finalizeOf entries' := by
  induction entries with
  | nil => rfl
  | cons entry entries ih =>
      cases entry with
      | finalize totals => cases h
      | opened | adapter | clockDomain | coverage c i | fact f | limit e => exact ih h

/-- No finalize entry, no header, and nothing of the call's own opening. -/
def JournalEntry.Recorded : JournalEntry → Prop
  | .coverage _ _ | .fact _ | .limit _ => True
  | .opened | .adapter | .clockDomain | .finalize _ => False

theorem finalizeOf_of_recorded {entries : List JournalEntry} (h : ∀ e ∈ entries, e.Recorded) :
    finalizeOf entries = none := by
  induction entries with
  | nil => rfl
  | cons entry entries ih =>
      have hrest := ih fun e he => h e (List.mem_cons_of_mem _ he)
      cases entry with
      | finalize totals => exact (h _ List.mem_cons_self).elim
      | opened | adapter | clockDomain | coverage c i | fact f | limit e => exact hrest

/-! ## The recorder -/

namespace Recorder

/-- The lists a recorder holds, as the assembler has them. -/
def held (r : Recorder) : Replay where
  adapters := r.adapters
  clockDomains := r.clockDomains
  coverage := r.coverage
  events := r.events
  qualitySamples := r.qualitySamples
  omissions := r.omissions
  limits := r.limits

/-- The recorder journaled the entries, and its lists are what they say. -/
structure Logs (r r' : Recorder) (entries : List JournalEntry) : Prop where
  newEntries : r'.newEntries = r.newEntries ++ entries
  closed : r'.closed = r.closed
  recorded : ∀ e ∈ entries, e.Recorded
  held : r.held.applyEach saturatingAdd entries = some r'.held

variable {R : RecorderConfig} {r r' r'' : Recorder} {entries entries' : List JournalEntry}

theorem Logs.refl (r : Recorder) : Logs r r [] :=
  ⟨(List.append_nil _).symm, rfl, by simp, rfl⟩

theorem Logs.trans (h : Logs r r' entries) (h' : Logs r' r'' entries') :
    Logs r r'' (entries ++ entries') where
  newEntries := by rw [h'.newEntries, h.newEntries, List.append_assoc]
  closed := h'.closed.trans h.closed
  recorded := by
    intro e he
    exact (List.mem_append.mp he).elim (h.recorded e) (h'.recorded e)
  held := Replay.applyEach_trans h.held h'.held

/-- One entry. -/
theorem Logs.of_entry {entry : JournalEntry} (hnew : r'.newEntries = r.newEntries ++ [entry])
    (hclosed : r'.closed = r.closed) (hentry : entry.Recorded)
    (hheld : r.held.applyWith saturatingAdd entry = some r'.held) : Logs r r' [entry] where
  newEntries := hnew
  closed := hclosed
  recorded := by
    intro e he
    rw [List.mem_singleton.mp he]
    exact hentry
  held := by
    show (r.held.applyWith saturatingAdd entry).bind some = some r'.held
    rw [hheld]
    rfl

theorem logs_noteOmission (e : LimitEntry) : Logs r (r.noteOmission e) [.limit e] :=
  .of_entry rfl rfl trivial rfl

/-- A record is refused with its omission journaled, or its room taken. -/
theorem tryAdmit_cases (R : RecorderConfig) (r : Recorder) (kind : RecordKind) (estimated : ℕ) :
    (∃ e r', r.tryAdmit R kind estimated = (false, r') ∧ Logs r r' [.limit e]) ∨
      ∃ r', r.tryAdmit R kind estimated = (true, r') ∧ r'.held = r.held ∧
        r'.newEntries = r.newEntries ∧ r'.closed = r.closed := by
  unfold tryAdmit
  split
  · exact .inl ⟨_, _, rfl, logs_noteOmission _⟩
  · split
    · exact .inl ⟨_, _, rfl, logs_noteOmission _⟩
    · split
      · exact .inl ⟨_, _, rfl, logs_noteOmission _⟩
      · exact .inr ⟨_, rfl, rfl, rfl, rfl⟩

theorem exists_logs_supersede {index : ℕ} {existing c : Coverage}
    (h : index < r.coverage.length) :
    ∃ entries, Logs r (r.supersede R index existing c) entries ∧ factsOf entries = [] := by
  unfold supersede
  dsimp only
  split
  · exact ⟨_, logs_noteOmission _, rfl⟩
  · split
    · exact ⟨_, logs_noteOmission _, rfl⟩
    · refine ⟨[.coverage c (some index)], .of_entry rfl rfl trivial ?_, rfl⟩
      exact if_pos h

theorem exists_logs_appendCoverage {c : Coverage} :
    ∃ entries, Logs r (r.appendCoverage R c) entries ∧ factsOf entries = [] := by
  unfold appendCoverage
  obtain ⟨e, r', h, hlogs⟩ | ⟨r', h, hheld, hnew, hclosed⟩ :=
    tryAdmit_cases R r .coverage (R.coverageSize c)
  · rw [h]
    exact ⟨_, hlogs, rfl⟩
  · rw [h]
    refine ⟨[.coverage c none], .of_entry (by simp [push, hnew]) hclosed trivial ?_, rfl⟩
    rw [← hheld]
    rfl

/-- Coverage journals no fact. -/
theorem exists_logs_recordCoverage (note : Coverage) :
    ∃ entries, Logs r (r.recordCoverage R note) entries ∧ factsOf entries = [] := by
  unfold recordCoverage
  dsimp only
  split
  · exact exists_logs_appendCoverage
  · split
    · exact ⟨_, .refl r, rfl⟩
    · next index _ existing hexisting =>
      split
      · exact ⟨_, .refl r, rfl⟩
      · split
        · exact exists_logs_supersede (List.getElem?_eq_some_iff.mp hexisting).1
        · exact ⟨_, .refl r, rfl⟩

theorem exists_logs_recordFact (f : Fact) :
    ∃ entries, Logs r (r.recordFact R f) entries ∧ (factsOf entries = [] ∨ factsOf entries = [f]) := by
  unfold recordFact
  obtain ⟨e, r', h, hlogs⟩ | ⟨r', h, hheld, hnew, hclosed⟩ :=
    tryAdmit_cases R r (.fact f.kind) (R.factSize f.toFactDraft)
  · rw [h]
    exact ⟨_, hlogs, .inl rfl⟩
  · rw [h]
    refine ⟨[.fact f], .of_entry (by simp [push, hnew]) hclosed trivial ?_, .inr rfl⟩
    rw [← hheld]
    rfl

end Recorder

/-! ## The turn -/

namespace Turn

/-- What a turn recorded: the entries, and the numbers its facts were given. -/
structure Logs (t t' : Turn) (entries : List JournalEntry) : Prop where
  recorder : t.recorder.Logs t'.recorder entries
  le : t.sequence ≤ t'.sequence
  ordered : (factsOf entries).Pairwise (·.sequence < ·.sequence)
  within : ∀ f ∈ factsOf entries, t.sequence < f.sequence ∧ f.sequence ≤ t'.sequence

variable {R : RecorderConfig} {t t' t'' : Turn} {entries entries' : List JournalEntry}

/-- Entries without facts leave the counter. -/
theorem Logs.of_recorder {r : Recorder} (h : t.recorder.Logs r entries)
    (hfacts : factsOf entries = []) : Logs t { t with recorder := r } entries where
  recorder := h
  le := Nat.le_refl _
  ordered := by simp [hfacts]
  within := by simp [hfacts]

theorem Logs.refl (t : Turn) : Logs t t [] := .of_recorder (.refl _) rfl

theorem Logs.trans (h : Logs t t' entries) (h' : Logs t' t'' entries') :
    Logs t t'' (entries ++ entries') where
  recorder := h.recorder.trans h'.recorder
  le := h.le.trans h'.le
  ordered := by
    rw [Replay.factsOf_append, List.pairwise_append]
    refine ⟨h.ordered, h'.ordered, fun f hf g hg => ?_⟩
    have hle := (h.within f hf).2
    have hlt := (h'.within g hg).1
    omega
  within := by
    intro f hf
    rw [Replay.factsOf_append, List.mem_append] at hf
    have hle := h.le
    have hle' := h'.le
    rcases hf with hf | hf
    · have := h.within f hf
      omega
    · have := h'.within f hf
      omega

theorem exists_logs_record (t : Turn) (op : RecorderOp) :
    ∃ entries, Logs t (t.record R op).2 entries := by
  cases op with
  | coverage note =>
      obtain ⟨entries, hlogs, hfacts⟩ := Recorder.exists_logs_recordCoverage (R := R) note
      exact ⟨entries, .of_recorder hlogs hfacts⟩
  | fact draft =>
      simp only [record]
      split
      · obtain ⟨entries, hlogs, hfacts⟩ :=
          Recorder.exists_logs_recordFact (R := R) (r := t.recorder) ⟨draft, t.sequence + 1⟩
        refine ⟨entries, hlogs, Nat.le_succ _, ?_, ?_⟩
        · rcases hfacts with hfacts | hfacts <;> simp [hfacts]
        · rcases hfacts with hfacts | hfacts <;> simp [hfacts]
      · exact ⟨[], .refl t⟩

theorem exists_logs_recordAll (ops : List RecorderOp) (t : Turn) :
    ∃ entries, Logs t (t.recordAll R ops).2 entries := by
  induction ops generalizing t with
  | nil => exact ⟨[], .refl t⟩
  | cons op ops ih =>
      obtain ⟨entries, hlogs⟩ := exists_logs_record (R := R) t op
      unfold recordAll
      split
      · next t' h =>
        rw [h] at hlogs
        exact ⟨entries, hlogs⟩
      · next t' h =>
        rw [h] at hlogs
        obtain ⟨entries', hlogs'⟩ := ih t'
        exact ⟨entries ++ entries', hlogs.trans hlogs'⟩

end Turn

end Earshot
