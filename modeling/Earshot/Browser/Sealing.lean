import Earshot.Browser.Invariant
/-!
# Sealing an ended call

The finalize entry carries the recorder's own totals. The recorder counts
what it recorded since it was made, and a restart makes another, so the
totals are the journal's exactly when nothing the counts miss was recorded
before the last restart. What is assembled is otherwise what the accepted
drains journaled, every fact under an ID of its own.
-/

namespace Earshot

variable {Carry : Type}

namespace CallRun

variable {C : CaptureConfig Carry} {s s' : CallRun Carry} {drain : CaptureDrain}

/-- **The journal seals**, into what the accepted drains journaled. -/
structure Seals (C : CaptureConfig Carry) (s : CallRun Carry) (result : AssemblyResult) :
    Prop where
  sealed : ∃ bytes, s.journal C = some bytes ∧ C.seal bytes = .ok result
  closeObserved : result.closeObserved = true
  counterMismatch : result.counterMismatch = false
  tornTailBytes : result.tornTailBytes = 0
  distinct : ((result.state.events ++ result.state.qualitySamples).map Fact.id).Nodup
  events : result.state.events = (factsOf s.entries).filter (·.kind = .event)
  qualitySamples : result.state.qualitySamples = (factsOf s.entries).filter (·.kind ≠ .event)
  coverage : result.state.coverage = replayCoverage s.entries
  omissions : result.state.omissions = (factsOf s.entries).flatMap (·.omissions)

/-- No drain accepted before the last restart recorded a fact. -/
def FactsCurrent (s : CallRun Carry) : Prop :=
  ∀ a ∈ s.accepted, a.restarts < s.restarts → factsOf a.entries = []

/-! ## The facts before the last restart -/

theorem factsOf_entries (accepted : List (Accepted Carry)) :
    factsOf (accepted.flatMap (·.entries)) = accepted.flatMap fun a => factsOf a.entries := by
  induction accepted with
  | nil => rfl
  | cons a accepted ih =>
      rw [List.flatMap_cons, List.flatMap_cons, Replay.factsOf_append, ih]

/-- The facts before the last restart. -/
def lostFacts (s : CallRun Carry) : List Fact :=
  (s.accepted.filter fun a => !decide (a.restarts = s.restarts)).flatMap fun a => factsOf a.entries

theorem perm_facts (s : CallRun Carry) :
    (factsOf s.current ++ s.lostFacts).Perm (factsOf s.entries) := by
  rw [current, entries, factsOf_entries, factsOf_entries, lostFacts, ← List.flatMap_append]
  exact (List.filter_append_perm _ s.accepted).flatMap_right _

theorem lostFacts_eq_nil (h : LedgerOf C s) : s.lostFacts = [] ↔ s.FactsCurrent := by
  simp only [lostFacts, List.flatMap_eq_nil_iff, List.mem_filter, FactsCurrent]
  refine forall_congr' fun a => ?_
  constructor
  · intro hlost ha hlt
    exact hlost ⟨ha, by simp; omega⟩
  · rintro hcurrent ⟨ha, hne⟩
    have hle := h.restarts a ha
    refine hcurrent ha ?_
    simp at hne
    omega

/-- Counting facts of either kind misses those before the last restart. -/
theorem length_filter_facts (s : CallRun Carry) (p : Fact → Bool) :
    ((factsOf s.entries).filter p).length =
      ((factsOf s.current).filter p).length + (s.lostFacts.filter p).length := by
  rw [← ((perm_facts s).filter p).length_eq, List.filter_append, List.length_append]

theorem filter_kind_eq_nil {facts : List Fact}
    (hevents : (facts.filter (·.kind = .event)).length = 0)
    (hsamples : (facts.filter (·.kind ≠ .event)).length = 0) : facts = [] := by
  rw [List.length_eq_zero_iff, List.filter_eq_nil_iff] at hevents hsamples
  refine List.eq_nil_iff_forall_not_mem.mpr fun f hf => ?_
  have hevent := hevents f hf
  have hsample := hsamples f hf
  simp_all

/-! ## The finalize entry -/

/-- **An ended call's journal** ends with its recorder's totals. -/
theorem accept_finalized (h : Sound C s) (hs : s.accept C drain = some s')
    (hfin : drain.finalizes = true) :
    ∃ before status endedMs, finalizeOf before = none ∧
      s'.entries = before ++ [.finalize ⟨status, endedMs, s'.call.turn.recorder.limits,
        s'.call.turn.recorder.counts⟩] := by
  obtain ⟨decision, call, -, -, hopen, hproject, -, -, -, hcall, haccepted, -⟩ := accept_cases hs
  obtain ⟨t, logged, -, hlogs, hturn⟩ := h.kept.project_spec hopen hproject
  have hclosed : finalizeOf s.entries = none := by
    have hfinalized := h.ledger.finalized
    rw [hopen] at hfinalized
    exact Option.not_isSome_iff_eq_none.mp (Bool.eq_false_iff.mp hfinalized.symm)
  have hturn' : s'.call.turn.recorder.limits = t.recorder.limits ∧
      s'.call.turn.recorder.counts = t.recorder.counts := by
    rw [hcall]
    dsimp only [CaptureCall.settle, Recorder.takeNew]
    rw [hturn]
    exact ⟨rfl, rfl⟩
  cases hending : drain.ending with
  | none =>
      rw [CaptureDrain.finalizes, hending] at hfin
      cases hfin
  | some ending =>
      have hends : ending.finalizes = true := by
        rw [CaptureDrain.finalizes, hending] at hfin
        exact hfin
      refine ⟨s.entries ++ s.call.turn.recorder.newEntries ++ logged,
        if call.lossy then STATUS_INCOMPLETE else STATUS_COMPLETE, ending.timestampMs, ?_, ?_⟩
      · rw [List.append_assoc, finalizeOf_append_of_none hclosed,
          finalizeOf_append_of_none h.kept.finalizeOf_newEntries]
        exact finalizeOf_of_recorded hlogs.recorder.recorded
      · rw [entries_of_accepted haccepted, hturn'.1, hturn'.2, hturn]
        simp [CaptureCall.closing, hending, hends]

/-- The assembler replays an ended call's journal. -/
theorem assembleIncident_finalized {before : List JournalEntry} {totals : JournalFinalize}
    {t : Replay} (hhead : (before ++ [JournalEntry.finalize totals]).head? = some .opened)
    (hbefore : finalizeOf before = none) (ht : Replay.empty.applyEach (· + ·) before = some t) :
    assembleIncident (before ++ [.finalize totals]) 0 false =
      if t.crossCheck totals then .error .counterMismatch else .ok ⟨t, true, false, 0⟩ := by
  have hfinal : finalizeOf (before ++ [JournalEntry.finalize totals]) = some totals :=
    finalizeOf_append_of_none hbefore
  unfold assembleIncident
  rw [if_neg (not_not_intro hhead), if_neg (by simp), Replay.applyAll_append_finalize hbefore, ht,
    hfinal]
  cases hcheck : t.crossCheck totals <;> simp [hcheck]

/-- Fact IDs are apart where the facts' numbers are. -/
theorem nodup_ids {facts : List Fact} (h : facts.Pairwise (·.sequence < ·.sequence)) :
    ((facts.filter (·.kind = .event) ++ facts.filter (·.kind ≠ .event)).map Fact.id).Nodup := by
  have hids : (facts.map Fact.id).Nodup := by
    rw [List.Nodup, List.pairwise_map]
    refine h.imp fun {f g} hlt heq => ?_
    have hsequence : f.sequence = g.sequence := congrArg Prod.snd heq
    omega
  have hperm : (facts.filter (·.kind = .event) ++ facts.filter (·.kind ≠ .event)).Perm facts := by
    have := List.filter_append_perm (fun f : Fact => decide (f.kind = .event)) facts
    simpa using this
  exact ((hperm.map Fact.id).nodup_iff).mpr hids

/-- The drain just accepted is of the current process. -/
theorem factsCurrent_accept (hs : s.accept C drain = some s') :
    s'.FactsCurrent ↔ s.FactsCurrent := by
  obtain ⟨decision, call, -, -, -, -, -, -, -, -, haccepted, hrestarts⟩ := accept_cases hs
  unfold FactsCurrent
  rw [haccepted, hrestarts]
  constructor
  · exact fun h a ha hlt => h a (List.mem_append_left _ ha) hlt
  · intro h a ha hlt
    rcases List.mem_append.mp ha with ha | ha
    · exact h a ha hlt
    · rw [List.mem_singleton.mp ha] at hlt
      exact absurd hlt (Nat.lt_irrefl _)

/-- **The totals agree** with a replay of the journal exactly when the
recorder holds every fact of it. -/
theorem crossCheck_iff {t : Replay} {status : String} {endedMs : ℚ} (h : Sound C s)
    (haccepted : s.accepted ≠ []) (hlimit : ∀ e, .limit e ∉ s.entries)
    (ht : Replay.empty.applyEach (· + ·) s.entries = some t) :
    t.crossCheck ⟨status, endedMs, s.call.turn.recorder.limits,
      s.call.turn.recorder.counts⟩ = false ↔ s.FactsCurrent := by
  have hrecorded : s.recorded = s.entries := by
    rw [recorded, h.kept.newEntries, if_neg haccepted, List.append_nil]
  obtain ⟨t₀, ht₀, hcov, hadapters, hclocks⟩ := h.kept.replays
  rw [hrecorded] at ht₀
  have hreplays := Replay.replays_of_applyEach ht
  have hreplays₀ := Replay.replays_of_applyEach ht₀
  have hlimits : t.limits = s.call.turn.recorder.limits := by
    rw [h.kept.limits (hrecorded ▸ hlimit)]
    exact hreplays.limits hlimit
  have hcovEq : t.coverage = s.call.turn.recorder.coverage :=
    (hreplays.coverage.trans hreplays₀.coverage.symm).trans hcov
  have hadaptersEq : t.adapters = s.call.turn.recorder.adapters :=
    (hreplays.adapters.trans hreplays₀.adapters.symm).trans
      (hadapters.trans h.kept.adapters.symm)
  have hclocksEq : t.clockDomains = s.call.turn.recorder.clockDomains :=
    (hreplays.clockDomains.trans hreplays₀.clockDomains.symm).trans
      (hclocks.trans h.kept.clockDomains.symm)
  have hevents : t.events.length = s.call.turn.recorder.events.length +
      (s.lostFacts.filter (·.kind = .event)).length := by
    rw [hreplays.events, h.kept.events]
    exact length_filter_facts s _
  have hsamples : t.qualitySamples.length = s.call.turn.recorder.qualitySamples.length +
      (s.lostFacts.filter (·.kind ≠ .event)).length := by
    rw [hreplays.qualitySamples, h.kept.qualitySamples]
    exact length_filter_facts s _
  have homissions : t.omissions.length = s.call.turn.recorder.omissions.length +
      (s.lostFacts.flatMap (·.omissions)).length := by
    rw [hreplays.omissions, h.kept.omissions, ← List.length_append, ← List.flatMap_append]
    exact ((perm_facts s).flatMap_right _).length_eq.symm
  rw [← lostFacts_eq_nil h.ledger]
  have hcheck : t.crossCheck ⟨status, endedMs, s.call.turn.recorder.limits,
      s.call.turn.recorder.counts⟩ = false ↔ t.counts = s.call.turn.recorder.counts := by
    simp [Replay.crossCheck, hlimits]
  rw [hcheck]
  constructor
  · intro hcounts
    have hE : t.events.length = s.call.turn.recorder.events.length :=
      congrArg RecordCounts.events hcounts
    have hS : t.qualitySamples.length = s.call.turn.recorder.qualitySamples.length :=
      congrArg RecordCounts.qualitySamples hcounts
    exact filter_kind_eq_nil (by omega) (by omega)
  · intro hnone
    rw [hnone] at hevents hsamples homissions
    simp only [List.filter_nil, List.length_nil, Nat.add_zero] at hevents hsamples
    simp only [List.flatMap_nil, List.length_nil, Nat.add_zero] at homissions
    unfold Replay.counts Recorder.counts
    rw [hadaptersEq, hclocksEq, hcovEq, hevents, hsamples, homissions]

/-- **An ended call's journal seals exactly when no drain before the last
restart recorded a fact.** Without a record omitted, and whatever drains and
restarts came before. -/
theorem seals_iff (hs : Reached C s) (hstep : step C s (.drain drain) = some s')
    (hfin : drain.finalizes = true) (hlimit : ∀ e, .limit e ∉ s'.entries) :
    (∃ result, Seals C s' result) ↔ s.FactsCurrent := by
  have hstep' : s.accept C drain = some s' := hstep
  have hsound := (hs.step (.drain drain) hstep).sound
  obtain ⟨before, status, endedMs, hbefore, hentries⟩ :=
    accept_finalized hs.sound hstep' hfin
  obtain ⟨decision, call, -, -, -, -, -, -, -, -, haccepted, -⟩ := accept_cases hstep'
  have hne : s'.accepted ≠ [] := by simp [haccepted]
  have hrecorded : s'.recorded = s'.entries := by
    rw [recorded, hsound.kept.newEntries, if_neg hne, List.append_nil]
  obtain ⟨t₀, ht₀, -⟩ := hsound.kept.replays
  rw [hrecorded] at ht₀
  obtain ⟨t, ht⟩ : ∃ t, Replay.empty.applyEach (· + ·) s'.entries = some t :=
    Replay.applyEach_of_coverage rfl ht₀
  have htBefore : Replay.empty.applyEach (· + ·) before = some t := by
    rw [hentries, Replay.applyEach_append] at ht
    obtain ⟨u, hu, hut⟩ := Option.bind_eq_some_iff.mp ht
    cases hut
    exact hu
  have hhead : s'.entries.head? = some .opened := by
    obtain ⟨rest, hrest⟩ := hsound.kept.opening
    rw [← hrecorded, ← hrest, List.head?_append,
      (Recorder.opened_spec C.recorder).2.2.2.1]
    rfl
  obtain ⟨bytes, hbytes, -⟩ := hsound.framed
  have hseal : C.seal bytes = if t.crossCheck ⟨status, endedMs, s'.call.turn.recorder.limits,
      s'.call.turn.recorder.counts⟩ then .error .counterMismatch else .ok ⟨t, true, false, 0⟩ := by
    unfold CaptureConfig.seal
    rw [C.codec.read_frames _ _ hhead hbytes]
    dsimp only
    rw [hentries] at hhead ⊢
    exact assembleIncident_finalized hhead hbefore htBefore
  have hreplays := Replay.replays_of_applyEach ht
  rw [← factsCurrent_accept hstep', ← crossCheck_iff hsound hne hlimit ht]
  constructor
  · rintro ⟨result, hresult⟩
    obtain ⟨bytes', hbytes', hsealed⟩ := hresult.sealed
    rw [hbytes] at hbytes'
    cases hbytes'
    rw [hseal] at hsealed
    split at hsealed
    · cases hsealed
    · next hcheck => exact Bool.eq_false_iff.mpr hcheck
  · intro hcheck
    refine ⟨⟨t, true, false, 0⟩, ⟨bytes, hbytes, ?_⟩, rfl, rfl, rfl, ?_, hreplays.events,
      hreplays.qualitySamples, hreplays.coverage, hreplays.omissions⟩
    · rw [hseal, hcheck]
      rfl
    · rw [hreplays.events, hreplays.qualitySamples]
      exact nodup_ids (hrecorded ▸ hsound.kept.ordered)

/-- What a call of one event journals, restarted before its end or not. -/
def sealTable : List JournalEntry :=
  [.opened, .adapter, .clockDomain,
    .coverage ⟨IDENTITY_SIGNAL, "partial", some IDENTITY_REASON, none⟩ none,
    .coverage ⟨STATS_CONTINUITY_SIGNAL, "partial", some STATS_CONTINUITY_RESTART_REASON, none⟩
      none,
    .coverage ⟨CALL_CLOSE_SIGNAL, "available", some CALL_CLOSE_REASON, none⟩ none,
    .fact ⟨⟨.event, "first", none, "first", 0, []⟩, 1⟩,
    .fact ⟨⟨.event, CLIENT_CALL_ENDED, none, DURATION_SOURCE_FIELD, 0, []⟩, 2⟩,
    .finalize ⟨STATUS_COMPLETE, 0, .zero, ⟨1, 1, 2, 2, 0, 0⟩⟩,
    .finalize ⟨STATUS_INCOMPLETE, 0, .zero, ⟨1, 1, 3, 1, 0, 0⟩⟩]

def sealCapture : CaptureConfig Sample := smallCapture sealTable

/-- A drain of one event. -/
def eventDrain : CaptureDrain := smallDrain 1 ["first"] none none

/-- The drain that ends its call. -/
def endingDrain : CaptureDrain := smallDrain 2 [] none (some ⟨END_CALL_ENDED, 0⟩)

/-- The call ends as it began, in one process. -/
def endedRun : CallRun Sample :=
  Transition.run (step sealCapture) (opened sealCapture eventDrain)
    [.drain eventDrain, .drain endingDrain]

/-- The process restarts between the event and the end. -/
def restartedRun : CallRun Sample :=
  Transition.run (step sealCapture) (opened sealCapture eventDrain)
    [.drain eventDrain, .restart endingDrain none, .drain endingDrain]

/-- An entry that omits a record. -/
def isLimit : JournalEntry → Bool
  | .limit _ => true
  | .opened | .adapter | .clockDomain | .coverage _ _ | .fact _ | .finalize _ => false

theorem limit_not_mem {entries : List JournalEntry} (h : entries.all (!isLimit ·) = true) :
    ∀ e, .limit e ∉ entries := by
  intro e he
  have := List.all_eq_true.mp h _ he
  cases this

theorem endedRun_seals : ∃ result, Seals sealCapture endedRun result := by
  have hsome : (step sealCapture (Transition.run (step sealCapture) (opened sealCapture eventDrain)
      [.drain eventDrain]) (.drain endingDrain)).isSome = true := by decide
  obtain ⟨s', hs'⟩ := Option.isSome_iff_exists.mp hsome
  have hrun : endedRun = s' := Transition.run_concat hs'
  rw [hrun]
  refine (seals_iff ⟨_, _, rfl⟩ hs' (by decide) ?_).mpr ?_
  · rw [← hrun]
    exact limit_not_mem (by decide)
  · intro a _ hlt
    exact absurd hlt (Nat.not_lt_zero _)

/-- **After a restart the totals fall short**: the drains are accepted, no
record is omitted, and the journal does not seal. -/
theorem restartedRun_unsealed :
    restartedRun.call.finalized = true ∧ (∀ e, .limit e ∉ restartedRun.entries) ∧
      ¬ ∃ result, Seals sealCapture restartedRun result := by
  refine ⟨by decide, limit_not_mem (by decide), ?_⟩
  rintro ⟨result, hresult⟩
  obtain ⟨bytes, hbytes, hsealed⟩ := hresult.sealed
  have hjournal : restartedRun.journal sealCapture = some [0, 1, 2, 3, 6, 4, 7, 5, 9] := by decide
  rw [hjournal] at hbytes
  cases hbytes
  have hmismatch : sealCapture.seal [0, 1, 2, 3, 6, 4, 7, 5, 9] = .error .counterMismatch := by
    rfl
  rw [hmismatch] at hsealed
  cases hsealed

end CallRun

end Earshot
