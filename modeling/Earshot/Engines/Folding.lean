import Earshot.Engines.WebRtc
import Mathlib.Data.List.Induction
/-!
# Segments derive what the whole does

The carry is the loop's state, so the loop over two segments is the loop
over both (`step_emitted`). What remains is the origin, which the first
segment fixes, and the ledger, which keeps one note a signal of each
segment where the whole keeps one of all.
-/

namespace Earshot

namespace WebRtc

variable {baseMs : ℚ} {snapshots : List Member} {xs ys : List (ℚ × Stats)} {carry : Carry}

/-! ## Facts add up -/

theorem Emitted.ext {e e' : Emitted} (hm : e.measurements = e'.measurements)
    (he : e.events = e'.events) (hn : e.notes = e'.notes) : e = e' := by
  cases e
  cases e'
  simp_all

@[simp] theorem measurements_append (e e' : Emitted) :
    (e ++ e').measurements = e.measurements ++ e'.measurements := rfl

@[simp] theorem events_append (e e' : Emitted) : (e ++ e').events = e.events ++ e'.events := rfl

@[simp] theorem notes_append (e e' : Emitted) : (e ++ e').notes = e.notes ++ e'.notes := rfl

@[simp] theorem Emitted.none_append (e : Emitted) : Emitted.none ++ e = e := rfl

theorem Emitted.append_assoc (a b c : Emitted) : a ++ b ++ c = a ++ (b ++ c) :=
  Emitted.ext (by simp) (by simp) (by simp)

@[simp] theorem Emitted.append_none (e : Emitted) : e ++ Emitted.none = e :=
  Emitted.ext (by simp [Emitted.none]) (by simp [Emitted.none]) (by simp [Emitted.none])

@[simp] theorem Flags.none_or (f : Flags) : Flags.none.or f = f := by
  simp [Flags.or, Flags.none]

theorem Flags.or_assoc (f g h : Flags) : (f.or g).or h = f.or (g.or h) := by
  simp [Flags.or, Bool.or_assoc]

/-! ## The loop resumes -/

/-- The loop from a carry. -/
def run (baseMs : ℚ) (carry : Carry) (xs : List (ℚ × Stats)) : Loop :=
  xs.foldl (step baseMs) ⟨carry, .none, .none⟩

/-- A turn reads the carry alone, and adds to what was derived. -/
theorem step_eq (loop : Loop) (x : ℚ × Stats) :
    step baseMs loop x =
      ⟨(step baseMs ⟨loop.carry, .none, .none⟩ x).carry,
        loop.emitted ++ (step baseMs ⟨loop.carry, .none, .none⟩ x).emitted,
        loop.flags.or (step baseMs ⟨loop.carry, .none, .none⟩ x).flags⟩ := by
  simp [step]

theorem foldl_step (loop : Loop) (xs : List (ℚ × Stats)) :
    xs.foldl (step baseMs) loop =
      ⟨(run baseMs loop.carry xs).carry, loop.emitted ++ (run baseMs loop.carry xs).emitted,
        loop.flags.or (run baseMs loop.carry xs).flags⟩ := by
  induction xs generalizing loop with
  | nil => simp [run, Flags.or, Flags.none]
  | cons x xs ih =>
    have hrun : run baseMs loop.carry (x :: xs) =
        xs.foldl (step baseMs) (step baseMs ⟨loop.carry, .none, .none⟩ x) := rfl
    rw [List.foldl_cons, ih, hrun, ih (step baseMs ⟨loop.carry, .none, .none⟩ x),
      step_eq loop x]
    simp only [Emitted.append_assoc, Flags.or_assoc]

/-- **The carry is the loop's state.** -/
theorem run_append (xs ys : List (ℚ × Stats)) :
    run baseMs carry (xs ++ ys) =
      ⟨(run baseMs (run baseMs carry xs).carry ys).carry,
        (run baseMs carry xs).emitted ++ (run baseMs (run baseMs carry xs).carry ys).emitted,
        (run baseMs carry xs).flags.or (run baseMs (run baseMs carry xs).carry ys).flags⟩ := by
  conv_lhs => unfold run
  rw [List.foldl_append, foldl_step]
  rfl

/-- A carry to resume from: a snapshot was seen, and the origin is fixed. -/
def Carry.Resumes (carry : Carry) (baseMs : ℚ) : Prop :=
  carry.prevStats.isSome = true ∧ carry.originMs = some baseMs

/-- Every turn leaves one. -/
theorem step_resumes (loop : Loop) (x : ℚ × Stats) : (step baseMs loop x).carry.Resumes baseMs :=
  ⟨rfl, rfl⟩

theorem run_resumes (h : xs ≠ [] ∨ carry.Resumes baseMs) :
    (run baseMs carry xs).carry.Resumes baseMs := by
  induction xs using List.reverseRecOn with
  | nil => exact h.resolve_left fun hne => hne rfl
  | append_singleton xs x ih =>
    rw [run_append]
    exact step_resumes _ _

/-! ## Coverage -/

/-- The notes the engine makes: one text a signal. -/
def Standard (note : EngineCoverage) : Prop :=
  note = ⟨.snapshotOrder, "not_observed", "non_monotonic_snapshot"⟩ ∨
    (note.signal ≠ .snapshotOrder ∧ note.availability = "not_observed" ∧
      note.reason = "counter_reset")

theorem Standard.eq_of_signal {note note' : EngineCoverage} (h : Standard note)
    (h' : Standard note') (hsignal : note.signal = note'.signal) : note = note' := by
  rcases h with rfl | ⟨hne, havailability, hreason⟩ <;>
    rcases h' with rfl | ⟨hne', havailability', hreason'⟩
  · rfl
  · exact absurd hsignal.symm hne'
  · exact absurd hsignal hne
  · cases note
    cases note'
    simp_all

/-- Every note is one the engine makes. -/
def Emitted.Standard (e : Emitted) : Prop := ∀ note ∈ e.notes, WebRtc.Standard note

theorem standard_none : Emitted.none.Standard := by simp [Emitted.Standard, Emitted.none]

theorem standard_append {e e' : Emitted} (h : e.Standard) (h' : e'.Standard) :
    (e ++ e').Standard := by
  intro note hnote
  rw [notes_append] at hnote
  exact (List.mem_append.mp hnote).elim (h note) (h' note)

theorem standard_reset {signal : EngineSignal} (h : signal ≠ .snapshotOrder) :
    (note signal "not_observed" "counter_reset").Standard := by
  intro n hn
  rw [List.mem_singleton.mp hn]
  exact .inr ⟨h, rfl, rfl⟩

theorem standard_measurement (name : String) (value : ℚ) (unit : String) (atMs : ℚ)
    (confidence sourceField : String) :
    (measurement name value unit atMs confidence sourceField).Standard := by
  simp [Emitted.Standard, measurement]

theorem standard_transportEvent (name : String) (atMs : ℚ) (sourceField : String) :
    (transportEvent name atMs sourceField).Standard := by
  simp [Emitted.Standard, transportEvent]

theorem standard_withDeltas {signal : EngineSignal} (hsignal : signal ≠ .snapshotOrder)
    (a b : Delta) {derive : ℚ → ℚ → Emitted} (h : ∀ a b, (derive a b).Standard) :
    (withDeltas signal a b derive).Standard := by
  unfold withDeltas
  split
  · exact standard_reset hsignal
  · exact standard_reset hsignal
  · exact h _ _
  · exact standard_none

theorem standard_ite {p : Prop} [Decidable p] {e e' : Emitted} (h : e.Standard)
    (h' : e'.Standard) : (if p then e else e').Standard := by
  split
  · exact h
  · exact h'

theorem standard_emitPacketLoss (previous current : Stat) (atMs : ℚ) :
    (emitPacketLoss previous current atMs).Standard :=
  standard_withDeltas (by decide) _ _ fun _ _ =>
    standard_ite standard_none (standard_measurement _ _ _ _ _ _)

theorem standard_emitJitterBuffer (id : String) (previous current : Stat) (atMs : ℚ)
    (averages : List (String × ℚ)) :
    (emitJitterBuffer id previous current atMs averages).1.Standard := by
  unfold emitJitterBuffer
  split
  · exact standard_reset (by decide)
  · exact standard_reset (by decide)
  · split
    · exact standard_none
    · exact standard_measurement _ _ _ _ _ _
  · exact standard_none

theorem standard_emitConcealment (previous current : Stat) (atMs : ℚ) :
    (emitConcealment previous current atMs).Standard :=
  standard_withDeltas (by decide) _ _ fun _ _ =>
    standard_ite standard_none (standard_measurement _ _ _ _ _ _)

theorem standard_emitProcessingDelay (previous current : Stat) (atMs : ℚ) :
    (emitProcessingDelay previous current atMs).Standard :=
  standard_withDeltas (by decide) _ _ fun _ _ =>
    standard_ite standard_none (standard_measurement _ _ _ _ _ _)

theorem standard_emitPlayout (previous current : Stat) (atMs : ℚ) :
    (emitPlayout previous current atMs).Standard := by
  refine standard_append (standard_withDeltas (by decide) _ _ fun _ _ =>
    standard_ite standard_none (standard_measurement _ _ _ _ _ _))
    (standard_withDeltas (by decide) _ _ fun _ _ => standard_ite standard_none ?_)
  refine standard_append (standard_measurement _ _ _ _ _ _) (standard_ite ?_ standard_none)
  simp [Emitted.Standard]

/-- A fold of steps that keep to the table does. -/
theorem standard_foldl {β γ : Type} {f : γ → β → γ} {e : γ → Emitted}
    (hf : ∀ start x, (e start).Standard → (e (f start x)).Standard) (xs : List β)
    (start : γ) (hstart : (e start).Standard) :
    (e (xs.foldl f start)).Standard := by
  induction xs generalizing start with
  | nil => exact hstart
  | cons x xs ih => exact ih _ (hf start x hstart)

theorem standard_emitDeltas (previous current : Stats) (atMs : ℚ)
    (averages : List (String × ℚ)) : (emitDeltas previous current atMs averages).1.Standard := by
  unfold emitDeltas
  refine standard_foldl (e := id) (fun start entry hstart => ?_) _ _
    (standard_foldl (e := Prod.fst) (fun start entry hstart => ?_) _ _ standard_none)
  · exact standard_append hstart (standard_emitPlayout _ _ _)
  · exact standard_append hstart (standard_append (standard_emitPacketLoss _ _ _)
      (standard_append (standard_emitJitterBuffer _ _ _ _ _)
        (standard_append (standard_emitConcealment _ _ _)
          (standard_emitProcessingDelay _ _ _))))

theorem standard_emitInstants (stats : Stats) (atMs : ℚ) : (emitInstants stats atMs).Standard := by
  refine standard_append ?_ ?_
  · refine standard_foldl (e := id) (fun start entry hstart => ?_) _ _ standard_none
    split
    · exact standard_append hstart (standard_measurement _ _ _ _ _ _)
    · exact hstart
  · split
    · exact standard_measurement _ _ _ _ _ _
    · exact standard_none

theorem standard_connectionStep (carry : Carry) (ordered : Bool) (atMs : ℚ) (state : String) :
    (connectionStep carry ordered atMs state).1.Standard := by
  unfold connectionStep
  split
  · exact standard_none
  · split
    · exact standard_ite standard_none (standard_transportEvent _ _ _)
    · split <;> exact standard_none

theorem standard_step {loop : Loop} (h : loop.emitted.Standard) (x : ℚ × Stats) :
    (step baseMs loop x).emitted.Standard := by
  unfold step
  refine standard_append h (standard_append ?_ (standard_append ?_
    (standard_append (standard_ite (standard_transportEvent _ _ _) standard_none)
      (standard_append ?_ (standard_emitInstants _ _)))))
  · refine standard_ite standard_none fun n hn => ?_
    rw [List.mem_singleton.mp hn]
    exact .inl rfl
  · split
    · exact standard_connectionStep _ _ _ _
    · exact standard_none
  · split
    · split
      · exact standard_emitDeltas _ _ _ _
      · exact standard_none
    · exact standard_none

theorem standard_run : (run baseMs carry xs).emitted.Standard := by
  induction xs using List.reverseRecOn with
  | nil => exact standard_none
  | append_singleton xs x ih =>
    unfold run at ih ⊢
    rw [List.foldl_append]
    exact standard_step ih x

/-- **One note a signal**, and every signal noted. -/
theorem mem_coverageLedger {notes : List EngineCoverage} (h : ∀ n ∈ notes, Standard n)
    (n : EngineCoverage) : n ∈ coverageLedger notes ↔ n ∈ notes := by
  unfold coverageLedger
  rw [List.mem_insertionSort]
  suffices hall : ∀ ledger : List EngineCoverage, (∀ m ∈ ledger, Standard m) →
      (n ∈ notes.foldl (fun ledger note =>
          if ledger.any (·.signal = note.signal) then ledger else ledger ++ [note]) ledger ↔
        n ∈ ledger ∨ n ∈ notes) by
    simpa using hall [] (by simp)
  induction notes with
  | nil => simp
  | cons first notes ih =>
    intro ledger hledger
    have hfirst := h first (by simp)
    rw [List.foldl_cons]
    split
    · next hany =>
      rw [ih (fun n hn => h n (by simp [hn])) ledger hledger, List.mem_cons]
      obtain ⟨m, hm, hsignal⟩ := List.any_eq_true.mp hany
      have heq : m = first := (hledger m hm).eq_of_signal hfirst (by simpa using hsignal)
      constructor
      · exact fun hmem => hmem.imp_right .inr
      · rintro (hmem | rfl | hmem)
        · exact .inl hmem
        · exact .inl (heq ▸ hm)
        · exact .inr hmem
    · rw [ih (fun n hn => h n (by simp [hn]))]
      · simp only [List.mem_append, List.mem_cons, List.not_mem_nil, or_false, or_assoc]
      · intro m hm
        rcases List.mem_append.mp hm with hm | hm
        · exact hledger m hm
        · rw [List.mem_singleton.mp hm]
          exact hfirst

/-! ## The origin -/

theorem earliest_spec (first : ℚ × Stats) (rest : List (ℚ × Stats)) :
    earliest first rest ∈ (first :: rest).map (·.1) ∧
      ∀ x ∈ first :: rest, earliest first rest ≤ x.1 := by
  unfold earliest
  suffices hall : ∀ ms : ℚ,
      (rest.foldl (fun ms x => min ms x.1) ms = ms ∨
        rest.foldl (fun ms x => min ms x.1) ms ∈ rest.map (·.1)) ∧
      rest.foldl (fun ms x => min ms x.1) ms ≤ ms ∧
      ∀ x ∈ rest, rest.foldl (fun ms x => min ms x.1) ms ≤ x.1 by
    obtain ⟨hmem, hle, hrest⟩ := hall first.1
    refine ⟨?_, fun x hx => ?_⟩
    · rw [List.map_cons, List.mem_cons]
      exact hmem
    · rcases List.mem_cons.mp hx with rfl | hx
      · exact hle
      · exact hrest x hx
  induction rest with
  | nil => exact fun ms => ⟨.inl rfl, le_refl ms, by simp⟩
  | cons y rest ih =>
    intro ms
    obtain ⟨hmem, hle, hrest⟩ := ih (min ms y.1)
    rw [List.foldl_cons]
    refine ⟨?_, hle.trans (min_le_left _ _), fun x hx => ?_⟩
    · rcases hmem with heq | hmem
      · rcases min_choice ms y.1 with hms | hy
        · exact .inl (heq.trans hms)
        · exact .inr (by rw [heq, hy]; simp)
      · exact .inr (List.mem_cons_of_mem _ hmem)
    · rcases List.mem_cons.mp hx with rfl | hx
      · exact hle.trans (min_le_right _ _)
      · exact hrest x hx

/-- The least reading of the whole is the least of a part that has it. -/
theorem earliest_append {first : ℚ × Stats} {rest ys : List (ℚ × Stats)}
    (h : ∃ t ∈ (first :: rest).map (·.1), ∀ x ∈ (first :: rest) ++ ys, t ≤ x.1) :
    earliest first (rest ++ ys) = earliest first rest := by
  obtain ⟨t, ht, hle⟩ := h
  obtain ⟨x, hx, rfl⟩ := List.mem_map.mp ht
  obtain ⟨hmem, hlower⟩ := earliest_spec first rest
  obtain ⟨hmem', hlower'⟩ := earliest_spec first (rest ++ ys)
  obtain ⟨y, hy, hyeq⟩ := List.mem_map.mp hmem
  obtain ⟨z, hz, hzeq⟩ := List.mem_map.mp hmem'
  refine le_antisymm ?_ ?_
  · rw [← hyeq]
    exact hlower' y (List.mem_append_left ys hy)
  · rw [← hzeq]
    exact (hlower x hx).trans (hle z hz)

/-! ## Segments -/

theorem normalizeSnapshots_append (a b : List Member) :
    normalizeSnapshots (a ++ b) = normalizeSnapshots a ++ normalizeSnapshots b :=
  List.filterMap_append

theorem analyze_nil {carry : Option Carry} (h : normalizeSnapshots snapshots = []) :
    analyzeWebrtcStats snapshots carry = ⟨[], [], [], .none, carry⟩ := by
  unfold analyzeWebrtcStats
  rw [h]

/-- Facts of a loop that was run. -/
def factsOf (loop : Loop) : Facts :=
  ⟨loop.emitted.measurements, loop.emitted.events, coverageLedger loop.emitted.notes, loop.flags,
    some loop.carry⟩

theorem analyze_resumes (h : carry.Resumes baseMs) (hne : normalizeSnapshots snapshots ≠ []) :
    analyzeWebrtcStats snapshots (some carry) =
      factsOf (run baseMs carry (normalizeSnapshots snapshots)) := by
  unfold analyzeWebrtcStats
  cases hsnapshots : normalizeSnapshots snapshots with
  | nil => exact absurd hsnapshots hne
  | cons first rest =>
    have hstart : start (some carry) first rest = (baseMs, carry) := by
      simp [start, Option.filter, h.1, h.2]
    dsimp only
    rw [hstart]
    rfl

theorem analyze_first {first : ℚ × Stats} {rest : List (ℚ × Stats)}
    (h : normalizeSnapshots snapshots = first :: rest) :
    analyzeWebrtcStats snapshots none =
      factsOf (run (earliest first rest) (.fresh (earliest first rest)) (first :: rest)) := by
  unfold analyzeWebrtcStats
  rw [h]
  rfl

/-- When a fact was observed, on the clock it was read on. -/
def Facts.rawMs (facts : Facts) (atMs : ℚ) : ℚ := (facts.carry.bind (·.originMs)).getD 0 + atMs

/-- Measurements and events, each with when it was observed. -/
def Facts.raw (facts : Facts) : List (ℚ × EngineMeasurement) × List (ℚ × EngineEvent) :=
  (facts.measurements.map fun m => (facts.rawMs m.atMs, m),
    facts.events.map fun e => (facts.rawMs e.atMs, e))

/-- The carry the last part left. -/
def lastCarry (parts : List Facts) (carry : Option Carry) : Option Carry :=
  (parts.getLast?.map (·.carry)).getD carry

theorem lastCarry_cons (part : Facts) (parts : List Facts) (carry : Option Carry) :
    lastCarry (part :: parts) carry = lastCarry parts part.carry := by
  unfold lastCarry
  rw [List.getLast?_cons]
  cases parts.getLast? <;> rfl

/-- The parts derive what the whole does. -/
structure Folds (whole : Facts) (parts : List Facts) (carry : Option Carry) : Prop where
  measurements : whole.measurements = parts.flatMap (·.measurements)
  events : whole.events = parts.flatMap (·.events)
  raw : whole.raw = (parts.flatMap (·.raw.1), parts.flatMap (·.raw.2))
  coverage : ∀ note, note ∈ whole.coverage ↔ ∃ part ∈ parts, note ∈ part.coverage
  carry : whole.carry = lastCarry parts carry
  growth : whole.flags.jitterBufferGrowth = parts.any (·.flags.jitterBufferGrowth)
  reconnected : whole.flags.reconnected = parts.any (·.flags.reconnected)
  routeChanged : whole.flags.routeChanged = parts.any (·.flags.routeChanged)

theorem folds_nil (carry : Option Carry) : Folds ⟨[], [], [], .none, carry⟩ [] carry :=
  ⟨rfl, rfl, rfl, by simp, rfl, rfl, rfl, rfl⟩

/-- A part that derives nothing and leaves the carry. -/
theorem Folds.cons_empty {whole : Facts} {parts : List Facts} {carry : Option Carry}
    (h : Folds whole parts carry) :
    Folds whole (⟨[], [], [], .none, carry⟩ :: parts) carry := by
  refine ⟨h.measurements, h.events, h.raw, ?_, ?_, h.growth, h.reconnected, h.routeChanged⟩
  · simpa using h.coverage
  · rw [h.carry, lastCarry_cons]

theorem mem_coverage_factsOf (note : EngineCoverage) :
    note ∈ (factsOf (run baseMs carry xs)).coverage ↔ note ∈ (run baseMs carry xs).emitted.notes :=
  mem_coverageLedger standard_run note

/-- A part before parts that resume it. -/
theorem Folds.cons {parts : List Facts} (hne : xs ≠ [] ∨ carry.Resumes baseMs)
    (h : Folds (factsOf (run baseMs (run baseMs carry xs).carry ys)) parts
      (some (run baseMs carry xs).carry)) :
    Folds (factsOf (run baseMs carry (xs ++ ys))) (factsOf (run baseMs carry xs) :: parts)
      (some carry) := by
  have horigin := (run_resumes hne).2
  have hresumes : (run baseMs (run baseMs carry xs).carry ys).carry.Resumes baseMs :=
    run_resumes (.inr (run_resumes hne))
  have horigin' := hresumes.2
  have hraw := h.raw
  simp only [Facts.raw, Facts.rawMs, factsOf, Option.bind_some, horigin', Option.getD_some,
    Prod.mk.injEq] at hraw
  obtain ⟨hmeasurements, hevents⟩ := hraw
  have hsplit : run baseMs carry (xs ++ ys) =
      ⟨(run baseMs (run baseMs carry xs).carry ys).carry,
        (run baseMs carry xs).emitted ++ (run baseMs (run baseMs carry xs).carry ys).emitted,
        (run baseMs carry xs).flags.or (run baseMs (run baseMs carry xs).carry ys).flags⟩ :=
    run_append xs ys
  refine ⟨?_, ?_, ?_, fun note => ?_, ?_, ?_, ?_, ?_⟩
  · rw [hsplit]
    exact congrArg (_ ++ ·) h.measurements
  · rw [hsplit]
    exact congrArg (_ ++ ·) h.events
  · rw [hsplit]
    simp only [Facts.raw, Facts.rawMs, factsOf, Option.bind_some, horigin, horigin',
      Option.getD_some, List.flatMap_cons, measurements_append, events_append, List.map_append,
      hmeasurements, hevents]
  · rw [mem_coverage_factsOf, hsplit, notes_append, List.mem_append, List.exists_mem_cons_iff,
      mem_coverage_factsOf, ← h.coverage note, mem_coverage_factsOf]
  · rw [hsplit]
    show (factsOf (run baseMs (run baseMs carry xs).carry ys)).carry = _
    rw [h.carry, lastCarry_cons]
    rfl
  · rw [hsplit]
    exact congrArg (_ || ·) h.growth
  · rw [hsplit]
    exact congrArg (_ || ·) h.reconnected
  · rw [hsplit]
    exact congrArg (_ || ·) h.routeChanged

/-- **Resumed segments** derive what the loop over all of them does. -/
theorem folds_resumed (h : carry.Resumes baseMs) (segments : List (List Member)) :
    Folds (factsOf (run baseMs carry (normalizeSnapshots segments.flatten)))
      (analyzeSegments (some carry) segments) (some carry) := by
  induction segments generalizing carry with
  | nil => exact ⟨rfl, rfl, rfl, by simp [analyzeSegments, factsOf, normalizeSnapshots, run,
      coverageLedger, Emitted.none], rfl, rfl, rfl, rfl⟩
  | cons segment segments ih =>
    rw [List.flatten_cons, normalizeSnapshots_append]
    unfold analyzeSegments
    dsimp only
    by_cases hempty : normalizeSnapshots segment = []
    · rw [analyze_nil hempty, hempty, List.nil_append]
      exact (ih h).cons_empty
    · rw [analyze_resumes h hempty]
      exact Folds.cons (.inr h) (ih (run_resumes (.inr h)))

/-- The first segment with a valid snapshot has the earliest reading. -/
def EarliestFirst (segments : List (List Member)) : Prop :=
  ∀ segment, segments.find? (fun segment => !(normalizeSnapshots segment).isEmpty) = some segment →
    ∃ t ∈ (normalizeSnapshots segment).map (·.1),
      ∀ x ∈ normalizeSnapshots segments.flatten, t ≤ x.1

/-- **Folding through the carry is one derivation**, where the first segment
with a valid snapshot has the earliest reading. -/
theorem folds_segments (segments : List (List Member)) (h : EarliestFirst segments) :
    Folds (analyzeWebrtcStats segments.flatten none) (analyzeSegments none segments) none := by
  induction segments with
  | nil => exact folds_nil none
  | cons segment segments ih =>
    unfold analyzeSegments
    dsimp only
    cases hsegment : normalizeSnapshots segment with
    | nil =>
      have hflatten : normalizeSnapshots (segment :: segments).flatten =
          normalizeSnapshots segments.flatten := by
        rw [List.flatten_cons, normalizeSnapshots_append, hsegment, List.nil_append]
      have hwhole : analyzeWebrtcStats (segment :: segments).flatten none =
          analyzeWebrtcStats segments.flatten none := by
        unfold analyzeWebrtcStats
        rw [hflatten]
      rw [hwhole, analyze_nil hsegment]
      refine (ih fun other hother => ?_).cons_empty
      rw [← hflatten]
      refine h other ?_
      rw [List.find?_cons_of_neg (by simp [hsegment])]
      exact hother
    | cons first rest =>
      have hearliest := h segment (List.find?_cons_of_pos (by simp [hsegment]))
      have hflatten : normalizeSnapshots (segment :: segments).flatten =
          first :: (rest ++ normalizeSnapshots segments.flatten) := by
        rw [List.flatten_cons, normalizeSnapshots_append, hsegment]
        rfl
      rw [hflatten, hsegment] at hearliest
      rw [analyze_first hsegment, analyze_first hflatten, earliest_append hearliest]
      have hresumes : (run (earliest first rest) (.fresh (earliest first rest))
          (first :: rest)).carry.Resumes (earliest first rest) := run_resumes (.inl (by simp))
      have hfolds := Folds.cons (.inl (by simp)) (folds_resumed hresumes segments)
      refine ⟨hfolds.measurements, hfolds.events, hfolds.raw, hfolds.coverage, ?_, hfolds.growth,
        hfolds.reconnected, hfolds.routeChanged⟩
      rw [← List.cons_append, hfolds.carry, lastCarry_cons, lastCarry_cons]
      rfl

/-- One reading of one inbound stream. -/
def inboundSnapshot (timestamp received lost : ℚ) : Member :=
  .mapping [(some "timestamp_ms", .number timestamp),
    (some "stats", .mapping [(some "a", .mapping [(some "type", .text "inbound-rtp"),
      (some "packetsReceived", .number received), (some "packetsLost", .number lost)])])]

/-- The interval across a boundary is derived once, from the carry. -/
theorem folds_segments_boundary :
    Folds (analyzeWebrtcStats [.other, inboundSnapshot 5 10 0, inboundSnapshot 7 19 1] none)
      (analyzeSegments none [[.other], [inboundSnapshot 5 10 0], [inboundSnapshot 7 19 1]])
      none := by
  refine folds_segments [[.other], [inboundSnapshot 5 10 0], [inboundSnapshot 7 19 1]] ?_
  intro segment hsegment
  have heq : segment = [inboundSnapshot 5 10 0] := by
    simpa [normalizeSnapshots, normalizeSnapshot, inboundSnapshot, number, member]
      using hsegment.symm
  rw [heq]
  refine ⟨5, by simp [normalizeSnapshots, normalizeSnapshot, inboundSnapshot, number, member],
    fun x hx => ?_⟩
  have hms : x.1 = 5 ∨ x.1 = 7 := by
    simp [normalizeSnapshots, normalizeSnapshot, inboundSnapshot, number, member] at hx
    rcases hx with rfl | rfl
    · exact .inl rfl
    · exact .inr rfl
  rcases hms with hms | hms
  · exact hms.ge
  · rw [hms]
    decide

end WebRtc

end Earshot
