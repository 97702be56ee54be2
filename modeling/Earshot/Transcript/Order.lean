import Earshot.Common.Run
import Earshot.Transcript.Lines
/-!
# One order of a transcript's lines

The effective start of a line with an index is the greatest start among the
lines of its trace up to it in the provider's order. That is no matter of the
order the lines came in, and it grows along the provider's order, so sorting
by it keeps that order within a trace.
-/

namespace Earshot.Transcript

open Bisect Grouping PageCursor

/-! ## Stored lines -/

theorem codesOf_injective {s t : String} (h : codesOf s = codesOf t) : s = t :=
  String.toList_inj.mp (List.map_injective_iff.mpr (fun _ _ => Char.toNat_inj.mp) h)

theorem textOf_codesOf (s : String) : textOf (codesOf s) = some s := by
  have hvalid : (codesOf s).all (fun n => decide n.isValidChar) = true := by
    refine List.all_eq_true.mpr fun n hn => ?_
    obtain ⟨c, -, rfl⟩ := List.mem_map.mp hn
    exact decide_eq_true c.valid
  rw [textOf, if_pos hvalid, codesOf, map_ofNat_toNat, String.ofList_toList]

theorem getEntry_loaded (document : List (String × Scalar)) (key : String) :
    getEntry (document.map fun entry => (codesOf entry.1, entry.2.loaded)) key =
      (document.reverse.lookup key).map Scalar.loaded := by
  rw [getEntry, ← List.map_reverse]
  induction document.reverse with
  | nil => rfl
  | cons entry entries ih =>
    rw [List.map_cons, List.lookup_cons, List.lookup_cons]
    by_cases heq : key = entry.1
    · subst heq
      simp [codesOf]
    · have hcodes : key.toList.map Char.toNat ≠ codesOf entry.1 := fun h =>
        heq (codesOf_injective h)
      rw [beq_false_of_ne heq, beq_false_of_ne hcodes]
      exact ih

theorem timingOf_name (timing : Timing) : timingOf timing.name = some timing := by
  cases timing <;> decide

/-- **A line is read back from its document.** -/
theorem storedTranscriptLine_lineDocument (speaker text : String) (timing : Timing)
    (index : Option ℕ) (startUnixNano endUnixNano : ℕ) (traceId spanId : String) :
    storedTranscriptLine (String.ofList (dumpsObject (lineDocument speaker text timing index)))
        startUnixNano endUnixNano traceId spanId =
      some { speaker, text, startUnixNano, endUnixNano, traceId, spanId, timing
             transcriptIndex := index } := by
  have hne : lineDocument speaker text timing index ≠ [] := List.cons_ne_nil _ _
  have hspeaker : (lineDocument speaker text timing index).reverse.lookup "speaker" =
      some (.str speaker) := by
    cases timing <;> cases index <;> rfl
  have htext : (lineDocument speaker text timing index).reverse.lookup "text" =
      some (.str text) := by
    cases timing <;> cases index <;> rfl
  have hindex : (lineDocument speaker text timing index).reverse.lookup "index" =
      index.map Scalar.nat := by
    cases timing <;> cases index <;> rfl
  have htiming : (lineDocument speaker text timing index).reverse.lookup "timing" =
      if timing = .measured then none else some (.str timing.name) := by
    cases timing <;> cases index <;> rfl
  have hget := getEntry_loaded (lineDocument speaker text timing index)
  rw [storedTranscriptLine, String.toList_ofList, loadsObject_dumpsObject hne]
  generalize (lineDocument speaker text timing index).map _ = line at hget ⊢
  have hspeaker' := hget "speaker"
  have htext' := hget "text"
  have hindex' := hget "index"
  have htiming' := hget "timing"
  rw [hspeaker] at hspeaker'
  rw [htext] at htext'
  rw [hindex] at hindex'
  rw [htiming] at htiming'
  simp only [Option.bind_eq_bind, Option.bind_some, stringEntry, hspeaker', htext', hindex',
    htiming', Option.map_some, Scalar.loaded, textOf_codesOf]
  congr 2
  · by_cases hmeasured : timing = .measured
    · rw [if_pos hmeasured, hmeasured]
      rfl
    · rw [if_neg hmeasured]
      simp only [Option.map_some, Scalar.loaded, textOf_codesOf, Option.bind_some, timingOf_name,
        Option.getD_some]
  · cases index with
    | none => rfl
    | some n => simp [Scalar.loaded]

/-- **What is read back from a span's stored text is the span's line.** -/
theorem storedLineOf_eq (span : OtlpSpan) : storedLineOf span = lineOf span := by
  unfold storedLineOf lineOf transcriptTextJson
  cases transcriptText span with
  | error => rfl
  | ok line =>
    cases line with
    | none => rfl
    | some line =>
      have hline := storedTranscriptLine_lineDocument line.1 line.2 (transcriptMetadata span).1
        (transcriptMetadata span).2 span.startTimeUnixNano span.endTimeUnixNano span.traceId
        span.spanId
      simp only [Except.map, Option.map_some, Option.bind_some, hline]

/-! ## Effective starts -/

variable {lines lines' : List TranscriptLine} {line other : TranscriptLine}

/-- No two of a call's lines come from one span. -/
def Distinct (lines : List TranscriptLine) : Prop := (lines.map TranscriptLine.key).Nodup

theorem Distinct.eq (h : Distinct lines) (hline : line ∈ lines) (hother : other ∈ lines)
    (hkey : line.key = other.key) : line = other :=
  List.inj_on_of_nodup_map h hline hother hkey

theorem Distinct.perm (h : Distinct lines) (hperm : lines'.Perm lines) : Distinct lines' :=
  (hperm.map _).nodup_iff.mpr h

theorem Distinct.filter (h : Distinct lines) (p : TranscriptLine → Bool) :
    Distinct (lines.filter p) :=
  (List.filter_sublist.map _).nodup h

theorem Distinct.filter_key (h : Distinct lines) (hline : line ∈ lines) :
    lines.filter (fun other => other.key = line.key) = [line] := by
  induction lines with
  | nil => exact absurd hline List.not_mem_nil
  | cons first lines ih =>
    obtain ⟨hnot, hlines⟩ := List.nodup_cons.mp h
    rcases List.mem_cons.mp hline with rfl | hmem
    · rw [List.filter_cons, if_pos (decide_eq_true rfl), List.filter_eq_nil_iff.mpr]
      exact fun other hother hkey => hnot (List.mem_map.mpr ⟨other, hother, of_decide_eq_true hkey⟩)
    · rw [List.filter_cons, if_neg, ih hlines hmem]
      exact fun hkey => hnot (List.mem_map.mpr ⟨line, hmem, (of_decide_eq_true hkey).symm⟩)

/-- The greatest start of some lines. -/
def greatestStart (lines : List TranscriptLine) : ℕ :=
  (lines.map TranscriptLine.startUnixNano).foldr max 0

/-- The lines of the trace up to one in the provider's order. -/
def upTo (lines : List TranscriptLine) (line : TranscriptLine) : List TranscriptLine :=
  lines.filter fun other => other.traceId = line.traceId ∧
    other.transcriptIndex.isSome = true ∧ other.indexKey ≤ line.indexKey

theorem greatestStart_le {n : ℕ} :
    greatestStart lines ≤ n ↔ ∀ line ∈ lines, line.startUnixNano ≤ n := by
  induction lines with
  | nil => exact ⟨fun _ _ h => absurd h List.not_mem_nil, fun _ => Nat.zero_le _⟩
  | cons line lines ih =>
    rw [List.forall_mem_cons, ← ih]
    exact max_le_iff

theorem start_le_greatestStart (h : line ∈ lines) : line.startUnixNano ≤ greatestStart lines :=
  greatestStart_le.mp le_rfl line h

theorem greatestStart_mono (h : ∀ line ∈ lines, line ∈ lines') :
    greatestStart lines ≤ greatestStart lines' :=
  greatestStart_le.mpr fun line hline => start_le_greatestStart (h line hline)

theorem greatestStart_perm (h : lines.Perm lines') : greatestStart lines = greatestStart lines' :=
  le_antisymm (greatestStart_mono fun _ => h.mem_iff.mp)
    (greatestStart_mono fun _ => h.mem_iff.mpr)

theorem keys_runningStarts (previousStart : Option ℕ) :
    (runningStarts previousStart lines).map Prod.fst = lines.map TranscriptLine.key := by
  induction lines generalizing previousStart with
  | nil => rfl
  | cons line lines ih =>
    rw [runningStarts, List.map_cons, List.map_cons, ih]

/-- Along the provider's order the running maximum of a line is the greatest
start up to it. -/
theorem runningStarts_eq (previousStart : Option ℕ)
    (h : lines.Pairwise fun a b => a.indexKey < b.indexKey) :
    runningStarts previousStart lines = lines.map fun line =>
      (line.key, max (previousStart.getD 0)
        (greatestStart (lines.filter (·.indexKey ≤ line.indexKey)))) := by
  induction lines generalizing previousStart with
  | nil => rfl
  | cons line lines ih =>
    obtain ⟨hlt, hlines⟩ := List.pairwise_cons.mp h
    have hstart : previousStart.elim line.startUnixNano (max line.startUnixNano) =
        max (previousStart.getD 0) line.startUnixNano := by
      cases previousStart with
      | none => exact (Nat.zero_max _).symm
      | some start => exact max_comm _ _
    have hfirst : (line :: lines).filter (·.indexKey ≤ line.indexKey) = [line] := by
      rw [List.filter_cons, if_pos (decide_eq_true le_rfl),
        List.filter_eq_nil_iff.mpr fun other hother hle =>
          absurd (of_decide_eq_true hle) (not_le.mpr (hlt other hother))]
    rw [runningStarts, ih _ hlines, List.map_cons, hfirst, hstart]
    refine congrArg₂ _ (Prod.ext rfl ?_) (List.map_congr_left fun other hother => Prod.ext rfl ?_)
    · exact congrArg (max (previousStart.getD 0)) (Nat.max_zero _).symm
    · rw [List.filter_cons, if_pos (decide_eq_true (hlt other hother).le)]
      exact max_assoc _ _ _

theorem pairwise_indexKey {trace : String} (h : Distinct lines)
    (htrace : ∀ line ∈ lines, line.traceId = trace) :
    (sortedBy TranscriptLine.indexKey lines).Pairwise fun a b => a.indexKey < b.indexKey := by
  have hnodup : (sortedBy TranscriptLine.indexKey lines).Nodup :=
    perm_sortedBy.nodup_iff.mpr (List.Nodup.of_map _ h)
  refine (List.Pairwise.and_mem.mp (pairwise_sortedBy TranscriptLine.indexKey lines)).imp₂ ?_ hnodup
  rintro a b ⟨ha, hb, hle⟩ hne
  refine lt_of_le_of_ne hle fun heq => hne (h.eq (mem_sortedBy.mp ha) (mem_sortedBy.mp hb) ?_)
  exact Prod.ext ((htrace a (mem_sortedBy.mp ha)).trans (htrace b (mem_sortedBy.mp hb)).symm)
    (Prod.ext_iff.mp (toLex_inj.mp heq)).2

/-- **The effective start of a line with an index** is the greatest start of
its trace up to it in the provider's order; a line without one has its own. -/
theorem effectiveStart?_eq (h : Distinct lines) (hline : line ∈ lines) :
    effectiveStart? lines line =
      if line.transcriptIndex.isSome then some (greatestStart (upTo lines line)) else none := by
  have hgroup : ∀ trace, ∀ other ∈ (lines.filter (·.transcriptIndex.isSome)).filter
      (·.traceId = trace), other ∈ lines ∧ other.transcriptIndex.isSome = true ∧
        other.traceId = trace := by
    intro trace other hother
    obtain ⟨hmem, htrace⟩ := List.mem_filter.mp hother
    obtain ⟨hmem, hindex⟩ := List.mem_filter.mp hmem
    exact ⟨hmem, hindex, of_decide_eq_true htrace⟩
  rw [effectiveStart?, effectiveStarts, filter_flatMap_groupBy (k := line.traceId)]
  · set group := (lines.filter (·.transcriptIndex.isSome)).filter (·.traceId = line.traceId)
      with hdef
    have hdistinct : Distinct group := (h.filter _).filter _
    have hkeep : ∀ keep : TranscriptLine → Bool,
        ((sortedBy TranscriptLine.indexKey group).filter keep).Perm (group.filter keep) :=
      fun keep => perm_sortedBy.filter keep
    rw [runningStarts_eq none (pairwise_indexKey hdistinct fun other hother =>
      (hgroup _ other hother).2.2), List.filter_map]
    by_cases hindex : line.transcriptIndex.isSome = true
    · have hmem : line ∈ group := List.mem_filter.mpr
        ⟨List.mem_filter.mpr ⟨hline, hindex⟩, decide_eq_true rfl⟩
      have hone : (sortedBy TranscriptLine.indexKey group).filter (fun other =>
          other.key = line.key) = [line] := by
        have hperm := hkeep fun other => other.key = line.key
        rw [hdistinct.filter_key hmem] at hperm
        exact List.perm_singleton.mp hperm
      have hupTo : group.filter (fun other => other.indexKey ≤ line.indexKey) =
          upTo lines line := by
        rw [hdef, List.filter_filter, List.filter_filter, upTo]
        refine List.filter_congr fun other _ => ?_
        rw [Bool.eq_iff_iff]
        simp only [Bool.and_eq_true, decide_eq_true_eq]
        exact ⟨fun h => ⟨h.1.2, h.2, h.1.1⟩, fun h => ⟨⟨h.2.2, h.1⟩, h.2.1⟩⟩
      have hstart := greatestStart_perm (hkeep fun other => other.indexKey ≤ line.indexKey)
      rw [hupTo] at hstart
      rw [if_pos hindex, if_neg (List.ne_nil_of_mem hmem)]
      refine (congrArg (fun found : List TranscriptLine =>
        ((found.map _).getLast?).map Prod.snd) hone).trans ?_
      refine congrArg some ?_
      exact (Nat.zero_max _).trans hstart
    · rw [if_neg hindex]
      have hnone : (sortedBy TranscriptLine.indexKey group).filter (fun other =>
          other.key = line.key) = [] := by
        refine List.filter_eq_nil_iff.mpr fun other hother hkey => hindex ?_
        obtain ⟨hmem, hsome, -⟩ := hgroup _ other (mem_sortedBy.mp hother)
        rw [← h.eq hmem hline (of_decide_eq_true hkey)]
        exact hsome
      split
      · rfl
      · exact congrArg (fun found : List TranscriptLine =>
          ((found.map _).getLast?).map Prod.snd) hnone
  · intro trace entry hentry hkey
    have hmem : entry.1 ∈ (sortedBy TranscriptLine.indexKey
        ((lines.filter (·.transcriptIndex.isSome)).filter (·.traceId = trace))).map
          TranscriptLine.key := by
      rw [← keys_runningStarts none]
      exact List.mem_map_of_mem hentry
    obtain ⟨other, hother, heq⟩ := List.mem_map.mp hmem
    rw [of_decide_eq_true hkey] at heq
    rw [← (hgroup trace other (mem_sortedBy.mp hother)).2.2]
    exact congrArg Prod.fst heq

/-! ## The order -/

/-- The sort key of a line among the lines of its call. -/
def orderKey (lines : List TranscriptLine) (line : TranscriptLine) :
    ℕ ×ₗ String ×ₗ ℕ ×ₗ ℕ ×ₗ String :=
  transcriptOrder line (effectiveStart? lines line)

theorem key_of_orderKey (h : orderKey lines line = orderKey lines' other) :
    line.key = other.key := by
  obtain ⟨-, h⟩ := Prod.ext_iff.mp (toLex_inj.mp h)
  obtain ⟨htrace, h⟩ := Prod.ext_iff.mp (toLex_inj.mp h)
  obtain ⟨-, h⟩ := Prod.ext_iff.mp (toLex_inj.mp h)
  obtain ⟨-, hspan⟩ := Prod.ext_iff.mp (toLex_inj.mp h)
  exact Prod.ext htrace hspan

theorem orderKey_perm (h : Distinct lines) (hperm : lines'.Perm lines) (hline : line ∈ lines) :
    orderKey lines' line = orderKey lines line := by
  rw [orderKey, orderKey, effectiveStart?_eq h hline,
    effectiveStart?_eq (h.perm hperm) (hperm.mem_iff.mpr hline),
    greatestStart_perm (show (upTo lines' line).Perm (upTo lines line) from hperm.filter _)]

/-- **The order is no matter of the order the lines came in.** -/
theorem orderedTranscriptLines_perm (h : Distinct lines) (hperm : lines'.Perm lines) :
    orderedTranscriptLines lines' = orderedTranscriptLines lines := by
  have hsorted : (orderedTranscriptLines lines).Pairwise
      fun a b => orderKey lines a ≤ orderKey lines b := pairwise_sortedBy _ _
  have hsorted' : (orderedTranscriptLines lines').Pairwise
      fun a b => orderKey lines a ≤ orderKey lines b := by
    refine List.Pairwise.imp_of_mem ?_ (pairwise_sortedBy (orderKey lines') lines')
    intro a b ha hb hab
    rwa [orderKey_perm h hperm (hperm.mem_iff.mp (mem_sortedBy.mp ha)),
      orderKey_perm h hperm (hperm.mem_iff.mp (mem_sortedBy.mp hb))] at hab
  refine List.Perm.eq_of_pairwise (fun a b ha hb hab hba => ?_) hsorted' hsorted
    ((perm_sortedBy.trans hperm).trans perm_sortedBy.symm)
  refine h.eq (hperm.mem_iff.mp (mem_sortedBy.mp ha)) (mem_sortedBy.mp hb) ?_
  exact key_of_orderKey (le_antisymm hab hba)

/-- What the lexicographic order says of two lines of one trace. -/
theorem transcriptOrder_le {start start' : Option ℕ} (htrace : line.traceId = other.traceId)
    (hindex : line.transcriptIndex.isSome = other.transcriptIndex.isSome)
    (h : transcriptOrder line start ≤ transcriptOrder other start') :
    start.getD line.startUnixNano < start'.getD other.startUnixNano ∨
      start.getD line.startUnixNano = start'.getD other.startUnixNano ∧
        line.indexKey ≤ other.indexKey := by
  rcases Prod.Lex.toLex_le_toLex.mp h with hlt | ⟨heq, h⟩
  · exact Or.inl hlt
  · refine Or.inr ⟨heq, ?_⟩
    rcases Prod.Lex.toLex_le_toLex.mp h with hlt | ⟨-, h⟩
    · exact absurd hlt (htrace ▸ lt_irrefl _)
    · rcases Prod.Lex.toLex_le_toLex.mp h with hlt | ⟨-, h⟩
      · rw [hindex] at hlt
        exact absurd hlt (lt_irrefl _)
      · exact h

/-- What of an ordered transcript's lines is asked of each pair, in turn. -/
theorem pairwise_ordered {p : TranscriptLine → Bool} {r : TranscriptLine → TranscriptLine → Prop}
    (h : Distinct lines)
    (hr : ∀ a b, a ∈ lines → b ∈ lines → p a = true → p b = true → a ≠ b →
      orderKey lines a ≤ orderKey lines b → r a b) :
    ((orderedTranscriptLines lines).filter p).Pairwise r := by
  have hnodup : (orderedTranscriptLines lines).Nodup :=
    perm_sortedBy.nodup_iff.mpr (List.Nodup.of_map _ h)
  have hpairs := List.Pairwise.and_mem.mp ((pairwise_sortedBy (orderKey lines) lines).filter p)
  refine hpairs.imp₂ ?_ (hnodup.filter p)
  rintro a b ⟨ha, hb, hle⟩ hne
  obtain ⟨ha, hpa⟩ := List.mem_filter.mp ha
  obtain ⟨hb, hpb⟩ := List.mem_filter.mp hb
  exact hr a b (mem_sortedBy.mp ha) (mem_sortedBy.mp hb) hpa hpb hne hle

/-- **Lines with an index stand in the provider's order** within their trace,
whatever their times. -/
theorem indexed_orderedTranscriptLines (h : Distinct lines) (trace : String) :
    ((orderedTranscriptLines lines).filter fun line =>
      line.traceId = trace ∧ line.transcriptIndex.isSome = true).Pairwise
        fun a b => a.indexKey < b.indexKey := by
  refine pairwise_ordered h fun a b ha hb hpa hpb hne hle => ?_
  obtain ⟨htraceA, hindexA⟩ := of_decide_eq_true hpa
  obtain ⟨htraceB, hindexB⟩ := of_decide_eq_true hpb
  have htrace := htraceA.trans htraceB.symm
  by_contra hnot
  have hba := not_lt.mp hnot
  -- the later line's effective start covers the earlier one's
  have hstart : greatestStart (upTo lines b) ≤ greatestStart (upTo lines a) := by
    refine greatestStart_mono fun other hother => ?_
    obtain ⟨hmem, hp⟩ := List.mem_filter.mp hother
    obtain ⟨htrace', hindex', hle'⟩ := of_decide_eq_true hp
    exact List.mem_filter.mpr ⟨hmem, decide_eq_true
      ⟨htrace'.trans htrace.symm, hindex', hle'.trans hba⟩⟩
  rw [orderKey, orderKey, effectiveStart?_eq h ha, effectiveStart?_eq h hb, if_pos hindexA,
    if_pos hindexB] at hle
  rcases transcriptOrder_le htrace (hindexA.trans hindexB.symm) hle with hlt | ⟨-, hab⟩
  · exact absurd hlt (not_lt.mpr hstart)
  · refine hne (h.eq ha hb (Prod.ext htrace ?_))
    exact (Prod.ext_iff.mp (toLex_inj.mp (le_antisymm hab hba))).2

/-- **Lines without one stand in the order of their starts.** -/
theorem unindexed_orderedTranscriptLines (h : Distinct lines) (trace : String) :
    ((orderedTranscriptLines lines).filter fun line =>
      line.traceId = trace ∧ line.transcriptIndex = none).Pairwise
        fun a b => a.startUnixNano ≤ b.startUnixNano := by
  refine pairwise_ordered h fun a b ha hb hpa hpb _ hle => ?_
  obtain ⟨htraceA, hindexA⟩ := of_decide_eq_true hpa
  obtain ⟨htraceB, hindexB⟩ := of_decide_eq_true hpb
  rw [orderKey, orderKey, effectiveStart?_eq h ha, effectiveStart?_eq h hb, hindexA, hindexB] at hle
  rcases transcriptOrder_le (htraceA.trans htraceB.symm) (by rw [hindexA, hindexB]) hle with
    hlt | ⟨heq, -⟩
  · exact hlt.le
  · exact heq.le

/-! ## What reading a span raises -/

/-- The span has a line whose speaker is a list or a dictionary, which cannot
be looked up in a set. -/
def OtlpSpan.NamesNoSpeaker (span : OtlpSpan) : Prop :=
  lineSource span = some (none, ["earshot.connector.transcript.text"]) ∧
    (∃ text, attributeValue span.attributes ["earshot.connector.transcript.text"] =
      some (.string text) ∧ isBlankText (withoutNul text) = false) ∧
    (attributeValue span.attributes [CONNECTOR_TRANSCRIPT_SPEAKER] = some .array ∨
      attributeValue span.attributes [CONNECTOR_TRANSCRIPT_SPEAKER] = some .kvlist)

/-- A source that does not say who speaks is a connector's or an upload's. -/
theorem lineSource_none {span : OtlpSpan} {attributes : List String}
    (h : lineSource span = some (none, attributes)) :
    attributes = ["earshot.connector.transcript.text"] ∧ span.scopeName ≠ HOST_SCOPE := by
  unfold lineSource at h
  split at h
  · cases h
  · split at h
    · next hconnector =>
      obtain rfl := (Prod.ext_iff.mp (Option.some.inj h)).2
      refine ⟨rfl, fun hscope => ?_⟩
      rw [hscope] at hconnector
      rcases hconnector.2 with h | h
      · exact absurd h (by decide)
      · exact absurd h (by decide +kernel)
    · split_ifs at h <;> cases h

/-- **Reading a span raises** exactly when it names no speaker. -/
theorem transcriptText_raises (span : OtlpSpan) :
    (∃ raised, transcriptText span = .error raised) ↔ span.NamesNoSpeaker := by
  constructor
  · rintro ⟨raised, h⟩
    unfold transcriptText at h
    split at h
    · cases h
    · next speaker attributes hsource =>
      split at h
      · cases h
      · split at h
        · next text htext =>
          split at h
          · cases h
          · dsimp only at h
            split at h
            · cases h
            · next hblank =>
              split at h
              · cases h
              · obtain ⟨rfl, -⟩ := lineSource_none hsource
                refine ⟨hsource, ⟨text, htext, Bool.not_eq_true _ ▸ hblank⟩, ?_⟩
                split at h
                · split at h <;> cases h
                · next harray => exact Or.inl harray
                · next hkvlist => exact Or.inr hkvlist
                · cases h
        · cases h
  · rintro ⟨hsource, ⟨text, htext, hblank⟩, hspeaker⟩
    have hhost := (lineSource_none hsource).2
    refine ⟨.typeError, ?_⟩
    unfold transcriptText
    rw [hsource]
    dsimp only
    rw [if_neg fun h => hhost h.1, htext]
    dsimp only
    rw [if_neg fun h => hhost h.1, hblank, if_neg Bool.false_ne_true]
    rcases hspeaker with h | h
    · rw [h]
    · rw [h]

/-! ## The transcript of a call's spans -/

variable {spans : List OtlpSpan}

/-- The line of a span, if it has one. -/
def OtlpSpan.line? (span : OtlpSpan) : Option TranscriptLine :=
  match lineOf span with
  | .ok line => line
  | .error _ => none

/-- What the transcript of some spans is, however they are read. -/
structure Transcribes (spans : List OtlpSpan) (lines : List TranscriptLine) : Prop where
  /-- The lines are the spans', each once. -/
  perm : ∃ found, spans.mapM lineOf = .ok found ∧ lines.Perm (found.filterMap id)
  indexed : ∀ trace, (lines.filter fun line =>
    line.traceId = trace ∧ line.transcriptIndex.isSome = true).Pairwise
      fun a b => a.indexKey < b.indexKey
  unindexed : ∀ trace, (lines.filter fun line =>
    line.traceId = trace ∧ line.transcriptIndex = none).Pairwise
      fun a b => a.startUnixNano ≤ b.startUnixNano
  /-- Another order of the spans makes no difference. -/
  anyOrder : ∀ spans', spans'.Perm spans → transcriptLines spans' = .ok lines
  /-- What is read from the stored texts is the same. -/
  stored : storedTranscriptLines spans = .ok lines

theorem mapM_lineOf (h : ∀ span ∈ spans, ¬ span.NamesNoSpeaker) :
    spans.mapM lineOf = .ok (spans.map OtlpSpan.line?) := by
  induction spans with
  | nil => rfl
  | cons span spans ih =>
    obtain ⟨hspan, hspans⟩ := List.forall_mem_cons.mp h
    have hline : lineOf span = .ok span.line? := by
      unfold OtlpSpan.line?
      cases hline : lineOf span with
      | ok line => rfl
      | error raised =>
        unfold lineOf at hline
        cases htext : transcriptText span with
        | ok text =>
          rw [htext] at hline
          cases hline
        | error raised => exact absurd ((transcriptText_raises span).mp ⟨raised, htext⟩) hspan
    rw [List.mapM_cons, hline, ih hspans]
    rfl

theorem mapM_lineOf_raises {span : OtlpSpan} (hmem : span ∈ spans) (h : span.NamesNoSpeaker)
    (found : List (Option TranscriptLine)) : spans.mapM lineOf ≠ .ok found := by
  intro hfound
  obtain ⟨raised, hraised⟩ := (transcriptText_raises span).mpr h
  obtain ⟨line, hline⟩ := Transition.exists_mapM_ok.mp ⟨found, hfound⟩ span hmem
  rw [lineOf, hraised] at hline
  cases hline

theorem key_of_line? {span : OtlpSpan} (h : span.line? = some line) :
    line.key = (span.traceId, span.spanId) := by
  unfold OtlpSpan.line? lineOf at h
  cases htext : transcriptText span with
  | error raised =>
    rw [htext] at h
    cases h
  | ok text =>
    rw [htext] at h
    obtain ⟨found, -, rfl⟩ := Option.map_eq_some_iff.mp h
    rfl

theorem distinct_lines (h : (spans.map fun span => (span.traceId, span.spanId)).Nodup) :
    Distinct ((spans.map OtlpSpan.line?).filterMap id) := by
  rw [List.filterMap_map, Distinct, List.Nodup, List.pairwise_map, List.pairwise_filterMap]
  refine (List.pairwise_map.mp h).imp fun hne line hline line' hline' hkey => hne ?_
  rw [← key_of_line? hline, ← key_of_line? hline', hkey]

theorem storedTranscriptLines_eq (spans : List OtlpSpan) :
    storedTranscriptLines spans = transcriptLines spans := by
  rw [storedTranscriptLines, transcriptLines, funext storedLineOf_eq]

/-- **The transcript of some spans** is their lines in one order, on both ways
it is read, exactly when each line's speaker can be looked up. -/
theorem transcribes_iff (h : (spans.map fun span => (span.traceId, span.spanId)).Nodup) :
    (∃ lines, transcriptLines spans = .ok lines ∧ Transcribes spans lines) ↔
      ∀ span ∈ spans, ¬ span.NamesNoSpeaker := by
  constructor
  · rintro ⟨lines, -, ⟨found, hfound, -⟩, -⟩ span hspan hnames
    exact mapM_lineOf_raises hspan hnames found hfound
  · intro hnames
    have hdistinct := distinct_lines h
    have hlines : ∀ spans', spans'.Perm spans → transcriptLines spans' =
        .ok (orderedTranscriptLines ((spans.map OtlpSpan.line?).filterMap id)) := by
      intro spans' hperm
      rw [transcriptLines, mapM_lineOf fun span hspan => hnames span (hperm.mem_iff.mp hspan)]
      exact congrArg Except.ok
        (orderedTranscriptLines_perm hdistinct ((hperm.map _).filterMap _))
    exact ⟨_, hlines spans (List.Perm.refl _),
      { perm := ⟨_, mapM_lineOf hnames, perm_sortedBy⟩
        indexed := indexed_orderedTranscriptLines hdistinct
        unindexed := unindexed_orderedTranscriptLines hdistinct
        anyOrder := hlines
        stored := (storedTranscriptLines_eq spans).trans (hlines spans (List.Perm.refl _)) }⟩

/-- A line of an upload whose speaker is a list. -/
def unspokenSpan : OtlpSpan :=
  { scopeName := UPLOAD_SCOPE, scopeVersion := "", name := CONNECTOR_TRANSCRIPT_SPAN
    traceId := "01", spanId := "02", startTimeUnixNano := 0, endTimeUnixNano := 1
    attributes := [("earshot.connector.transcript.text", .string "hello"),
      (CONNECTOR_TRANSCRIPT_SPEAKER, .array)] }

/-- **A speaker that is a list is not refused but raised on.** -/
theorem not_transcribes_unspokenSpan :
    ¬ ∃ lines, transcriptLines [unspokenSpan] = .ok lines ∧ Transcribes [unspokenSpan] lines := by
  rintro ⟨lines, hlines, -⟩
  have hraises : transcriptLines [unspokenSpan] = .error .typeError := by decide +kernel
  rw [hraises] at hlines
  cases hlines

/-- The same line with a speaker. -/
def spokenSpan : OtlpSpan :=
  { unspokenSpan with
    attributes := [("earshot.connector.transcript.text", .string "hello"),
      (CONNECTOR_TRANSCRIPT_SPEAKER, .string "user")] }

/-- Lines of an upload in no order, two of them with an index, and a span that
has no line. -/
def spokenSpans : List OtlpSpan :=
  [{ spokenSpan with
      spanId := "03"
      attributes := (CONNECTOR_TRANSCRIPT_INDEX, .int 1) :: spokenSpan.attributes },
    { spokenSpan with spanId := "04", startTimeUnixNano := 5 },
    { spokenSpan with spanId := "05", name := "job_entrypoint" },
    { spokenSpan with
      spanId := "06"
      startTimeUnixNano := 9
      attributes := (CONNECTOR_TRANSCRIPT_INDEX, .int 0) :: spokenSpan.attributes },
    spokenSpan]

theorem transcribes_spokenSpans :
    ∃ lines, transcriptLines spokenSpans = .ok lines ∧ Transcribes spokenSpans lines := by
  have hspeaker : ∀ span ∈ spokenSpans,
      attributeValue span.attributes [CONNECTOR_TRANSCRIPT_SPEAKER] = some (.string "user") := by
    decide
  refine (transcribes_iff (by decide)).mpr fun span hspan hnames => ?_
  obtain ⟨-, -, hnames⟩ := hnames
  rw [hspeaker span hspan] at hnames
  rcases hnames with h | h
  · cases h
  · cases h

end Earshot.Transcript
