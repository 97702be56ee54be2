import Earshot.Recording.Calls
/-!
# What a call changes

A call of the recorder's operations notes values cut short, offers at most one
record, which is kept or counted, and changes nothing else that admission reads.
Every invariant of a recorder is read off this (`apply_change`).
-/

namespace Earshot.Recording

variable {ν β α : Type}

/-! ## Offers -/

/-- A record that a call offers for admission. -/
inductive Offer (ν : Type) where
  | record (kind : RecordKind) (draft : Draft ν)
  | omission (value : Omission)
  | coverage (value : Coverage)
  /-- Coverage in place of what its signal had. -/
  | supersede (index : ℕ) (value : Coverage)
  /-- What is not kept even where there is room. -/
  | never (kind : RecordKind)

def Offer.kind : Offer ν → RecordKind
  | .record kind _ => kind
  | .omission _ => .omission
  | .coverage _ => .coverage
  | .supersede _ _ => .coverage
  | .never kind => kind

/-- The lists with an offer kept. -/
def Kept.keep (k : Kept ν) : Offer ν → Kept ν
  | .record kind draft => k.add kind draft
  | .omission value => { k with omissions := k.omissions ++ [value] }
  | .coverage value => { k with coverage := k.coverage ++ [value] }
  | .supersede index value => { k with coverage := k.coverage.set index value }
  | .never _ => k

/-- What a preparation gives on an open recorder. -/
def prepared (C : RecorderConfig ν) (r : Recorder ν β) (prep : Prep ν α) : Option α :=
  if r.closed = true then none else (prep.run C true).1.toOption

/-- A record, unless its identity is there. -/
def offeredOnce (C : RecorderConfig ν) (r : Recorder ν β) (kind : RecordKind)
    (present : List (Record ν)) (prep : Prep ν (Draft ν)) : List (Offer ν) :=
  match prepared C r prep with
  | none => []
  | some draft =>
    if (present.find? (·.identity = draft.record.identity)).isSome = true then []
    else [.record kind draft]

def offeredRecord (C : RecorderConfig ν) (r : Recorder ν β) (kind : RecordKind)
    (prep : Prep ν (Draft ν)) : List (Offer ν) :=
  match prepared C r prep with
  | none => []
  | some draft => [.record kind draft]

/-- Coverage, unless its signal has a note that it does not supersede. -/
def offeredCoverage (r : Recorder ν β) (c : Coverage) : List (Offer ν) :=
  if r.closed = true then []
  else
    match r.coverage.findIdx? (·.signal = c.signal) with
    | none => [.coverage c]
    | some index =>
      match r.coverage[index]? with
      | none => []
      | some existing => if Session.Upgrades c existing then [.supersede index c] else []

/-- An adapter, unless it is there. -/
def offeredAdapter [DecidableEq ν] (C : RecorderConfig ν) (r : Recorder ν β)
    (prep : Prep ν (Draft ν)) : List (Offer ν) :=
  match prepared C r prep with
  | none => []
  | some draft =>
    if r.adapters.any (fun known => decide (known = draft.record)) = true then []
    else [.record .adapter { draft with omissions := [] }]

/-- The estimate `add_raw_otlp_chunk` counts. -/
def chunkSize (C : RecorderConfig ν) (payloadSize : ℕ) : ℕ :=
  min (C.maxCaptureBytes + 1) (payloadSize + 256)

/-- A chunk, or an omission where the policy keeps none. An ill-formed chunk is
looked at only where there is room. -/
def offeredChunk (C : RecorderConfig ν) (r : Recorder ν β) (signal : String) (payloadSize : ℕ)
    (chunk : Except Failure (Record ν)) : List (Offer ν) :=
  if r.closed = true then []
  else if C.allows .rawOtlp = false then
    [.omission ⟨C.sha256 ("otlp:" ++ signal), .rawOtlp, "capture_class_disabled"⟩]
  else
    match chunk with
    | .ok chunk => [.record .rawOtlp ⟨chunk, [], {Privacy.CaptureClass.rawOtlp}, .rawOtlp,
        chunkSize C payloadSize⟩]
    | .error _ =>
      if (Session.refusal C r (chunkSize C payloadSize) payloadSize).isSome = true then
        [.never .rawOtlp]
      else []

/-- A media reference, or an omission where the policy keeps no audio. -/
def offeredMedia (C : RecorderConfig ν) (r : Recorder ν β)
    (prep : Prep ν (Session.MediaDraft ν)) : List (Offer ν) :=
  match prepared C r prep with
  | none => []
  | some (.oversize _) => [.never .media]
  | some .withheld => [.omission ⟨C.sha256 "media_ref", .audio, "capture_class_disabled"⟩]
  | some (.draft value) => [.record .media { value with captureClass := .audio }]

/-- **What a call offers**: a record that is well formed and not a duplicate. -/
def offered [DecidableEq ν] (C : RecorderConfig ν) (r : Recorder ν β) : Call ν → List (Offer ν)
  | .addParticipant prep => offeredOnce C r .participant r.participants prep
  | .addStream prep => offeredOnce C r .stream r.streams prep
  | .recordCoverage c => offeredCoverage r c
  | .recordOmission (.ok omission) => if r.closed = true then [] else [.omission omission]
  | .registerAdapter prep => offeredAdapter C r prep
  | .addRawOtlpChunk signal payloadSize chunk => offeredChunk C r signal payloadSize chunk
  | .recordOperation prep => offeredRecord C r .operation prep
  | .closeOperation prep _ => offeredRecord C r .operation prep
  | .recordEvent prep => offeredRecord C r .event prep
  | .recordQualitySample prep => offeredRecord C r .qualitySample prep
  | .addMediaRef prep => offeredMedia C r prep
  | _ => []

/-- **The values a call omits by their size.** -/
def noted (C : RecorderConfig ν) (r : Recorder ν β) : Call ν → List Note
  | .addParticipant prep => (prep.run C (!r.closed)).2
  | .addStream prep => (prep.run C (!r.closed)).2
  | .registerAdapter prep => (prep.run C (!r.closed)).2
  | .recordOperation prep => (prep.run C (!r.closed)).2
  | .closeOperation prep _ => (prep.run C (!r.closed)).2
  | .recordEvent prep => (prep.run C (!r.closed)).2
  | .recordQualitySample prep => (prep.run C (!r.closed)).2
  | .addMediaRef prep => (prep.run C (!r.closed)).2
  | _ => []

/-! ## Changes -/

/-- The budgets are not exceeded. -/
structure Within (C : RecorderConfig ν) (r : Recorder ν β) : Prop where
  records : r.capturedRecords ≤ C.maxRecords
  bytes : r.capturedBytes ≤ C.maxCaptureBytes
  raw : r.rawOtlpBytes ≤ C.maxRawOtlpBytes

/-- **A recorder with an offer kept**, or none: its omission counters are as they
were, and it stays within its budgets. -/
structure Keeps (C : RecorderConfig ν) (kept : Kept ν → Kept ν) (r r' : Recorder ν β) :
    Prop where
  kept : r'.toKept = kept r.toKept
  truncated : r'.truncatedRecords = r.truncatedRecords
  byKind : r'.omittedRecordsByKind = r.omittedRecordsByKind
  first : r'.firstLimitReason = r.firstLimitReason
  frozen : r'.admissionFrozen = r.admissionFrozen
  within : Within C r → Within C r'
  domains : r.extraClockDomains <+: r'.extraClockDomains
  relations : r.clockRelations <+: r'.clockRelations

/-- Nothing is kept or counted. -/
abbrev Plain (C : RecorderConfig ν) (r r' : Recorder ν β) : Prop := Keeps C id r r'

/-- A record is counted, and admission frozen. -/
structure Note.OfRecord (n : Note) (kind : RecordKind) : Prop where
  kind_eq : n.kind = kind
  wholeRecord : n.wholeRecord = true
  freeze : n.freeze = true

/-- **What a recorder becomes**, with the offers it kept or counted and the
values it noted on the way. -/
inductive Change (C : RecorderConfig ν) :
    Recorder ν β → List (Offer ν × Bool) → List Note → Recorder ν β → Prop
  | plain {r r' : Recorder ν β} : Plain C r r' → Change C r [] [] r'
  | note {r : Recorder ν β} {n : Note} : n.OfValue → Change C r [] [n] (r.noteOmission n)
  | refused {r : Recorder ν β} {n : Note} (o : Offer ν) : n.OfRecord o.kind →
      Change C r [(o, false)] [] (r.noteOmission n)
  | kept {r r' : Recorder ν β} (o : Offer ν) : r.admissionFrozen = false →
      Keeps C (·.keep o) r r' → Change C r [(o, true)] [] r'
  | trans {r r' r'' : Recorder ν β} {log log' : List (Offer ν × Bool)} {notes notes' : List Note} :
      Change C r log notes r' → Change C r' log' notes' r'' →
      Change C r (log ++ log') (notes ++ notes') r''

namespace Change

variable {C : RecorderConfig ν} {r r' r'' : Recorder ν β} {log : List (Offer ν × Bool)}
  {notes : List Note}

/-- Something plain after a change. -/
theorem andPlain (h : Change C r log notes r') (h' : Plain C r' r'') :
    Change C r log notes r'' := by
  have := h.trans (.plain h')
  rwa [List.append_nil, List.append_nil] at this

/-- An offer after the values noted. -/
theorem after (h : Change C r [] notes r') (h' : Change C r' log [] r'') :
    Change C r log notes r'' := by
  have := h.trans h'
  rwa [List.nil_append, List.append_nil] at this

end Change

namespace Session

variable {C : RecorderConfig ν} {s s' : Session ν β}

/-! ## Steps under the lock -/

theorem write_recorder (C : RecorderConfig ν) (s : Session ν β) (entry : JournalEntry ν) :
    (s.write C entry).recorder = s.recorder := by
  unfold write
  split <;> rfl

theorem noteOmission_recorder (C : RecorderConfig ν) (s : Session ν β) (n : Note) :
    (s.noteOmission C n).recorder = s.recorder.noteOmission n :=
  write_recorder C _ _

/-- Fields that admission does not read. -/
theorem plain_refl (C : RecorderConfig ν) (r : Recorder ν β) : Plain C r r :=
  ⟨rfl, rfl, rfl, rfl, rfl, id, List.prefix_rfl, List.prefix_rfl⟩

theorem plain_flush (C : RecorderConfig ν) (s : Session ν β) :
    Plain C s.recorder s.flush.recorder :=
  ⟨rfl, rfl, rfl, rfl, rfl, fun h => ⟨h.records, h.bytes, h.raw⟩, List.prefix_rfl,
    List.prefix_rfl⟩

theorem plain_journalLocked (C : RecorderConfig ν) (r : Recorder ν β)
    (journal : List (JournalEntry ν)) (kind : String) (value : Option (Record ν)) :
    Plain C r ((Session.mk r journal).journalLocked C kind value).recorder := by
  unfold journalLocked
  split
  · dsimp only
    split
    · exact plain_flush C ⟨r, journal⟩
    · rw [write_recorder]
      exact plain_flush C ⟨r, journal⟩
  · exact plain_refl C _

theorem plain_journalCoverage (C : RecorderConfig ν) (r : Recorder ν β)
    (journal : List (JournalEntry ν)) (value : Coverage) (replacesIndex : Option ℕ) :
    Plain C r ((Session.mk r journal).journalCoverage C value replacesIndex).recorder := by
  unfold journalCoverage
  split
  · dsimp only
    rw [write_recorder]
    exact plain_flush C ⟨r, journal⟩
  · exact plain_refl C _

theorem plain_emit (C : RecorderConfig ν) (s : Session ν β) :
    Plain C s.recorder s.emitPendingTruncationDiagnostic.recorder := by
  unfold emitPendingTruncationDiagnostic
  split
  · exact plain_refl C _
  · exact ⟨rfl, rfl, rfl, rfl, rfl, fun h => ⟨h.records, h.bytes, h.raw⟩, List.prefix_rfl,
      List.prefix_rfl⟩

end Session

/-- A change, and then nothing that admission reads. -/
theorem Keeps.andPlain {C : RecorderConfig ν} {kept : Kept ν → Kept ν} {r r' r'' : Recorder ν β}
    (h : Keeps C kept r r') (h' : Plain C r' r'') : Keeps C kept r r'' where
  kept := h'.kept.trans h.kept
  truncated := h'.truncated.trans h.truncated
  byKind := h'.byKind.trans h.byKind
  first := h'.first.trans h.first
  frozen := h'.frozen.trans h.frozen
  within := h'.within ∘ h.within
  domains := h.domains.trans h'.domains
  relations := h.relations.trans h'.relations

theorem Keeps.afterPlain {C : RecorderConfig ν} {kept : Kept ν → Kept ν} {r r' r'' : Recorder ν β}
    (h : Plain C r r') (h' : Keeps C kept r' r'') : Keeps C kept r r'' where
  kept := h'.kept.trans (congrArg kept h.kept)
  truncated := h'.truncated.trans h.truncated
  byKind := h'.byKind.trans h.byKind
  first := h'.first.trans h.first
  frozen := h'.frozen.trans h.frozen
  within := h'.within ∘ h.within
  domains := h.domains.trans h'.domains
  relations := h.relations.trans h'.relations

namespace Session

variable {C : RecorderConfig ν} {s : Session ν β}

/-- Values noted leave the lists and the lock's state. -/
theorem notes_change (C : RecorderConfig ν) (s : Session ν β) {notes : List Note}
    (hnotes : ∀ n ∈ notes, n.OfValue) :
    Change C s.recorder [] notes (notes.foldl (noteOmission C) s).recorder ∧
      (notes.foldl (noteOmission C) s).recorder.toKept = s.recorder.toKept ∧
      (notes.foldl (noteOmission C) s).recorder.closed = s.recorder.closed := by
  induction notes generalizing s with
  | nil => exact ⟨.plain (plain_refl C _), rfl, rfl⟩
  | cons n notes ih =>
    obtain ⟨hchange, hkept, hclosed⟩ := ih (s.noteOmission C n) fun m hm => hnotes m (.tail _ hm)
    rw [noteOmission_recorder] at hchange hkept hclosed
    exact ⟨(Change.note (hnotes n (.head _))).trans hchange, hkept, hclosed⟩

/-- A preparation notes values. -/
theorem prepare_change (C : RecorderConfig ν) (s : Session ν β) (prep : Prep ν α) :
    Change C s.recorder [] (prep.run C (!s.recorder.closed)).2 (s.prepare C prep).2.recorder ∧
      (s.prepare C prep).2.recorder.toKept = s.recorder.toKept ∧
      (s.prepare C prep).2.recorder.closed = s.recorder.closed :=
  notes_change C s (prep.run_ofValue C _)

/-- A record retained. -/
theorem keeps_retain (C : RecorderConfig ν) (r : Recorder ν β) (kind : RecordKind)
    (draft : Draft ν) : Keeps C (·.keep (.record kind draft)) r (r.retain kind draft) :=
  ⟨rfl, rfl, rfl, rfl, rfl, fun h => ⟨h.records, h.bytes, h.raw⟩, List.prefix_rfl,
    List.prefix_rfl⟩

/-- **A record is refused and counted, or there is room for it.** -/
theorem tryAdmit_cases (C : RecorderConfig ν) (s : Session ν β) (kind : RecordKind)
    (captureClass : Privacy.CaptureClass) (estimatedBytes rawBytes : ℕ) :
    ((s.tryAdmit C kind captureClass estimatedBytes rawBytes).1 = false ∧
      (refusal C s.recorder estimatedBytes rawBytes).isSome = true ∧
      ∃ n : Note, n.OfRecord kind ∧
        (s.tryAdmit C kind captureClass estimatedBytes rawBytes).2.recorder =
          s.recorder.noteOmission n) ∨
    ((s.tryAdmit C kind captureClass estimatedBytes rawBytes).1 = true ∧
      (refusal C s.recorder estimatedBytes rawBytes).isSome = false ∧
      s.recorder.admissionFrozen = false ∧
      Plain C s.recorder (s.tryAdmit C kind captureClass estimatedBytes rawBytes).2.recorder) := by
  unfold tryAdmit
  cases hroom : refusal C s.recorder estimatedBytes rawBytes with
  | some reason =>
    exact .inl ⟨rfl, rfl, _, ⟨rfl, rfl, rfl⟩, noteOmission_recorder C _ _⟩
  | none =>
    unfold refusal at hroom
    split at hroom
    · cases hroom
    rename_i hfrozen
    split at hroom
    · cases hroom
    rename_i hraw
    split at hroom
    · cases hroom
    rename_i hrecords
    split at hroom
    · cases hroom
    rename_i hbytes
    refine .inr ⟨rfl, rfl, Bool.eq_false_iff.mpr hfrozen, rfl, rfl, rfl, rfl, rfl,
      fun h => ⟨?_, ?_, ?_⟩, List.prefix_rfl, List.prefix_rfl⟩
    · exact Nat.lt_of_not_le hrecords
    · exact Nat.le_of_not_lt hbytes
    · by_cases hzero : rawBytes = 0
      · rw [hzero]
        exact h.raw
      · exact Nat.le_of_not_lt fun hlt => hraw ⟨hzero, hlt⟩

/-- A record, once prepared. -/
theorem admit_change (C : RecorderConfig ν) (s : Session ν β) (kind : RecordKind)
    (draft : Draft ν) :
    ∃ fate, Change C s.recorder [(.record kind draft, fate)] []
      (s.admitRecord C kind draft).2.recorder := by
  unfold admitRecord
  dsimp only
  rcases tryAdmit_cases C s kind draft.captureClass draft.size 0 with
    ⟨hrefused, _, n, hn, hrecorder⟩ | ⟨hadmitted, _, hfrozen, hplain⟩
  · rw [if_neg (by rw [hrefused]; exact Bool.false_ne_true), hrecorder]
    exact ⟨false, .refused (.record kind draft) hn⟩
  · rw [if_pos hadmitted]
    exact ⟨true, .kept _ hfrozen (.afterPlain hplain
      (.andPlain (keeps_retain C _ kind draft) (plain_journalLocked C _ _ _ _)))⟩

/-- An omission of its own. -/
theorem admitOmission_change (C : RecorderConfig ν) (s : Session ν β) (omission : Omission) :
    ∃ fate, Change C s.recorder [(.omission omission, fate)] []
      (s.admitOmission C omission).recorder := by
  have hretain : ∀ r : Recorder ν β, Keeps C (·.keep (.omission omission)) r
      { r with omissions := r.omissions ++ [omission] } := fun r =>
    ⟨rfl, rfl, rfl, rfl, rfl, fun h => ⟨h.records, h.bytes, h.raw⟩, List.prefix_rfl,
      List.prefix_rfl⟩
  unfold admitOmission
  dsimp only
  rcases tryAdmit_cases C s .omission omission.captureClass (C.omissionSize omission) 0 with
    ⟨hrefused, _, n, hn, hrecorder⟩ | ⟨hadmitted, _, hfrozen, hplain⟩
  · rw [if_neg (by rw [hrefused]; exact Bool.false_ne_true), hrecorder]
    exact ⟨false, .refused (.omission omission) hn⟩
  · rw [if_pos hadmitted]
    exact ⟨true, .kept _ hfrozen (.afterPlain hplain
      (.andPlain (hretain _) (plain_journalLocked C _ _ _ _)))⟩

/-- Coverage of a signal that has none. -/
theorem appendCoverage_change (C : RecorderConfig ν) (s : Session ν β) (c : Coverage) :
    ∃ fate, Change C s.recorder [(.coverage c, fate)] [] (s.appendCoverage C c).recorder := by
  have hretain : ∀ r : Recorder ν β, Keeps C (·.keep (.coverage c)) r
      { r with coverage := r.coverage ++ [c] } := fun r =>
    ⟨rfl, rfl, rfl, rfl, rfl, fun h => ⟨h.records, h.bytes, h.raw⟩, List.prefix_rfl,
      List.prefix_rfl⟩
  unfold appendCoverage
  dsimp only
  rcases tryAdmit_cases C s .coverage .metadata (C.coverageSize c) 0 with
    ⟨hrefused, _, n, hn, hrecorder⟩ | ⟨hadmitted, _, hfrozen, hplain⟩
  · rw [if_neg (by rw [hrefused]; exact Bool.false_ne_true), hrecorder]
    exact ⟨false, .refused (.coverage c) hn⟩
  · rw [if_pos hadmitted]
    exact ⟨true, .kept _ hfrozen (.afterPlain hplain
      (.andPlain (hretain _) (plain_journalCoverage C _ _ _ _)))⟩

/-- Coverage in place of what its signal had. -/
theorem supersede_change (C : RecorderConfig ν) (s : Session ν β) (index : ℕ)
    (existing c : Coverage) :
    ∃ fate, Change C s.recorder [(.supersede index c, fate)] []
      (s.supersede C index existing c).recorder := by
  unfold supersede
  dsimp only
  split
  · rw [noteOmission_recorder]
    exact ⟨false, .refused _ ⟨rfl, rfl, rfl⟩⟩
  rename_i hfrozen
  split
  · rw [noteOmission_recorder]
    exact ⟨false, .refused _ ⟨rfl, rfl, rfl⟩⟩
  rename_i hroom
  have hretain : Keeps C (·.keep (.supersede index c)) s.recorder
      { s.recorder with
        coverage := s.recorder.coverage.set index c
        capturedBytes := s.recorder.capturedBytes +
          (C.coverageSize c - C.coverageSize existing) } :=
    ⟨rfl, rfl, rfl, rfl, rfl, fun h => ⟨h.records, Nat.le_of_not_lt hroom, h.raw⟩,
      List.prefix_rfl, List.prefix_rfl⟩
  exact ⟨true, .kept _ (Bool.eq_false_iff.mpr hfrozen)
    (hretain.andPlain (plain_journalCoverage C _ _ _ _))⟩

end Session

/-! ## Calls -/

/-- What a call does to a recorder, with what it offers and notes. -/
def Changes (C : RecorderConfig ν) (s : Session ν β) (offers : List (Offer ν))
    (notes : List Note) (s' : Session ν β) : Prop :=
  ∃ log, log.map Prod.fst = offers ∧ Change C s.recorder log notes s'.recorder

namespace Changes

variable {C : RecorderConfig ν} {s s' s'' : Session ν β} {offers : List (Offer ν)}
  {notes : List Note}

theorem of_plain (h : Plain C s.recorder s'.recorder) : Changes C s [] [] s' :=
  ⟨[], rfl, .plain h⟩

theorem of_offer {o : Offer ν} (h : ∃ fate, Change C s.recorder [(o, fate)] [] s'.recorder) :
    Changes C s [o] [] s' := by
  obtain ⟨fate, h⟩ := h
  exact ⟨_, rfl, h⟩

theorem andPlain (h : Changes C s offers notes s') (h' : Plain C s'.recorder s''.recorder) :
    Changes C s offers notes s'' := by
  obtain ⟨log, hlog, h⟩ := h
  exact ⟨log, hlog, h.andPlain h'⟩

theorem after (h : Change C s.recorder [] notes s'.recorder) (h' : Changes C s' offers [] s'') :
    Changes C s offers notes s'' := by
  obtain ⟨log, hlog, h'⟩ := h'
  exact ⟨log, hlog, h.after h'⟩

end Changes

namespace Session

/-- **A call that prepares a record first.** What it offers is offered by what
follows, on a recorder that has noted values only. -/
theorem changes_of_prepare (C : RecorderConfig ν) (s : Session ν β) (prep : Prep ν α)
    {offers : List (Offer ν)} {f : α → Session ν β → Outcome ν β (Answer ν β)}
    (hnone : prepared C s.recorder prep = none → offers = [])
    (hsome : ∀ a s', prepared C s.recorder prep = some a →
      s'.recorder.toKept = s.recorder.toKept → Changes C s' offers [] (f a s').2) :
    Changes C s offers (prep.run C (!s.recorder.closed)).2 (s.prepareThen C prep f).2 := by
  obtain ⟨hnotes, hkept, hstate⟩ := prepare_change C s prep
  have hresult : (s.prepare C prep).1 = (prep.run C (!s.recorder.closed)).1 := rfl
  have hprepared : prepared C s.recorder prep =
      if s.recorder.closed = true then none else (s.prepare C prep).1.toOption := by
    unfold prepared
    cases hclosed : s.recorder.closed with
    | true => rfl
    | false => rw [hresult, hclosed]; rfl
  refine Changes.after hnotes ?_
  unfold prepareThen
  revert hprepared hkept hstate
  generalize s.prepare C prep = p
  obtain ⟨result, s'⟩ := p
  intro hkept hstate hprepared
  cases result with
  | error e =>
    rw [hnone (by rw [hprepared]; split <;> rfl)]
    exact .of_plain (plain_refl C _)
  | ok a =>
    dsimp only
    by_cases hclosed : s'.recorder.closed = true
    · rw [if_pos hclosed, hnone (by rw [hprepared, if_pos (hstate.symm.trans hclosed)])]
      exact .of_plain (plain_refl C _)
    · rw [if_neg hclosed]
      refine hsome a s' ?_ hkept
      rw [hprepared, if_neg fun h => hclosed (hstate.trans h)]
      rfl

theorem addIdentified_changes [DecidableEq ν] (C : RecorderConfig ν) (s : Session ν β)
    (kind : RecordKind) (present : Kept ν → List (Record ν)) (conflict : String)
    (prep : Prep ν (Draft ν)) :
    Changes C s (offeredOnce C s.recorder kind (present s.recorder.toKept) prep)
      (prep.run C (!s.recorder.closed)).2 (s.addIdentified C kind present conflict prep).2 := by
  unfold offeredOnce
  refine changes_of_prepare C s prep (fun h => by rw [h]) fun draft s' h hkept => ?_
  rw [h, hkept]
  dsimp only
  cases hfind : (present s.recorder.toKept).find? (·.identity = draft.record.identity) with
  | some existing =>
    rw [if_pos (show (some existing).isSome = true from rfl)]
    dsimp only
    split
    · exact .of_plain (plain_refl C _)
    · exact .of_plain (plain_emit C _)
  | none =>
    rw [if_neg (show ¬ (none : Option (Record ν)).isSome = true from Bool.false_ne_true)]
    exact (Changes.of_offer (admit_change C s' kind draft)).andPlain (plain_emit C _)

theorem addRecord_changes (C : RecorderConfig ν) (s : Session ν β) (kind : RecordKind)
    (prep : Prep ν (Draft ν)) :
    Changes C s (offeredRecord C s.recorder kind prep) (prep.run C (!s.recorder.closed)).2
      (s.addRecord C kind prep).2 := by
  unfold offeredRecord
  refine changes_of_prepare C s prep (fun h => by rw [h]) fun draft s' h _ => ?_
  rw [h]
  exact (Changes.of_offer (admit_change C s' kind draft)).andPlain (plain_emit C _)

theorem closeOperation_changes (C : RecorderConfig ν) (s : Session ν β) (prep : Prep ν (Draft ν))
    (applicationError : Bool) :
    Changes C s (offeredRecord C s.recorder .operation prep) (prep.run C (!s.recorder.closed)).2
      (s.closeOperation C prep applicationError).2 := by
  have h := addRecord_changes C s .operation prep
  unfold closeOperation recordOperation
  revert h
  generalize s.addRecord C .operation prep = result
  obtain ⟨_ | answer, s'⟩ := result
  · intro h
    dsimp only at h ⊢
    have hplain : Plain C s'.recorder { s'.recorder with lastExportError := some ‹Failure› } :=
      ⟨rfl, rfl, rfl, rfl, rfl, fun h => ⟨h.records, h.bytes, h.raw⟩, List.prefix_rfl,
        List.prefix_rfl⟩
    split <;> exact h.andPlain hplain
  · exact id

theorem recordOmission_changes (C : RecorderConfig ν) (s : Session ν β) (omission : Omission) :
    Changes C s (if s.recorder.closed = true then [] else [.omission omission]) []
      (s.recordOmission C (.ok omission)).2 := by
  unfold recordOmission
  dsimp only
  split
  · exact .of_plain (plain_refl C _)
  · exact (Changes.of_offer (admitOmission_change C s omission)).andPlain (plain_emit C _)

/-- The admission of an adapter. -/
theorem admitAdapter_changes [DecidableEq ν] (C : RecorderConfig ν) (s : Session ν β)
    (draft : Draft ν) :
    Changes C s
      (if s.recorder.adapters.any (fun known => decide (known = draft.record)) = true then []
        else [.record .adapter { draft with omissions := [] }]) []
      (s.admitAdapter C draft).2 := by
  have hknown : (s.recorder.adapters.any fun known => decide (known = draft.record)) = true ↔
      draft.record ∈ s.recorder.adapters := by
    simp only [List.any_eq_true, decide_eq_true_eq, exists_eq_right]
  unfold admitAdapter
  dsimp only
  by_cases hpresent : draft.record ∈ s.recorder.adapters
  · rw [if_pos (hknown.mpr hpresent), if_pos hpresent]
    exact .of_plain (plain_refl C _)
  rw [if_neg fun h => hpresent (hknown.mp h), if_neg hpresent]
  refine Changes.of_offer ?_
  rcases tryAdmit_cases C s .adapter .metadata draft.size 0 with
    ⟨hrefused, _, n, hn, hrecorder⟩ | ⟨hadmitted, _, hfrozen, hplain⟩
  · rw [if_neg (by rw [hrefused]; exact Bool.false_ne_true), hrecorder]
    exact ⟨false, .refused (.record .adapter { draft with omissions := [] }) hn⟩
  · rw [if_pos hadmitted]
    refine ⟨true, .kept _ hfrozen (.afterPlain hplain ⟨?_, rfl, rfl, rfl, rfl,
      fun h => ⟨h.records, h.bytes, h.raw⟩, List.prefix_rfl, List.prefix_rfl⟩)⟩
    unfold Kept.keep Kept.add
    dsimp only
    rw [List.append_nil]

theorem plain_retainAdapterClasses [DecidableEq ν] (C : RecorderConfig ν) (s : Session ν β)
    (draft : Draft ν) :
    Plain C s.recorder (s.retainAdapterClasses draft).recorder := by
  unfold retainAdapterClasses
  split
  · exact ⟨rfl, rfl, rfl, rfl, rfl, fun h => ⟨h.records, h.bytes, h.raw⟩, List.prefix_rfl,
      List.prefix_rfl⟩
  · exact plain_refl C _

theorem registerAdapter_changes [DecidableEq ν] (C : RecorderConfig ν) (s : Session ν β)
    (prep : Prep ν (Draft ν)) :
    Changes C s (offeredAdapter C s.recorder prep) (prep.run C (!s.recorder.closed)).2
      (s.registerAdapter C prep).2 := by
  unfold offeredAdapter
  refine changes_of_prepare C s prep (fun h => by rw [h]) fun draft s' h hkept => ?_
  rw [h]
  have hadapters : s'.recorder.adapters = s.recorder.adapters := congrArg Kept.adapters hkept
  have hadmitted := admitAdapter_changes C s' draft
  rw [hadapters] at hadmitted
  refine Changes.andPlain ?_ (plain_emit C _)
  have hretained := hadmitted.andPlain (plain_retainAdapterClasses C _ draft)
  dsimp only
  by_cases hnew : (s'.admitAdapter C draft).1 = true
  · rw [if_pos hnew]
    exact hretained.andPlain (plain_journalLocked C _ _ _ _)
  · rw [if_neg hnew]
    exact hretained.andPlain (plain_journalLocked C _ _ _ _)

theorem addRawOtlpChunk_changes (C : RecorderConfig ν) (s : Session ν β) (signal : String)
    (payloadSize : ℕ) (chunk : Except Failure (Record ν)) :
    Changes C s (offeredChunk C s.recorder signal payloadSize chunk) []
      (s.addRawOtlpChunk C signal payloadSize chunk).2 := by
  unfold offeredChunk addRawOtlpChunk
  split
  · exact .of_plain (plain_refl C _)
  split
  · exact .of_offer (admitOmission_change C s _)
  dsimp only
  rw [← chunkSize]
  rcases tryAdmit_cases C s .rawOtlp .rawOtlp (chunkSize C payloadSize) payloadSize with
    ⟨hrefused, hroom, n, hn, hrecorder⟩ | ⟨hadmitted, hroom, hfrozen, hplain⟩
  · have hne : ¬ (s.tryAdmit C .rawOtlp .rawOtlp (chunkSize C payloadSize) payloadSize).1 = true := by
      rw [hrefused]
      exact Bool.false_ne_true
    rw [if_neg hne]
    have hcounted : ∀ o : Offer ν, o.kind = .rawOtlp → Changes C s [o] []
        (s.tryAdmit C .rawOtlp .rawOtlp (chunkSize C payloadSize)
          payloadSize).2.emitPendingTruncationDiagnostic := fun o hkind =>
      (Changes.of_offer ⟨false, hrecorder ▸ .refused o (hkind ▸ hn)⟩).andPlain (plain_emit C _)
    cases chunk with
    | ok chunk => exact hcounted _ rfl
    | error e =>
      dsimp only
      rw [if_pos hroom]
      exact hcounted _ rfl
  · rw [if_pos hadmitted]
    cases chunk with
    | error e =>
      dsimp only
      rw [if_neg (by rw [hroom]; exact Bool.false_ne_true)]
      exact .of_plain hplain
    | ok chunk =>
      refine Changes.andPlain ?_ (plain_emit C _)
      exact .of_offer ⟨true, .kept _ hfrozen (.afterPlain hplain
        (.andPlain (keeps_retain C _ .rawOtlp _) (plain_journalLocked C _ _ _ _)))⟩

theorem addMediaRef_changes (C : RecorderConfig ν) (s : Session ν β)
    (prep : Prep ν (MediaDraft ν)) :
    Changes C s (offeredMedia C s.recorder prep) (prep.run C (!s.recorder.closed)).2
      (s.addMediaRef C prep).2 := by
  unfold offeredMedia
  refine changes_of_prepare C s prep (fun h => by rw [h]) fun draft s' h _ => ?_
  rw [h]
  cases draft with
  | oversize size =>
    refine (Changes.of_offer ⟨false, ?_⟩).andPlain (plain_emit C _)
    rw [noteOmission_recorder]
    exact .refused (.never .media) ⟨rfl, rfl, rfl⟩
  | withheld => exact .of_offer (admitOmission_change C s' _)
  | draft value =>
    have hadmit := admit_change C s' .media { value with captureClass := .audio }
    exact (Changes.of_offer hadmit).andPlain (plain_emit C _)

theorem recordCoverage_changes (C : RecorderConfig ν) (s : Session ν β) (c : Coverage) :
    Changes C s (offeredCoverage s.recorder c) [] (s.recordCoverage C c).2 := by
  unfold offeredCoverage recordCoverage
  split
  · exact .of_plain (plain_refl C _)
  refine Changes.andPlain ?_ (plain_emit C _)
  unfold noteCoverage
  cases s.recorder.coverage.findIdx? (·.signal = c.signal) with
  | none => exact .of_offer (appendCoverage_change C s c)
  | some index =>
    dsimp only
    cases s.recorder.coverage[index]? with
    | none => exact .of_plain (plain_refl C _)
    | some existing =>
      dsimp only
      by_cases hup : Upgrades c existing
      · have hne : ¬ existing = c := fun h => hup.2 (h ▸ hup.1)
        rw [if_pos hup, if_neg hne, if_pos hup]
        exact .of_offer (supersede_change C s index existing c)
      · rw [if_neg hup, if_neg hup, ite_self]
        exact .of_plain (plain_refl C _)

/-! ## Clocks and closing -/

theorem plain_registerClockDomain [DecidableEq ν] (C : RecorderConfig ν) (s : Session ν β)
    (domain : Record ν) :
    Plain C s.recorder (s.registerClockDomain C domain).2.recorder := by
  unfold registerClockDomain
  split
  · exact plain_refl C _
  split
  · exact plain_refl C _
  split
  · split <;> exact plain_refl C _
  · split
    · exact plain_refl C _
    · have hadded : Plain C s.recorder
          { s.recorder with extraClockDomains := s.recorder.extraClockDomains ++ [domain] } :=
        ⟨rfl, rfl, rfl, rfl, rfl, fun h => ⟨h.records, h.bytes, h.raw⟩, List.prefix_append _ _,
          List.prefix_rfl⟩
      exact hadded.andPlain (plain_journalLocked C _ _ _ _)

theorem plain_registerClockRelation [DecidableEq ν] (C : RecorderConfig ν) (s : Session ν β)
    (relation : Record ν) :
    Plain C s.recorder (s.registerClockRelation C relation).2.recorder := by
  unfold registerClockRelation
  split
  · exact plain_refl C _
  split
  · split <;> exact plain_refl C _
  · split
    · exact plain_refl C _
    · have hadded : Plain C s.recorder
          { s.recorder with clockRelations := s.recorder.clockRelations ++ [relation] } :=
        ⟨rfl, rfl, rfl, rfl, rfl, fun h => ⟨h.records, h.bytes, h.raw⟩, List.prefix_rfl,
          List.prefix_append _ _⟩
      exact hadded.andPlain (plain_journalLocked C _ _ _ _)

theorem plain_finalizeJournal (C : RecorderConfig ν) (s : Session ν β) (status : String)
    (attributes : Option (List (String × String))) (ended : ν) :
    Plain C s.recorder (s.finalizeJournal C status attributes ended).2.recorder := by
  unfold finalizeJournal
  refine (plain_emit C s).andPlain ?_
  generalize s.emitPendingTruncationDiagnostic = s
  dsimp only
  split
  · exact plain_refl C _
  cases attributes with
  | none => exact plain_refl C _
  | some attributes =>
    have hfinal := write_recorder C s
    unfold finalize
    dsimp only
    rw [hfinal]
    exact ⟨rfl, rfl, rfl, rfl, rfl, fun h => ⟨h.records, h.bytes, h.raw⟩, List.prefix_rfl,
      List.prefix_rfl⟩

theorem plain_notifyCloseOnce (C : RecorderConfig ν) (s : Session ν β) :
    Plain C s.recorder s.notifyCloseOnce.recorder :=
  ⟨rfl, rfl, rfl, rfl, rfl, fun h => ⟨h.records, h.bytes, h.raw⟩, List.prefix_rfl,
    List.prefix_rfl⟩

theorem plain_write (C : RecorderConfig ν) (s : Session ν β) (entry : JournalEntry ν) :
    Plain C s.recorder (s.write C entry).recorder := by
  rw [write_recorder]
  exact plain_refl C _

theorem plain_delivered (C : RecorderConfig ν) (r : Recorder ν β) (delivery : Delivery) :
    Plain C r (r.delivered delivery) := by
  cases delivery <;>
    exact ⟨rfl, rfl, rfl, rfl, rfl, fun h => ⟨h.records, h.bytes, h.raw⟩, List.prefix_rfl,
      List.prefix_rfl⟩

theorem plain_closeBuilt (C : RecorderConfig ν) (K : CloseConfig ν β) (s : Session ν β)
    (status : String) (delivery : Delivery) (bundle : β) :
    Plain C s.recorder (s.closeBuilt C K status delivery bundle).2.recorder := by
  unfold closeBuilt
  cases K.validate bundle with
  | error e =>
    dsimp only
    have hfailed : Plain C s.recorder { s.recorder with lastExportError := some e } :=
      ⟨rfl, rfl, rfl, rfl, rfl, fun h => ⟨h.records, h.bytes, h.raw⟩, List.prefix_rfl,
        List.prefix_rfl⟩
    have hclosed : Plain C s.recorder { s.recorder with
        lastExportError := some e, status := status, closed := true, closeError := some e } :=
      ⟨rfl, rfl, rfl, rfl, rfl, fun h => ⟨h.records, h.bytes, h.raw⟩, List.prefix_rfl,
        List.prefix_rfl⟩
    split
    · exact hclosed.andPlain (.andPlain (plain_write C ⟨_, s.journal⟩ _)
        (plain_notifyCloseOnce C _))
    · exact hfailed.andPlain (plain_write C ⟨_, s.journal⟩ _)
  | ok _ =>
    have hclosed : Plain C s.recorder { s.recorder with
        status := status, closed := true, bundle := some bundle } :=
      ⟨rfl, rfl, rfl, rfl, rfl, fun h => ⟨h.records, h.bytes, h.raw⟩, List.prefix_rfl,
        List.prefix_rfl⟩
    exact hclosed.andPlain (.andPlain (plain_delivered C _ delivery)
      (.andPlain (plain_write C ⟨_, s.journal⟩ _) (plain_notifyCloseOnce C _)))

theorem plain_close (C : RecorderConfig ν) (K : CloseConfig ν β) (s : Session ν β)
    (status : String) (attributes : List (String × String)) (ended : ν) (delivery : Delivery) :
    Plain C s.recorder (s.close C K status attributes ended delivery).2.recorder := by
  unfold close
  refine (plain_emit C s).andPlain ?_
  generalize s.emitPendingTruncationDiagnostic = s
  dsimp only
  split
  · exact plain_refl C _
  split
  · exact plain_refl C _
  · refine (plain_write C s _ : Plain C _ (s.finalize C status attributes ended).recorder).andPlain ?_
    split
    · exact plain_refl C _
    · exact plain_closeBuilt C K _ status delivery _

theorem plain_closePartial (C : RecorderConfig ν) (K : CloseConfig ν β) (s : Session ν β)
    (status : String) (closeObserved : Bool) :
    Plain C s.recorder (s.closePartial K status closeObserved).2.recorder := by
  unfold closePartial
  split
  · exact plain_refl C _
  split
  · exact plain_refl C _
  split
  · exact plain_refl C _
  split
  · exact plain_refl C _
  split
  · exact plain_refl C _
  split
  · exact plain_refl C _
  · exact ⟨rfl, rfl, rfl, rfl, rfl, fun h => ⟨h.records, h.bytes, h.raw⟩, List.prefix_rfl,
      List.prefix_rfl⟩

theorem plain_exit (C : RecorderConfig ν) (K : CloseConfig ν β) (s : Session ν β)
    (status : String) (attributes : List (String × String)) (ended : ν) (delivery : Delivery) :
    Plain C s.recorder (s.exit C K status attributes ended delivery).2.recorder := by
  have h := plain_close C K s status attributes ended delivery
  unfold exit
  revert h
  generalize s.close C K status attributes ended delivery = result
  obtain ⟨_ | answer, s'⟩ := result
  · intro h
    exact h.andPlain ⟨rfl, rfl, rfl, rfl, rfl, fun h => ⟨h.records, h.bytes, h.raw⟩,
      List.prefix_rfl, List.prefix_rfl⟩
  · exact id

/-- **What a call does**: it notes values cut short, and keeps or counts what it
offers. -/
theorem apply_changes [DecidableEq ν] (C : RecorderConfig ν) (K : CloseConfig ν β) (s : Session ν β)
    (call : Call ν) :
    Changes C s (offered C s.recorder call) (noted C s.recorder call) (s.apply C K call).2 := by
  cases call with
  | addParticipant prep => exact addIdentified_changes C s _ Kept.participants _ prep
  | addStream prep => exact addIdentified_changes C s _ Kept.streams _ prep
  | registerClockDomain domain => exact .of_plain (plain_registerClockDomain C s domain)
  | registerClockRelation relation => exact .of_plain (plain_registerClockRelation C s relation)
  | recordCoverage c => exact recordCoverage_changes C s c
  | recordOmission omission =>
    cases omission with
    | error e => exact .of_plain (plain_refl C _)
    | ok omission => exact recordOmission_changes C s omission
  | registerAdapter prep => exact registerAdapter_changes C s prep
  | addRawOtlpChunk signal payloadSize chunk =>
    exact addRawOtlpChunk_changes C s signal payloadSize chunk
  | recordOperation prep => exact addRecord_changes C s _ prep
  | openOperation value => exact .of_plain (plain_write C s _)
  | closeOperation prep applicationError => exact closeOperation_changes C s prep applicationError
  | recordEvent prep => exact addRecord_changes C s _ prep
  | recordQualitySample prep => exact addRecord_changes C s _ prep
  | addMediaRef prep => exact addMediaRef_changes C s prep
  | finalizeJournal status attributes ended =>
    exact .of_plain (plain_finalizeJournal C s status attributes ended)
  | close status attributes ended delivery =>
    exact .of_plain (plain_close C K s status attributes ended delivery)
  | closePartial status closeObserved =>
    exact .of_plain (plain_closePartial C K s status closeObserved)
  | exit status attributes ended delivery =>
    exact .of_plain (plain_exit C K s status attributes ended delivery)

end Session

end Earshot.Recording
