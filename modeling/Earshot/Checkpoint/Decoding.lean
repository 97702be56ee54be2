import Earshot.Checkpoint.Document
import Earshot.Checkpoint.Reading
import Earshot.Common.Run
/-!
# What reading a journal raises

A frame's body is any JSON text. What it is read as is looked up by its kind
and validated; some of what can go wrong makes the frame unreadable, and the
rest leaves the reader. This file reads a journal without a key and keeps
apart the two.

`limit` is how many arrays and objects `json.loads` opens one in another where
it is called: the interpreter's recursion limit, less the frames that are in
use there. `validate` is what the model of a kind makes of a value, which is
none where it raises its `ValidationError`. Both may be anything.
-/

namespace Earshot

namespace Checkpoint

open JsonDocument

/-! ## Entries -/

/-- The kinds of `_ENTRY_TYPES`. -/
inductive EntryType where
  | opened
  | record
  | limit
  | operationOpen
  | exhausted
  | finalize
  deriving DecidableEq

def EntryType.tag : EntryType → String
  | .opened => "open"
  | .record => "record"
  | .limit => "limit"
  | .operationOpen => "operation_open"
  | .exhausted => "exhausted"
  | .finalize => "finalize"

/-- `_ENTRY_TYPES.get`, of a string. -/
def entryType? (codes : List ℕ) : Option EntryType :=
  [.opened, .record, .limit, .operationOpen, .exhausted, .finalize].find? fun type =>
    Transcript.codesOf type.tag = codes

/-- What leaves the reader though it is none of its errors. -/
inductive Escape where
  /-- A list or a dictionary has no hash. -/
  | typeError
  | recursionError
  deriving DecidableEq

section Reading

variable {α : Type} (limit : ℕ) (validate : EntryType → Value → Option (JournalEntry α))

/-- What `json.loads` makes of a body: none where it is no UTF-8 text. -/
def documentOf (body : Bytes) : Option (Except LoadError Value) :=
  (ByteArray.mk body.toArray).utf8Decode?.map fun text => loads limit text.toList

/-- What `decode_entry` makes of a document. -/
def entryOf (document : Value) : Except Escape (Option (JournalEntry α)) :=
  match document with
  | .object entries =>
    if ∃ key ∈ entries.map Prod.fst, key ≠ Transcript.codesOf "k" ∧
        key ≠ Transcript.codesOf "v" then .ok none
    else
      match getKey entries "k", getKey entries "v" with
      | some kind, some value =>
        match kind with
        -- the kind is looked up in a dictionary
        | .array _ => .error .typeError
        | .object _ => .error .typeError
        | .str codes => .ok ((entryType? codes).bind fun type => validate type value)
        | _ => .ok none
      | _, _ => .ok none
  | _ => .ok none

/-- `decode_entry`; `none` is its `JournalFormatError`. -/
def decodeEntry (body : Bytes) : Except Escape (Option (JournalEntry α)) :=
  match documentOf limit body with
  | none => .ok none
  | some (.error .valueError) => .ok none
  | some (.error .recursionError) => .error .recursionError
  | some (.ok document) => entryOf validate document

/-- Whether an entry is taken at its place. -/
def takes (sequence : ℕ) (entry : JournalEntry α) : Bool :=
  match entry, sequence with
  | .opened header, 1 => header.journalFormatVersion = JOURNAL_FORMAT_VERSION
  | _, 1 => false
  | .opened _, _ => false
  | _, _ => true

/-- The scan of `read_bytes` from a frame on: the frames it takes with their
entries, and what is left with why. `finalized` says that a finalize has been
taken. -/
def readFrames (maxFrameBytes : ℕ) : ℕ → Bool → ℕ → Bytes →
    Except Escape (List (Frame × JournalEntry α) × Bytes × Option ScanStop)
  | _, _, _, [] => .ok ([], [], none)
  | 0, _, _, data => .ok ([], data, none)
  | fuel + 1, finalized, sequence, data =>
    match splitFrame maxFrameBytes sequence data with
    | .error stop => .ok ([], data, some stop)
    | .ok (frame, rest) =>
      if finalized then .ok ([], data, some .unreadableBody)
      else
        match decodeEntry limit validate frame.body with
        | .error escape => .error escape
        | .ok none => .ok ([], data, some .unreadableBody)
        | .ok (some entry) =>
          if takes sequence entry then
            (readFrames maxFrameBytes fuel entry.isFinalize (sequence + 1) rest).map fun read =>
              ((frame, entry) :: read.1, read.2)
          else .ok ([], data, some .unreadableBody)

/-- How `read_bytes` fails. -/
inductive ReadError where
  /-- `JournalUnreadableError` -/
  | unreadable
  | escaped (escape : Escape)
  deriving DecidableEq

/-- `read_bytes`, without a key. -/
def readBytes (maxFrameBytes : ℕ) (data : Bytes) : Except ReadError (JournalReplay α) :=
  match readFrames limit validate maxFrameBytes data.length false 1 data with
  | .error escape => .error (.escaped escape)
  | .ok (taken, rest, stop) =>
    match taken.map Prod.snd with
    | .opened header :: entries =>
      .ok
        { header
          entries
          lastSequence := (taken.getLast?.map fun pair => pair.1.sequence).getD 0
          tornTailBytes := rest.length
          afterFinalize := (taken.getLast?.any fun pair => pair.2.isFinalize) && 0 < rest.length
          stopReason := stop
          totalBytes := data.length }
    | _ => .error .unreadable

/-! ## A directory of journals -/

/-- A journal file: what is read of it, none for an `OSError`, and the size
that `stat` gives. -/
structure JournalFile where
  data : Option Bytes
  size : ℕ

inductive JournalState where
  | finalized
  | opened
  | unreadable
  deriving DecidableEq

structure JournalSummary where
  /-- Of the header: journal, session and bundle. -/
  ids : Option (String × String × String)
  state : JournalState
  lastSequence : ℕ
  tornTailBytes : ℕ
  totalBytes : ℕ
  deriving DecidableEq

/-- `summarize`: only the reader's own error and an `OSError` are caught. -/
def summarize (maxFrameBytes : ℕ) (file : JournalFile) : Except Escape JournalSummary :=
  match file.data.map (readBytes limit validate maxFrameBytes) with
  | none => .ok ⟨none, .unreadable, 0, file.size, file.size⟩
  | some (.error .unreadable) => .ok ⟨none, .unreadable, 0, file.size, file.size⟩
  | some (.error (.escaped escape)) => .error escape
  | some (.ok replay) =>
    .ok ⟨some (replay.header.journalId, replay.header.sessionId, replay.header.bundleId),
      if replay.finalize.isSome then .finalized else .opened, replay.lastSequence,
      replay.tornTailBytes, replay.totalBytes⟩

/-- `summarize_directory` -/
def summarizeDirectory (maxFrameBytes : ℕ) (files : List JournalFile) :
    Except Escape (List JournalSummary) :=
  files.mapM (summarize limit validate maxFrameBytes)

end Reading

/-! ## What is taken, and what escapes -/

section Specification

variable {α : Type} (limit : ℕ) (validate : EntryType → Value → Option (JournalEntry α))
  (maxFrameBytes : ℕ)

/-- The document opens more in one another than the interpreter does there, or
is an entry whose kind is a list or a dictionary. -/
def HostileBody (body : Bytes) : Prop :=
  documentOf limit body = some (.error .recursionError) ∨
    ∃ entries kind value, documentOf limit body = some (.ok (.object entries)) ∧
      (∀ key ∈ entries.map Prod.fst, key = Transcript.codesOf "k" ∨
        key = Transcript.codesOf "v") ∧
      getKey entries "k" = some kind ∧ getKey entries "v" = some value ∧
      ((∃ items, kind = .array items) ∨ ∃ entries', kind = .object entries')

/-- Frames that are taken one after the other, with their entries. Nothing is
taken after a finalize. -/
def Taken : ℕ → List (Frame × JournalEntry α) → Prop
  | _, [] => True
  | sequence, pair :: taken =>
    pair.1.Fits maxFrameBytes sequence ∧
      decodeEntry limit validate pair.1.body = .ok (some pair.2) ∧
      takes sequence pair.2 = true ∧ (pair.2.isFinalize = true → taken = []) ∧
      Taken (sequence + 1) taken

/-- After frames that are taken, none of them a finalize, stands an intact one
with a hostile body. -/
def Hostile (sequence : ℕ) (data : Bytes) : Prop :=
  ∃ taken, ∃ frame : Frame, ∃ rest, data = encoded (taken.map Prod.fst) ++ (frame.bytes ++ rest) ∧
    Taken limit validate maxFrameBytes sequence taken ∧
    (∀ pair ∈ taken, pair.2.isFinalize = false) ∧
    frame.Fits maxFrameBytes (sequence + taken.length) ∧ HostileBody limit frame.body

/-- Frame 1 is an intact, supported header. -/
def HasHeader (data : Bytes) : Prop :=
  ∃ frame : Frame, ∃ rest header, data = frame.bytes ++ rest ∧ frame.Fits maxFrameBytes 1 ∧
    decodeEntry limit validate frame.body = .ok (some (.opened header)) ∧
    header.journalFormatVersion = JOURNAL_FORMAT_VERSION

/-- What a replay is of a journal's bytes. -/
structure Replays (data : Bytes) (replay : JournalReplay α) : Prop where
  /-- The header and the entries are those of frames 1, 2, ... at the start of
  the data. -/
  frames : ∃ taken rest, data = encoded (taken.map Prod.fst) ++ rest ∧
    Taken limit validate maxFrameBytes 1 taken ∧
    taken.map Prod.snd = .opened replay.header :: replay.entries ∧
    replay.lastSequence = taken.length ∧ replay.tornTailBytes = rest.length
  supported : replay.header.journalFormatVersion = JOURNAL_FORMAT_VERSION
  oneHeader : ∀ entry ∈ replay.entries, entry.isOpened = false
  terminal : Terminal replay.entries

/-- Reading gives a replay of a journal with a header, and refuses one without
one. -/
def ReadsByDesign (data : Bytes) : Prop :=
  (HasHeader limit validate maxFrameBytes data ∧
    ∃ replay, readBytes limit validate maxFrameBytes data = .ok replay ∧
      Replays limit validate maxFrameBytes data replay) ∨
  (¬ HasHeader limit validate maxFrameBytes data ∧
    readBytes limit validate maxFrameBytes data = .error .unreadable)

end Specification

section Proofs

variable {α : Type} {limit : ℕ} {validate : EntryType → Value → Option (JournalEntry α)}
  {maxFrameBytes fuel sequence : ℕ} {data rest : Bytes} {finalized : Bool}
  {taken : List (Frame × JournalEntry α)} {stop : Option ScanStop} {escape : Escape}

theorem entryOf_raises {document : Value} :
    (∃ escape, entryOf validate document = .error escape) ↔ ∃ entries kind value,
      document = .object entries ∧
      (∀ key ∈ entries.map Prod.fst, key = Transcript.codesOf "k" ∨
        key = Transcript.codesOf "v") ∧
      getKey entries "k" = some kind ∧ getKey entries "v" = some value ∧
      ((∃ items, kind = .array items) ∨ ∃ entries', kind = .object entries') := by
  constructor
  · rintro ⟨escape, h⟩
    unfold entryOf at h
    split at h
    · next entries =>
      split at h
      · cases h
      · next hkeys =>
        split at h
        · next kind value hkind hvalue =>
          refine ⟨entries, kind, value, rfl, fun key hkey => ?_, hkind, hvalue, ?_⟩
          · by_contra hnot
            exact hkeys ⟨key, hkey, not_or.mp hnot⟩
          · split at h
            · next items => exact Or.inl ⟨items, rfl⟩
            · next entries' => exact Or.inr ⟨entries', rfl⟩
            · cases h
            · cases h
        · cases h
    · cases h
  · rintro ⟨entries, kind, value, rfl, hkeys, hkind, hvalue, hhostile⟩
    have hnot : ¬ ∃ key ∈ entries.map Prod.fst, key ≠ Transcript.codesOf "k" ∧
        key ≠ Transcript.codesOf "v" := by
      rintro ⟨key, hkey, hk, hv⟩
      exact (hkeys key hkey).elim hk hv
    refine ⟨.typeError, ?_⟩
    unfold entryOf
    dsimp only
    rw [if_neg hnot, hkind, hvalue]
    rcases hhostile with ⟨items, rfl⟩ | ⟨entries', rfl⟩ <;> rfl

/-- **A body makes its reading raise** exactly when it is hostile. -/
theorem decodeEntry_raises {body : Bytes} :
    (∃ escape, decodeEntry limit validate body = .error escape) ↔ HostileBody limit body := by
  unfold decodeEntry HostileBody
  cases documentOf limit body with
  | none => simp
  | some document =>
    cases document with
    | error error => cases error <;> simp
    | ok document =>
      refine (@entryOf_raises α validate document).trans ?_
      simp only [Option.some.injEq, reduceCtorEq, false_or, Except.ok.injEq]

/-- What one turn of the scan does with data. -/
theorem readFrames_succ (fuel : ℕ) (finalized : Bool) (sequence : ℕ) (hne : data ≠ []) :
    readFrames limit validate maxFrameBytes (fuel + 1) finalized sequence data =
      match splitFrame maxFrameBytes sequence data with
      | .error stop => .ok ([], data, some stop)
      | .ok (frame, rest) =>
        if finalized then .ok ([], data, some .unreadableBody)
        else
          match decodeEntry limit validate frame.body with
          | .error escape => .error escape
          | .ok none => .ok ([], data, some .unreadableBody)
          | .ok (some entry) =>
            if takes sequence entry then
              (readFrames limit validate maxFrameBytes fuel entry.isFinalize (sequence + 1)
                rest).map fun read => ((frame, entry) :: read.1, read.2)
            else .ok ([], data, some .unreadableBody) := by
  cases data with
  | nil => exact absurd rfl hne
  | cons byte data => rfl

/-- What a scan takes is a run of frames at the start of the data. -/
theorem taken_of_readFrames
    (h : readFrames limit validate maxFrameBytes fuel finalized sequence data =
      .ok (taken, rest, stop)) :
    data = encoded (taken.map Prod.fst) ++ rest ∧
      Taken limit validate maxFrameBytes sequence taken ∧ (finalized = true → taken = []) := by
  have hnothing : ∀ {data : Bytes} {finalized : Bool} {sequence : ℕ}
      {taken : List (Frame × JournalEntry α)} {rest : Bytes} {stop' : Option ScanStop},
      (Except.ok ([], data, stop') : Except Escape _) = .ok (taken, rest, stop) →
      data = encoded (taken.map Prod.fst) ++ rest ∧
        Taken limit validate maxFrameBytes sequence taken ∧ (finalized = true → taken = []) := by
    intro data finalized sequence taken rest stop' h
    obtain ⟨rfl, heq⟩ := Prod.ext_iff.mp (Except.ok.inj h)
    exact ⟨congrArg Prod.fst heq, trivial, fun _ => rfl⟩
  induction fuel generalizing finalized sequence data taken rest with
  | zero =>
    cases data with
    | nil => exact hnothing h
    | cons byte data => exact hnothing h
  | succ fuel ih =>
    by_cases hne : data = []
    · subst hne
      exact hnothing h
    · rw [readFrames_succ _ _ _ hne] at h
      split at h
      · exact hnothing h
      · next frame tail hsplit =>
        obtain ⟨hfits, rfl⟩ := splitFrame_eq_ok_iff.mp hsplit
        split at h
        · exact hnothing h
        · next hopen =>
          split at h
          · cases h
          · exact hnothing h
          · next entry hdecode =>
            split at h
            · next htakes =>
              cases hread : readFrames limit validate maxFrameBytes fuel entry.isFinalize
                  (sequence + 1) tail with
              | error escape =>
                rw [hread] at h
                cases h
              | ok read =>
                obtain ⟨taken', rest', stop'⟩ := read
                rw [hread] at h
                obtain ⟨rfl, heq⟩ := Prod.ext_iff.mp (Except.ok.inj h)
                obtain ⟨rfl, rfl⟩ := Prod.ext_iff.mp heq
                obtain ⟨rfl, htaken, hlast⟩ := ih hread
                refine ⟨?_, ⟨hfits, hdecode, htakes, hlast, htaken⟩, fun h => absurd h hopen⟩
                rw [List.map_cons, encoded_cons, List.append_assoc]
            · exact hnothing h

/-- What a scan raises a frame is to blame for. -/
theorem hostile_of_readFrames
    (h : readFrames limit validate maxFrameBytes fuel finalized sequence data = .error escape) :
    finalized = false ∧ Hostile limit validate maxFrameBytes sequence data := by
  induction fuel generalizing finalized sequence data escape with
  | zero => cases data <;> cases h
  | succ fuel ih =>
    by_cases hne : data = []
    · subst hne
      cases h
    · rw [readFrames_succ _ _ _ hne] at h
      split at h
      · cases h
      · next frame tail hsplit =>
        obtain ⟨hfits, rfl⟩ := splitFrame_eq_ok_iff.mp hsplit
        split at h
        · cases h
        · next hopen =>
          refine ⟨Bool.not_eq_true _ ▸ hopen, ?_⟩
          split at h
          · next escape' hdecode =>
            exact ⟨[], frame, tail, rfl, trivial, fun _ h => absurd h List.not_mem_nil, hfits,
              decodeEntry_raises.mp ⟨escape', hdecode⟩⟩
          · cases h
          · next entry hdecode =>
            split at h
            · next htakes =>
              cases hread : readFrames limit validate maxFrameBytes fuel entry.isFinalize
                  (sequence + 1) tail with
              | ok read =>
                rw [hread] at h
                cases h
              | error escape' =>
                obtain ⟨hlast, taken, frame', rest, rfl, htaken, hfinal, hfits', hescape⟩ := ih hread
                refine ⟨(frame, entry) :: taken, frame', rest, ?_,
                  ⟨hfits, hdecode, htakes, fun h => ?_, htaken⟩, ?_, ?_, hescape⟩
                · rw [List.map_cons, encoded_cons, List.append_assoc]
                · rw [hlast] at h
                  cases h
                · exact List.forall_mem_cons.mpr ⟨hlast, hfinal⟩
                · rwa [List.length_cons, show sequence + (taken.length + 1) =
                    sequence + 1 + taken.length by omega]
            · cases h

/-- A hostile frame that is reached is raised on. -/
theorem readFrames_of_hostile (hfuel : data.length ≤ fuel)
    (h : Hostile limit validate maxFrameBytes sequence data) :
    ∃ escape, readFrames limit validate maxFrameBytes fuel false sequence data =
      .error escape := by
  obtain ⟨taken, frame, rest, rfl, htaken, hfinal, hfits, hbody⟩ := h
  obtain ⟨escape, hescape⟩ := (@decodeEntry_raises α limit validate frame.body).mpr hbody
  induction taken generalizing fuel sequence with
  | nil =>
    cases fuel with
    | zero =>
      have hpos := frame.length_bytes
      simp only [List.map_nil, encoded_nil, List.nil_append, List.length_append, HEADER_SIZE]
        at hfuel hpos
      omega
    | succ fuel =>
      have hne : frame.bytes ++ rest ≠ [] := List.append_ne_nil_of_left_ne_nil frame.bytes_ne_nil _
      have hfirst : frame.Fits maxFrameBytes sequence := hfits
      refine ⟨escape, ?_⟩
      rw [List.map_nil, encoded_nil, List.nil_append, readFrames_succ _ _ _ hne,
        splitFrame_eq_ok_iff.mpr ⟨hfirst, rfl⟩]
      simp only [Bool.false_eq_true, if_false]
      rw [hescape]
  | cons pair taken ih =>
    obtain ⟨hpair, hdecode, htakes, -, htaken⟩ := htaken
    obtain ⟨hlast, hfinal⟩ := List.forall_mem_cons.mp hfinal
    cases fuel with
    | zero =>
      have hpos := pair.1.length_bytes
      simp only [List.map_cons, encoded_cons, List.length_append, HEADER_SIZE] at hfuel hpos
      omega
    | succ fuel =>
      have hsplit : encoded ((pair :: taken).map Prod.fst) ++ (frame.bytes ++ rest) =
          pair.1.bytes ++ (encoded (taken.map Prod.fst) ++ (frame.bytes ++ rest)) := by
        rw [List.map_cons, encoded_cons, List.append_assoc]
      rw [hsplit] at hfuel ⊢
      have hne := List.append_ne_nil_of_left_ne_nil pair.1.bytes_ne_nil
        (encoded (taken.map Prod.fst) ++ (frame.bytes ++ rest))
      have hlength : (encoded (taken.map Prod.fst) ++ (frame.bytes ++ rest)).length ≤ fuel := by
        have hpos := pair.1.length_bytes
        rw [List.length_append, hpos, HEADER_SIZE] at hfuel
        omega
      rw [List.length_cons, show sequence + (taken.length + 1) = sequence + 1 + taken.length by
        omega] at hfits
      obtain ⟨escape', hread⟩ := ih hlength htaken hfinal hfits
      refine ⟨escape', ?_⟩
      rw [readFrames_succ _ _ _ hne, splitFrame_eq_ok_iff.mpr ⟨hpair, rfl⟩]
      simp only [Bool.false_eq_true, if_false]
      rw [hdecode]
      simp only [htakes, if_true, hlast, hread]
      rfl

/-! ## Headers -/

theorem Taken.length_eq (h : Taken limit validate maxFrameBytes sequence taken) :
    ((taken.getLast?.map fun pair => pair.1.sequence).getD 0) =
      if taken = [] then 0 else sequence + taken.length - 1 := by
  induction taken generalizing sequence with
  | nil => rfl
  | cons pair taken ih =>
    obtain ⟨hfits, -, -, -, htaken⟩ := h
    cases taken with
    | nil => exact hfits.sequence
    | cons pair' taken =>
      rw [List.getLast?_cons_cons, ih htaken, if_neg (List.cons_ne_nil _ _),
        if_neg (List.cons_ne_nil _ _), List.length_cons (a := pair)]
      omega

/-- After the first, no entry that is taken is a header. -/
theorem Taken.oneHeader (h : Taken limit validate maxFrameBytes sequence taken)
    (hpos : 2 ≤ sequence) : ∀ entry ∈ taken.map Prod.snd, entry.isOpened = false := by
  induction taken generalizing sequence with
  | nil => exact fun _ h => absurd h List.not_mem_nil
  | cons pair taken ih =>
    obtain ⟨-, -, htakes, -, htaken⟩ := h
    rw [List.map_cons]
    refine List.forall_mem_cons.mpr ⟨?_, ih htaken (by omega)⟩
    cases hentry : pair.2 with
    | opened header =>
      rw [hentry] at htakes
      unfold takes at htakes
      split at htakes
      · omega
      · omega
      · cases htakes
      · next hnot _ => exact absurd rfl (hnot header)
    | record | limit | operationOpen | exhausted | finalize => rfl

theorem Taken.terminal (h : Taken limit validate maxFrameBytes sequence taken) :
    Terminal (taken.map Prod.snd) := by
  induction taken generalizing sequence with
  | nil =>
    intro before entry after heq
    exact absurd (congrArg List.length heq) (by simp)
  | cons pair taken ih =>
    obtain ⟨-, -, -, hlast, htaken⟩ := h
    intro before entry after heq hentry
    cases before with
    | nil =>
      obtain ⟨rfl, rfl⟩ := List.cons.inj heq
      rw [hlast hentry]
      rfl
    | cons first before =>
      obtain ⟨-, heq⟩ := List.cons.inj heq
      exact ih htaken before entry after heq hentry

/-- The first entry taken is a supported header. -/
theorem takes_one {entry : JournalEntry α} (h : takes 1 entry = true) :
    ∃ header, entry = .opened header ∧ header.journalFormatVersion = JOURNAL_FORMAT_VERSION := by
  cases entry with
  | opened header => exact ⟨header, rfl, of_decide_eq_true h⟩
  | _ => cases h

/-- A scan takes something exactly when there is a header. -/
theorem hasHeader_iff (h : readFrames limit validate maxFrameBytes data.length false 1 data =
    .ok (taken, rest, stop)) : HasHeader limit validate maxFrameBytes data ↔ taken ≠ [] := by
  obtain ⟨heq, htaken, -⟩ := taken_of_readFrames h
  constructor
  · rintro ⟨frame, tail, header, rfl, hfits, hdecode, hversion⟩ rfl
    have hne := List.append_ne_nil_of_left_ne_nil frame.bytes_ne_nil tail
    obtain ⟨n, hn⟩ := Nat.exists_eq_succ_of_ne_zero
      (Nat.pos_iff_ne_zero.mp (List.length_pos_iff.mpr hne))
    have htakes : takes 1 (.opened header : JournalEntry α) = true := decide_eq_true hversion
    rw [hn, readFrames_succ _ _ _ hne, splitFrame_eq_ok_iff.mpr ⟨hfits, rfl⟩] at h
    simp only [Bool.false_eq_true, if_false] at h
    rw [hdecode] at h
    simp only [htakes, if_true] at h
    cases hread : readFrames limit validate maxFrameBytes n
        (JournalEntry.isFinalize (.opened header : JournalEntry α)) (1 + 1) tail with
    | error escape =>
      rw [hread] at h
      cases h
    | ok read =>
      rw [hread] at h
      exact absurd (congrArg Prod.fst (Except.ok.inj h)) (List.cons_ne_nil _ _)
  · intro hne
    cases taken with
    | nil => exact absurd rfl hne
    | cons pair taken =>
      obtain ⟨hfits, hdecode, htakes, -⟩ := htaken
      obtain ⟨header, hentry, hversion⟩ := takes_one htakes
      rw [hentry] at hdecode
      refine ⟨pair.1, encoded (taken.map Prod.fst) ++ rest, header, ?_, hfits, hdecode, hversion⟩
      rw [heq, List.map_cons, encoded_cons, List.append_assoc]

/-! ## Reading -/

theorem readBytes_hostile (h : Hostile limit validate maxFrameBytes 1 data) :
    ∃ escape, readBytes limit validate maxFrameBytes data = .error (.escaped escape) := by
  obtain ⟨escape, hread⟩ := readFrames_of_hostile le_rfl h
  refine ⟨escape, ?_⟩
  unfold readBytes
  rw [hread]

/-- **A journal is read by design** exactly when no frame that is reached is
hostile. -/
theorem readsByDesign_iff : ReadsByDesign limit validate maxFrameBytes data ↔
    ¬ Hostile limit validate maxFrameBytes 1 data := by
  constructor
  · intro h hhostile
    obtain ⟨escape, hread⟩ := readBytes_hostile hhostile
    rcases h with ⟨-, replay, hreplay, -⟩ | ⟨-, hunreadable⟩
    · rw [hread] at hreplay
      cases hreplay
    · rw [hread] at hunreadable
      cases hunreadable
  · intro hnot
    cases hread : readFrames limit validate maxFrameBytes data.length false 1 data with
    | error escape => exact absurd (hostile_of_readFrames hread).2 hnot
    | ok read =>
      obtain ⟨taken, rest, stop⟩ := read
      obtain ⟨heq, htaken, -⟩ := taken_of_readFrames hread
      have hheader := hasHeader_iff hread
      have hlength := htaken.length_eq
      have hterminal := htaken.terminal
      cases taken with
      | nil =>
        refine Or.inr ⟨fun h => hheader.mp h rfl, ?_⟩
        unfold readBytes
        rw [hread]
        rfl
      | cons pair taken =>
        obtain ⟨header, hentry, hversion⟩ := takes_one htaken.2.2.1
        have hrest := htaken.2.2.2.2.oneHeader le_rfl
        have hentries : (pair :: taken).map Prod.snd = .opened header :: taken.map Prod.snd := by
          rw [List.map_cons, hentry]
        rw [hentries] at hterminal
        rw [if_neg (List.cons_ne_nil _ _), Nat.add_sub_cancel_left] at hlength
        refine Or.inl ⟨hheader.mpr (List.cons_ne_nil _ _), ?_⟩
        unfold readBytes
        rw [hread]
        dsimp only
        rw [hentries]
        exact ⟨_, rfl,
          { frames := ⟨pair :: taken, rest, heq, htaken, hentries, hlength, rfl⟩
            supported := hversion
            oneHeader := hrest
            terminal := hterminal.tail }⟩

/-- **A file is summarized** exactly when no frame that is reached is hostile. -/
theorem summarize_ok_iff {file : JournalFile} :
    (∃ summary, summarize limit validate maxFrameBytes file = .ok summary) ↔
      ∀ data, file.data = some data → ¬ Hostile limit validate maxFrameBytes 1 data := by
  unfold summarize
  cases hdata : file.data with
  | none => exact ⟨fun _ data h => absurd h (Option.some_ne_none data).symm, fun _ => ⟨_, rfl⟩⟩
  | some data =>
    have honly : (∀ data', some data = some data' →
        ¬ Hostile limit validate maxFrameBytes 1 data') ↔
        ¬ Hostile limit validate maxFrameBytes 1 data :=
      ⟨fun h => h data rfl, fun h data' heq => Option.some.inj heq ▸ h⟩
    rw [honly, Option.map_some]
    constructor
    · rintro ⟨summary, hok⟩ hhostile
      obtain ⟨escape, hread⟩ := readBytes_hostile hhostile
      rw [hread] at hok
      cases hok
    · intro hnot
      rcases readsByDesign_iff.mpr hnot with ⟨-, replay, hread, -⟩ | ⟨-, hread⟩ <;>
        exact hread ▸ ⟨_, rfl⟩

end Proofs

/-! ## A hostile journal -/

/-- An entry whose kind is a list. -/
def listKind : List Char :=
  ['{', '"', 'k', '"', ':', '[', ']', ',', '"', 'v', '"', ':', '{', '}', '}']

/-- A journal that is one intact frame of it. -/
def listKindFrame : Frame := ⟨1, listKind.flatMap String.utf8EncodeChar⟩

theorem loads_listKind : loads 1000 listKind =
    .ok (.object [([107], .array []), ([118], .object [])]) := by
  have htokens : tokens 15 listKind = [.openObject, .string [107], .colon, .openArray,
      .closeArray, .comma, .string [118], .colon, .openObject, .closeObject, .closeObject] := rfl
  unfold loads
  rw [show listKind.length = 15 from rfl, htokens]
  rfl

theorem documentOf_listKind : documentOf 1000 listKindFrame.body =
    some (.ok (.object [(Transcript.codesOf "k", .array []),
      (Transcript.codesOf "v", .object [])])) := by
  have hbytes : ByteArray.mk listKindFrame.body.toArray = listKind.utf8Encode :=
    ByteArray.ext List.data_toByteArray.symm
  unfold documentOf
  rw [hbytes, List.utf8Decode?_utf8Encode, Option.map_some, List.toList_toArray, loads_listKind]
  rfl

/-- Its reading raises a `TypeError`, and whatever journals stand beside it are
not summarized. -/
theorem listKind_not_readByDesign :
    ¬ ReadsByDesign 1000 (fun _ _ => (none : Option (JournalEntry Unit)))
      DEFAULT_MAX_FRAME_BYTES listKindFrame.bytes := by
  refine fun h => readsByDesign_iff.mp h ⟨[], listKindFrame, [], ?_, trivial,
    fun _ h => absurd h List.not_mem_nil, ?_, Or.inr ⟨_, _, _, documentOf_listKind, ?_, rfl, rfl,
      Or.inl ⟨[], rfl⟩⟩⟩
  · rw [List.append_nil]
    rfl
  · constructor <;> decide +kernel
  · decide

end Checkpoint

end Earshot
