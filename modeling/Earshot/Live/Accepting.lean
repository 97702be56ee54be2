import Earshot.Live.Feeding
import Earshot.Checkpoint.Scans
/-!
# An upload, all or nothing

A batch that is refused leaves every session as it was, and one that is
accepted only adds to a session, or begins another journal's
(`acceptFrames_allOrNothing_iff`), unless a journal that replaces another
meets a full registry, a new entry cannot be rendered, or the frames kept
were not all there before.
-/

namespace Earshot

namespace Live

open Checkpoint
open Relational

variable {α κ π : Type} [DecidableEq κ] {R : Governance α κ π} {C : LiveConfig}
variable {session session' : LiveSession κ π} {r : Registry κ π} {upload : Upload}

/-! ## A batch, whole or not at all -/

/-- The frames a session does not hold yet. -/
def newFrames (session : Option (LiveSession κ π)) (decoded : List (Decoded α)) :
    List (Decoded α) :=
  decoded.filter fun decoded =>
    !(session.any fun session => decide (decoded.sequence ≤ session.lastSequence))

/-- Nothing follows a finalize. -/
def EndsAtFinalize (decoded : List (Decoded α)) : Prop :=
  ∀ pre last post, decoded = pre ++ last :: post → last.entry.isFinalize = true → post = []

/-- **A session only grows.** -/
structure Extends (session session' : LiveSession κ π) (decoded : List (Decoded α))
    (events : List LiveEvent) : Prop where
  journalId : session'.journalId = session.journalId
  published : session'.published = session.published ++ events
  window : session'.events <:+ session.events ++ events
  recorded : session'.recorded =
    session.recorded ++ (newFrames (some session) decoded).map (·.frame)
  checksums : session.frameChecksums <+: session'.frameChecksums
  numbered : 0 < session.lastSequence →
    events.map (·.sequence) = List.range' (session.lastSequence + 1) events.length ∧
      session'.lastSequence = session.lastSequence + events.length
  repeated : ∀ d ∈ decoded, d.sequence ≤ session.lastSequence →
    session.checksum d.sequence = some d.checksum
  closed : session.closeObserved = true → newFrames (some session) decoded = []
  final : EndsAtFinalize (newFrames (some session) decoded)
  incomplete : session.framesComplete = false → session'.framesComplete = false
  sealed : session'.Sealed

/-- **A session that begins a journal.** -/
structure Begins (session' : LiveSession κ π) (header : JournalOpen α)
    (decoded : List (Decoded α)) (events : List LiveEvent) : Prop where
  journalId : session'.journalId = header.journalId
  published : session'.published = session'.openEvent :: events
  window : session'.events <:+ session'.published
  recorded : session'.recorded = decoded.map (·.frame)
  numbered : events.map (·.sequence) = List.range' 2 events.length ∧
    session'.lastSequence = events.length + 1
  final : EndsAtFinalize decoded
  sealed : session'.Sealed

/-- What an upload that is accepted does. -/
def Appends (R : Governance α κ π) (C : LiveConfig) (r r' : Registry κ π) (upload : Upload)
    (events : List LiveEvent) : Prop :=
  (∀ key, key ≠ upload.key → r'.sessions.find? key = r.sessions.find? key) ∧
    ∃ decoded session',
      decodeFrames R (scanFrames C.maxFrameBytes upload.firstSequence upload.payload).frames
        upload.payload = some decoded ∧
      r'.sessions.find? upload.key = some session' ∧
      ((∃ session, r.sessions.find? upload.key = some session ∧
          Extends session session' decoded events) ∨
        ∃ header,
          (∀ session, r.sessions.find? upload.key = some session →
            session.journalId ≠ header.journalId) ∧
          Begins session' header decoded events)

/-- **All or nothing.** -/
def AllOrNothing (R : Governance α κ π) (C : LiveConfig) (r : Registry κ π)
    (upload : Upload) : Prop :=
  match acceptFrames R C r upload with
  | (.error _, r') => ∀ key, r'.sessions.find? key = r.sessions.find? key
  | (.ok events, r') => Appends R C r r' upload events

/-! ## The condition -/

/-- Of a batch that passed the checks: a session it continues can render its
new entries, and held all its frames or no longer will; or it renders them not
and holds no trace. A journal that begins finds room, unless it replaces none,
and can be rendered. -/
def UploadFair (R : Governance α κ π) (C : LiveConfig) (r : Registry κ π)
    (upload : Upload) : Prop :=
  match plan R C r upload with
  | .error _ => True
  | .ok plan =>
      match plan.session, plan.header with
      | some session, _ =>
          (Rendered R session.journalId session.exportGate plan.fresh ∧
              (session.Sealed ∨ session.Overflows C plan.fresh)) ∨
            (¬ Rendered R session.journalId session.exportGate plan.fresh ∧
              Untouched R session plan.fresh)
      | none, none => True
      | none, some header =>
          if (r.without plan.replaced header).quotaFull C upload.projectId = true then
            plan.replaced = none
          else Rendered R header.journalId (.new R header) plan.fresh

/-! ## Events -/

theorem eventOf_sequence {gate : ExportGate κ π} {journalId : String} {decoded : Decoded α}
    {classes : List κ} {event : LiveEvent}
    (h : (eventOf R gate journalId decoded classes).2 = some event) :
    event.sequence = decoded.sequence := by
  unfold eventOf governedEntryEvent at h
  dsimp only at h
  split at h
  · obtain rfl := Option.some.inj h
    rfl
  · dsimp only at h
    split at h
    · obtain rfl := Option.some.inj h
      rfl
    · unfold entryEvent at h
      split at h
      · cases h
      · obtain ⟨payload, -, rfl⟩ := Option.map_eq_some_iff.mp h
        rfl

/-- **What is published** is at its own sequence. -/
theorem feed_sequences (fresh : List (Decoded α × List κ)) (session : LiveSession κ π)
    {events : List LiveEvent} (h : (feed R C session fresh).2 = some events) :
    events.map (·.sequence) =
      (fresh.map fun item => item.1.sequence).filter fun sequence => decide (1 < sequence) := by
  induction fresh generalizing session events with
  | nil =>
    obtain rfl := Option.some.inj h
    rfl
  | cons item rest ih =>
    obtain ⟨decoded, classes⟩ := item
    rw [feed_cons, feedFrame_eq] at h
    by_cases hsequence : 1 < decoded.sequence
    · rw [if_pos hsequence] at h
      cases hevent : (eventOf R session.exportGate session.journalId decoded classes).2 with
      | none =>
        rw [hevent] at h
        cases h
      | some event =>
        rw [hevent] at h
        obtain ⟨tail, htail, rfl⟩ := Option.map_eq_some_iff.mp h
        rw [List.map_cons, List.map_cons, List.filter_cons_of_pos (by simpa using hsequence),
          ih _ htail, eventOf_sequence hevent]
    · rw [if_neg hsequence] at h
      rw [List.map_cons, List.filter_cons_of_neg (by simpa using hsequence)]
      exact ih _ h

/-! ## Delivery -/

theorem evict_suffix (events : List LiveEvent) (bytes : ℕ) :
    (LiveSession.evict C events bytes).1 <:+ events := by
  induction events generalizing bytes with
  | nil => exact List.suffix_refl _
  | cons event rest ih =>
    cases rest with
    | nil => exact List.suffix_refl _
    | cons next rest =>
      unfold LiveSession.evict
      split
      · exact (ih _).trans (List.suffix_cons _ _)
      · exact List.suffix_refl _

/-- What delivery leaves of a session. -/
structure Delivered (C : LiveConfig) (session session' : LiveSession κ π)
    (events : List LiveEvent) : Prop where
  same : session' = { session with
    events := session'.events
    retainedBytes := session'.retainedBytes
    lastSequence := session'.lastSequence
    published := session'.published }
  published : session'.published = session.published ++ events
  window : session'.events <:+ session.events ++ events
  lastSequence : session'.lastSequence =
    (events.map (·.sequence)).foldl max session.lastSequence

omit [DecidableEq κ] in
theorem deliver_delivered (events : List LiveEvent) (session : LiveSession κ π) :
    Delivered C session (events.foldl (LiveSession.append C) session) events := by
  induction events generalizing session with
  | nil => exact ⟨rfl, (List.append_nil _).symm, by rw [List.append_nil]; exact List.suffix_refl _,
      rfl⟩
  | cons event rest ih =>
    have hrest := ih (session.append C event)
    have hwindow := evict_suffix (C := C) (session.events ++ [event])
      (session.retainedBytes + event.sizeBytes)
    refine ⟨hrest.same, ?_, ?_, hrest.lastSequence⟩
    · rw [List.foldl_cons, hrest.published]
      exact List.append_assoc _ [event] rest
    · refine hrest.window.trans ?_
      rw [show session.events ++ event :: rest = session.events ++ [event] ++ rest by simp]
      obtain ⟨dropped, hdropped⟩ := hwindow
      refine ⟨dropped, ?_⟩
      rw [← List.append_assoc]
      exact congrArg (· ++ rest) hdropped

omit [DecidableEq κ] in
theorem Delivered.sessionId {events : List LiveEvent} (h : Delivered C session session' events) :
    session'.sessionId = session.sessionId := by rw [h.same]

omit [DecidableEq κ] in
theorem Delivered.projectId {events : List LiveEvent} (h : Delivered C session session' events) :
    session'.projectId = session.projectId := by rw [h.same]

omit [DecidableEq κ] in
theorem Delivered.source {events : List LiveEvent} (h : Delivered C session session' events) :
    session'.source = session.source := by rw [h.same]

omit [DecidableEq κ] in
theorem Delivered.journalId {events : List LiveEvent} (h : Delivered C session session' events) :
    session'.journalId = session.journalId := by rw [h.same]

omit [DecidableEq κ] in
theorem Delivered.openEvent {events : List LiveEvent} (h : Delivered C session session' events) :
    session'.openEvent = session.openEvent := by rw [h.same]

omit [DecidableEq κ] in
theorem Delivered.exportGate {events : List LiveEvent} (h : Delivered C session session' events) :
    session'.exportGate = session.exportGate := by rw [h.same]

omit [DecidableEq κ] in
theorem Delivered.closeObserved {events : List LiveEvent}
    (h : Delivered C session session' events) :
    session'.closeObserved = session.closeObserved := by rw [h.same]

omit [DecidableEq κ] in
theorem Delivered.subscribers {events : List LiveEvent} (h : Delivered C session session' events) :
    session'.subscribers = session.subscribers := by rw [h.same]

omit [DecidableEq κ] in
theorem Delivered.frames {events : List LiveEvent} (h : Delivered C session session' events) :
    session'.frames = session.frames := by rw [h.same]

omit [DecidableEq κ] in
theorem Delivered.framesComplete {events : List LiveEvent}
    (h : Delivered C session session' events) :
    session'.framesComplete = session.framesComplete := by rw [h.same]

omit [DecidableEq κ] in
theorem Delivered.frameChecksums {events : List LiveEvent}
    (h : Delivered C session session' events) :
    session'.frameChecksums = session.frameChecksums := by rw [h.same]

omit [DecidableEq κ] in
theorem Delivered.recorded {events : List LiveEvent} (h : Delivered C session session' events) :
    session'.recorded = session.recorded := by rw [h.same]

/-- The last of consecutive sequences. -/
theorem foldl_max_range' (n start : ℕ) :
    (List.range' (start + 1) n).foldl max start = start + n := by
  induction n generalizing start with
  | zero => rfl
  | succ n ih =>
    rw [List.range'_succ, List.foldl_cons, Nat.max_eq_right (by omega), ih]
    omega

/-! ## What the checks find -/

theorem frameEnd_bytes {frame : Frame} {bound sequence : ℕ} (hfits : frame.Fits bound sequence)
    (rest : Bytes) : frameEnd (frame.bytes ++ rest) = frame.bytes.length := by
  have hlength : frame.body.length ≤ MAX_SEQUENCE := hfits.length
  unfold frameEnd
  rw [(frame.parts rest).2.2.1, fromBigEndian_packU32 (by unfold MAX_SEQUENCE at hlength; omega),
    frame.length_bytes]

omit [DecidableEq κ] in
/-- Frames that are decoded are cut where they end. -/
theorem decodeFrames_spec {frames : List Frame} {bound first : ℕ} {decoded : List (Decoded α)}
    (hnumbered : Numbered bound first frames)
    (h : decodeFrames R frames (encoded frames) = some decoded) :
    decoded.map (·.frame) = frames.map Frame.bytes ∧
      decoded.map (·.sequence) = List.range' first decoded.length := by
  induction frames generalizing first decoded with
  | nil =>
    obtain rfl := Option.some.inj h
    exact ⟨rfl, rfl⟩
  | cons frame frames ih =>
    obtain ⟨hfits, hrest⟩ := hnumbered
    unfold decodeFrames at h
    split at h
    · cases h
    · rw [encoded_cons, frameEnd_bytes hfits, List.drop_left, List.take_left] at h
      obtain ⟨tail, htail, rfl⟩ := Option.map_eq_some_iff.mp h
      obtain ⟨hframes, hsequences⟩ := ih hrest htail
      rw [List.map_cons, List.map_cons, List.map_cons, hframes, hsequences, List.length_cons,
        List.range'_succ, hfits.sequence]
      exact ⟨rfl, rfl⟩

omit [DecidableEq κ] in
/-- The frames that pass the preflight are the new ones. -/
theorem preflight_map {held : Option (LiveSession κ π)} {policy : π} {decoded : List (Decoded α)}
    {fresh : List (Decoded α × List κ)} (h : preflight R held policy decoded = some fresh) :
    fresh.map Prod.fst = newFrames held decoded := by
  induction decoded generalizing fresh with
  | nil =>
    obtain rfl := Option.some.inj h
    rfl
  | cons first rest ih =>
    unfold preflight at h
    unfold newFrames
    split at h
    · next hheld =>
      rw [List.filter_cons_of_neg (by rw [hheld]; decide)]
      exact ih h
    · next hheld =>
      rw [List.filter_cons_of_pos (by rw [eq_false_of_ne_true hheld]; rfl)]
      split at h
      · cases h
      · obtain ⟨tail, htail, rfl⟩ := Option.map_eq_some_iff.mp h
        rw [List.map_cons, ih htail]
        rfl

/-- What a batch that continues a session is. -/
structure Continues (held : Option (LiveSession κ π)) (closed : Bool)
    (decoded : List (Decoded α)) : Prop where
  headers : ∀ d ∈ decoded, d.entry.isOpened = true → d.sequence = 1
  repeated : ∀ session, held = some session → ∀ d ∈ decoded,
    d.sequence ≤ session.lastSequence → session.checksum d.sequence = some d.checksum
  closed : closed = true → newFrames held decoded = []
  final : EndsAtFinalize (newFrames held decoded)

omit [DecidableEq κ] in
theorem assertContinues_spec {held : Option (LiveSession κ π)} {closed : Bool}
    {decoded : List (Decoded α)} (h : assertContinues held closed decoded = .ok ()) :
    Continues held closed decoded := by
  induction decoded generalizing closed with
  | nil =>
    refine ⟨fun d hd => absurd hd (by simp), fun _ _ d hd => absurd hd (by simp), fun _ => rfl,
      fun pre last post heq => ?_⟩
    simp [newFrames] at heq
  | cons first rest ih =>
    unfold assertContinues at h
    split at h
    · cases h
    · next hheader =>
      have hheader : ∀ headers : ∀ d ∈ rest, d.entry.isOpened = true → d.sequence = 1,
          ∀ d ∈ first :: rest, d.entry.isOpened = true → d.sequence = 1 := by
        refine fun headers => List.forall_mem_cons.mpr ⟨fun hopened => ?_, headers⟩
        simpa [hopened] using hheader
      cases hheld : held.filter fun session => decide (first.sequence ≤ session.lastSequence) with
      | some session =>
        obtain ⟨rfl, hle⟩ := Option.filter_eq_some_iff.mp hheld
        have hle : first.sequence ≤ session.lastSequence := by simpa using hle
        have hnew : newFrames (some session) (first :: rest) =
            newFrames (some session) rest := by
          unfold newFrames
          rw [List.filter_cons_of_neg (by simpa using hle)]
        rw [hheld] at h
        dsimp only at h
        split at h
        · cases h
        · next recorded hrecorded =>
          split at h
          · cases h
          · next hsame =>
            obtain ⟨headers, hrepeated, hclosed, hfinal⟩ := ih h
            rw [not_not] at hsame
            refine ⟨hheader headers, fun session' hsession d hd hd' => ?_,
              fun hc => hnew ▸ hclosed hc, hnew ▸ hfinal⟩
            obtain rfl := Option.some.inj hsession
            rcases List.mem_cons.mp hd with rfl | hd
            · rw [hrecorded, hsame]
            · exact hrepeated session rfl d hd hd'
      | none =>
        rw [hheld] at h
        dsimp only at h
        split at h
        · cases h
        · next hopen =>
          obtain ⟨headers, hrepeated, hclosed, hfinal⟩ := ih h
          have hlater : ∀ session, held = some session →
              ¬ first.sequence ≤ session.lastSequence := by
            intro session hsession hle
            rw [hsession] at hheld
            simp [Option.filter, hle] at hheld
          have hnew : newFrames held (first :: rest) = first :: newFrames held rest := by
            unfold newFrames
            rw [List.filter_cons_of_pos]
            cases held with
            | none => rfl
            | some session => simpa using hlater session rfl
          refine ⟨hheader headers, fun session hsession d hd hd' => ?_, fun hc => absurd hc hopen, ?_⟩
          · rcases List.mem_cons.mp hd with rfl | hd
            · exact absurd hd' (hlater session hsession)
            · exact hrepeated session hsession d hd hd'
          · rw [hnew]
            intro pre last post heq hlast
            cases pre with
            | nil =>
              obtain ⟨rfl, rfl⟩ := List.cons.inj heq
              exact hclosed hlast
            | cons head pre =>
              obtain ⟨rfl, htail⟩ := List.cons.inj heq
              exact hfinal pre last post htail hlast

/-- **What the checks find** of a batch they pass. -/
structure Planned (R : Governance α κ π) (C : LiveConfig) (r : Registry κ π)
    (upload : Upload) (p : Plan α κ π) : Prop where
  kept : ∀ session, p.session = some session → r.sessions.find? upload.key = some session
  begun : p.session = none → r.sessions.find? upload.key = p.replaced ∧
    upload.firstSequence = 1 ∧ p.header ≠ none
  replaced : ∀ session header, p.replaced = some session → p.header = some header →
    session.journalId ≠ header.journalId
  header : openingHeader upload p.decoded = .ok p.header
  torn : (scanFrames C.maxFrameBytes upload.firstSequence upload.payload).tornTailBytes = 0
  decodes : decodeFrames R
    (scanFrames C.maxFrameBytes upload.firstSequence upload.payload).frames upload.payload =
      some p.decoded
  sequences : p.decoded.map (·.sequence) = List.range' upload.firstSequence p.decoded.length
  nonempty : p.decoded ≠ []
  frames : ∀ decoded ∈ p.decoded, 4 ≤ decoded.frame.length
  first : ∀ session, p.session = some session → upload.firstSequence ≤ session.lastSequence + 1
  fresh : p.fresh.map Prod.fst = newFrames p.session p.decoded
  continues : Continues p.session (p.session.any fun session => session.closeObserved) p.decoded

section Plans

omit [DecidableEq κ]

variable {p : Plan α κ π} {decoded : List (Decoded α)} {held : Option (LiveSession κ π)}
  {header : Option (JournalOpen α)}

/-- The checks on a payload, one after the other. -/
theorem plan_eq_ok (h : plan R C r upload = .ok p) :
    skips (r.sessions.find? upload.key) upload = none ∧
      (scanFrames C.maxFrameBytes upload.firstSequence upload.payload).tornTailBytes = 0 ∧
      (scanFrames C.maxFrameBytes upload.firstSequence upload.payload).frames ≠ [] ∧
      ∃ decoded, decodeFrames R
          (scanFrames C.maxFrameBytes upload.firstSequence upload.payload).frames
            upload.payload = some decoded ∧
        planDecoded R (r.sessions.find? upload.key) upload decoded = .ok p := by
  unfold plan at h
  dsimp only at h
  split at h
  · cases h
  · split at h
    · cases h
    · split at h
      · cases h
      · next hskips =>
        split at h
        · cases h
        · next hscan =>
          rw [not_or, not_not] at hscan
          split at h
          · cases h
          · split at h
            · cases h
            · next decoded hdecoded => exact ⟨hskips, hscan.1, hscan.2, decoded, hdecoded, h⟩

/-- The checks on what was decoded. -/
theorem planDecoded_eq_ok (h : planDecoded R held upload decoded = .ok p) :
    p.decoded = decoded ∧ openingHeader upload decoded = .ok p.header ∧
      p.replaced = replacedBy held p.header ∧
      p.session = (if p.replaced.isSome then none else held) ∧
      assertContinues p.session (p.session.any fun session => session.closeObserved) decoded =
        .ok () ∧
      preflight R p.session (batchPolicy R p.session p.header) decoded = some p.fresh := by
  unfold planDecoded at h
  split at h
  · cases h
  · next header hheader =>
    dsimp only at h
    split at h
    · cases h
    · next hcontinues =>
      split at h
      · cases h
      · next fresh hfresh =>
        obtain rfl := Except.ok.inj h
        exact ⟨rfl, hheader, rfl, rfl, hcontinues, hfresh⟩

/-- What is decoded of whole frames. -/
theorem decoded_of_whole
    (htorn : (scanFrames C.maxFrameBytes upload.firstSequence upload.payload).tornTailBytes = 0)
    (hframes : (scanFrames C.maxFrameBytes upload.firstSequence upload.payload).frames ≠ [])
    (h : decodeFrames R (scanFrames C.maxFrameBytes upload.firstSequence upload.payload).frames
      upload.payload = some decoded) :
    decoded.map (·.sequence) = List.range' upload.firstSequence decoded.length ∧
      decoded ≠ [] ∧ ∀ d ∈ decoded, 4 ≤ d.frame.length := by
  -- the payload is the frames' own bytes
  obtain ⟨frames, rest, hpayload, hnumbered, hstops⟩ :=
    exists_encoded C.maxFrameBytes upload.firstSequence upload.payload
  obtain ⟨hscan, -, hrest⟩ := scanFrames_spec hnumbered hstops
  rw [← hpayload] at hscan hrest
  rw [hrest] at htorn
  rw [hscan] at hframes h
  rw [List.length_eq_zero_iff.mp htorn, List.append_nil] at hpayload
  rw [hpayload] at h
  obtain ⟨hbytes, hsequences⟩ := decodeFrames_spec hnumbered h
  refine ⟨hsequences, ?_, fun d hd => ?_⟩
  · rintro rfl
    exact hframes (List.map_eq_nil_iff.mp hbytes.symm)
  · have hmem : d.frame ∈ frames.map Frame.bytes := hbytes ▸ List.mem_map_of_mem hd
    obtain ⟨frame, -, hframe⟩ := List.mem_map.mp hmem
    rw [← hframe, frame.length_bytes, CHECKSUM_SIZE]
    omega

/-- A batch has a header exactly when it begins a journal. -/
theorem openingHeader_ne_none (h : openingHeader upload decoded = .ok header) :
    header ≠ none ↔ upload.firstSequence = 1 := by
  unfold openingHeader at h
  split at h
  · next hone =>
    refine ⟨fun _ => hone, fun _ => ?_⟩
    rintro rfl
    split at h
    · split at h
      · cases h
      · split at h <;> cases h
    · cases h
  · next hlater => exact ⟨fun hsome => absurd (Except.ok.inj h).symm hsome, fun h => absurd h hlater⟩

/-- A batch that does not begin a journal continues what is held. -/
theorem skips_eq_none (h : skips held upload = none) (hlater : upload.firstSequence ≠ 1) :
    ∃ session, held = some session ∧ upload.firstSequence ≤ session.lastSequence + 1 := by
  unfold skips at h
  rw [if_neg hlater] at h
  split at h
  · cases h
  · next session =>
    split at h
    · cases h
    · exact ⟨session, rfl, by omega⟩

theorem plan_planned (h : plan R C r upload = .ok p) : Planned R C r upload p := by
  obtain ⟨hskips, htorn, hframes, decoded, hdecoded, h⟩ := plan_eq_ok h
  obtain ⟨rfl, hheader, hreplaced, hsession, hcontinues, hfresh⟩ := planDecoded_eq_ok h
  obtain ⟨hsequences, hnonempty, hlong⟩ := decoded_of_whole htorn hframes hdecoded
  have hkept : ∀ session, p.session = some session →
      r.sessions.find? upload.key = some session := by
    intro session hsome
    rw [hsession] at hsome
    split at hsome
    · cases hsome
    · exact hsome
  refine ⟨hkept, fun hnone => ?_, fun session header hsome hheader' => ?_, hheader, htorn, hdecoded,
    hsequences, hnonempty, hlong, fun session hsome => ?_, preflight_map hfresh,
    assertContinues_spec hcontinues⟩
  · rw [hsession] at hnone
    split at hnone
    · next hisSome =>
      obtain ⟨session, hsome⟩ := Option.isSome_iff_exists.mp hisSome
      have hheld := hsome
      rw [hreplaced, replacedBy, Option.filter_eq_some_iff] at hheld
      have hsome' : p.header ≠ none := by
        intro hnone
        rw [hnone] at hheld
        cases hheld.2
      exact ⟨hheld.1.trans hsome.symm, (openingHeader_ne_none hheader).mp hsome', hsome'⟩
    · have hone : upload.firstSequence = 1 := by
        by_contra hlater
        obtain ⟨session, hheld, -⟩ := skips_eq_none hskips hlater
        rw [hnone] at hheld
        cases hheld
      rw [hreplaced, hnone]
      exact ⟨rfl, hone, (openingHeader_ne_none hheader).mpr hone⟩
  · rw [hreplaced, replacedBy, hheader', Option.filter_eq_some_iff] at hsome
    simpa using hsome.2
  · by_cases hone : upload.firstSequence = 1
    · omega
    · obtain ⟨session', hheld, hle⟩ := skips_eq_none hskips hone
      obtain rfl := Option.some.inj (hheld.symm.trans (hkept session hsome))
      exact hle

end Plans

/-! ## What the loop commits -/

theorem commit_raises {now : ℕ} {fresh : List (Decoded α × List κ)}
    (h : (feed R C session fresh).2 = none) :
    commit R C r now session fresh =
      (.error .unrenderable,
        { r with sessions := r.sessions.put (feed R C session fresh).1 }) := by
  unfold commit
  split
  · next heq => rw [heq]
  · next heq =>
    rw [heq] at h
    cases h
  · next heq =>
    rw [heq] at h
    cases h

theorem commit_ok (now : ℕ) {fresh : List (Decoded α × List κ)} {events : List LiveEvent}
    (h : (feed R C session fresh).2 = some events) :
    ∃ r' session' unixNano, commit R C r now session fresh = (.ok events, r') ∧
      r'.sessions = r.sessions.put session' ∧
      Delivered C
        ({ (feed R C session fresh).1 with lastAppendUnixNano := unixNano }.record fresh)
        session' events := by
  unfold commit
  split
  · next heq =>
    rw [heq] at h
    cases h
  · next session₁ heq =>
    rw [heq] at h
    obtain rfl := Option.some.inj h
    refine ⟨_, _, session₁.lastAppendUnixNano, rfl, rfl, ?_⟩
    rw [heq]
    exact deliver_delivered [] _
  · next session₁ events' _ heq =>
    rw [heq] at h
    obtain rfl := Option.some.inj h
    refine ⟨_, _, now, rfl, rfl, ?_⟩
    rw [heq]
    exact deliver_delivered _ _

omit [DecidableEq κ] in
/-- The session a commit leaves is sealed where the loop's is. -/
theorem Delivered.sealed_iff {fresh : List (Decoded α × List κ)} {unixNano : ℕ}
    {events : List LiveEvent}
    (h : Delivered C (({ session with lastAppendUnixNano := unixNano } :
      LiveSession κ π).record fresh) session' events) :
    session'.Sealed ↔ (session.record fresh).Sealed := by
  rw [h.same]
  exact Iff.rfl

theorem filter_range' (first n last : ℕ) (h : first ≤ last + 1) :
    (List.range' first n).filter (fun sequence => !decide (sequence ≤ last)) =
      List.range' (last + 1) (first + n - (last + 1)) := by
  induction n generalizing first with
  | zero =>
    rw [show first + 0 - (last + 1) = 0 by omega]
    rfl
  | succ n ih =>
    rw [List.range'_succ]
    by_cases hfirst : first ≤ last
    · rw [List.filter_cons_of_neg (by simpa using hfirst), ih (first + 1) (by omega),
        show first + 1 + n = first + (n + 1) by omega]
    · obtain rfl : first = last + 1 := by omega
      rw [List.filter_cons_of_pos (by simp), show last + 1 + (n + 1) - (last + 1) = n + 1 by omega,
        List.range'_succ]
      congr 1
      rw [List.filter_eq_self]
      intro sequence hsequence
      have hbounds := List.mem_range'_1.mp hsequence
      simp only [Bool.not_eq_eq_eq_not, Bool.not_true, decide_eq_false_iff_not]
      omega

omit [DecidableEq κ] in
theorem map_newFrames (held : LiveSession κ π) (decoded : List (Decoded α)) :
    (newFrames (some held) decoded).map (·.sequence) =
      (decoded.map (·.sequence)).filter fun sequence => !decide (sequence ≤ held.lastSequence) := by
  unfold newFrames
  rw [List.filter_map]
  rfl

omit [DecidableEq κ] in
theorem newFrames_none (decoded : List (Decoded α)) :
    newFrames (none : Option (LiveSession κ π)) decoded = decoded := by
  unfold newFrames
  rw [List.filter_eq_self]
  intro d _
  rfl

/-- Sequences past the first are events' own. -/
theorem filter_range'_of_pos {start n : ℕ} (h : 1 < start) :
    (List.range' start n).filter (fun sequence => decide (1 < sequence)) = List.range' start n := by
  rw [List.filter_eq_self]
  intro sequence hsequence
  have hbounds := List.mem_range'_1.mp hsequence
  simp only [decide_eq_true_eq]
  omega

/-- **A session that is kept only grows**, and holds its frames where it did,
or where they outgrow it. -/
theorem commit_extends {p : Plan α κ π} (hp : Planned R C r upload p)
    (hkept : p.session = some session) {unixNano : ℕ} {events : List LiveEvent}
    (hfeed : (feed R C session p.fresh).2 = some events)
    (hdelivered : Delivered C
      (({ (feed R C session p.fresh).1 with lastAppendUnixNano := unixNano } :
        LiveSession κ π).record p.fresh) session' events) :
    Extends session session' p.decoded events ↔
      session.Sealed ∨ session.Overflows C p.fresh := by
  have hsealed := feed_sealed_iff (R := R) (C := C) p.fresh session
    (by rw [hfeed]; simp)
  rw [← hdelivered.sealed_iff] at hsealed
  rw [← hsealed]
  have hbelow := LiveSession.Below.feed (R := R) (C := C) p.fresh session
  have hcontinues := hp.continues
  have hfresh := hp.fresh
  rw [hkept] at hcontinues hfresh
  constructor
  · exact fun h => h.sealed
  · intro hseal
    refine ⟨hdelivered.journalId.trans hbelow.journalId, ?_, ?_, ?_, ?_, fun hpos => ?_,
      hcontinues.repeated session rfl, ?_, hcontinues.final, ?_, hseal⟩
    · rw [hdelivered.published]
      exact congrArg (· ++ events) hbelow.published
    · rw [← hbelow.events]
      exact hdelivered.window
    · rw [hdelivered.recorded, ← hfresh, List.map_map]
      exact congrArg (· ++ _) hbelow.recorded
    · rw [hdelivered.frameChecksums]
      exact hbelow.checksums
    · have hsequences := feed_sequences p.fresh session hfeed
      have hnew : p.fresh.map (fun item => item.1.sequence) =
          List.range' (session.lastSequence + 1)
            (upload.firstSequence + p.decoded.length - (session.lastSequence + 1)) := by
        rw [← filter_range' _ _ _ (hp.first session hkept), ← hp.sequences, ← map_newFrames,
          ← hfresh, List.map_map]
        rfl
      rw [hnew, filter_range'_of_pos (by omega)] at hsequences
      have hlength := congrArg List.length hsequences
      rw [List.length_map, List.length_range'] at hlength
      rw [hsequences, hlength]
      refine ⟨rfl, ?_⟩
      rw [hdelivered.lastSequence, hsequences]
      have hmax := foldl_max_range'
        (upload.firstSequence + p.decoded.length - (session.lastSequence + 1))
        session.lastSequence
      rw [← hbelow.lastSequence] at hmax ⊢
      exact hmax
    · intro hc
      exact hcontinues.closed hc
    · intro hc
      rw [hdelivered.framesComplete]
      exact hbelow.framesIncomplete hc

/-- The session a journal begins with. -/
def Upload.begin (R : Governance α κ π) (C : LiveConfig) (upload : Upload)
    (header : JournalOpen α) : LiveSession κ π :=
  let session := Registry.newSession R upload.now upload.sessionId upload.projectId
    .checkpoint header true
  session.append C session.openEvent

/-- **A session that is begun** holds what its batch does. -/
theorem commit_begins {p : Plan α κ π} {header : JournalOpen α}
    (hp : Planned R C r upload p) (hkept : p.session = none) {unixNano : ℕ}
    {events : List LiveEvent}
    (hfeed : (feed R C (upload.begin R C header) p.fresh).2 = some events)
    (hdelivered : Delivered C
      (({ (feed R C (upload.begin R C header) p.fresh).1 with
        lastAppendUnixNano := unixNano } : LiveSession κ π).record p.fresh) session' events) :
    Begins session' header p.decoded events := by
  have hbelow := LiveSession.Below.feed (R := R) (C := C) p.fresh
    (upload.begin R C header)
  have hcontinues := hp.continues
  have hfresh := hp.fresh
  rw [hkept, newFrames_none] at hfresh
  rw [hkept] at hcontinues
  have hopened : session'.openEvent = (upload.begin R C header).openEvent :=
    hdelivered.openEvent.trans hbelow.openEvent
  have hevents : (feed R C (upload.begin R C header) p.fresh).1.events =
      [session'.openEvent] := by
    rw [hbelow.events, hopened]
    rfl
  have hlog : session'.published = session'.openEvent :: events := by
    have hpublished : (feed R C (upload.begin R C header) p.fresh).1.published =
        [session'.openEvent] := by
      rw [hbelow.published, hopened]
      rfl
    rw [hdelivered.published]
    exact congrArg (· ++ events) hpublished
  refine ⟨hdelivered.journalId.trans hbelow.journalId, hlog, ?_, ?_, ?_, ?_, ?_⟩
  · have hwindow : session'.events <:+
        (feed R C (upload.begin R C header) p.fresh).1.events ++ events :=
      hdelivered.window
    rw [hevents] at hwindow
    rw [hlog]
    exact hwindow
  · rw [hdelivered.recorded, ← hfresh, List.map_map]
    exact congrArg (· ++ _) hbelow.recorded
  · have hsequences := feed_sequences p.fresh _ hfeed
    obtain ⟨m, hm⟩ : ∃ m, p.decoded.length = m + 1 :=
      ⟨p.decoded.length - 1, by
        have := List.length_pos_iff.mpr hp.nonempty
        omega⟩
    have hnew : p.fresh.map (fun item => item.1.sequence) = List.range' 1 (m + 1) := by
      have hdecoded := hp.sequences
      rw [(hp.begun hkept).2.1, hm] at hdecoded
      rw [← hdecoded, ← hfresh, List.map_map]
      rfl
    rw [hnew, List.range'_succ, List.filter_cons_of_neg (by decide),
      filter_range'_of_pos (by decide)] at hsequences
    have hlength := congrArg List.length hsequences
    rw [List.length_map, List.length_range'] at hlength
    rw [hsequences, hlength]
    refine ⟨rfl, ?_⟩
    have hone : (feed R C (upload.begin R C header) p.fresh).1.lastSequence = 1 :=
      hbelow.lastSequence.trans rfl
    have hmax := foldl_max_range' m 1
    rw [← hone] at hmax
    rw [hdelivered.lastSequence, hsequences, Nat.add_comm m, ← hone]
    exact hmax
  · have hfinal := hcontinues.final
    rw [newFrames_none] at hfinal
    exact hfinal
  · rw [hdelivered.sealed_iff, feed_sealed_iff p.fresh _ (by rw [hfeed]; simp)]
    exact .inl (.inl ⟨rfl, rfl⟩)

/-! ## All or nothing -/

omit [DecidableEq κ] in
/-- A session in place of the one held is no change where it is the same. -/
theorem put_unchanged_iff (hheld : r.sessions.find? upload.key = some session)
    (hkey : session'.key = upload.key) :
    (∀ key, (r.sessions.put session').find? key = r.sessions.find? key) ↔ session' = session := by
  constructor
  · intro h
    have hput := h upload.key
    rw [Table.find?_put, if_pos hkey, hheld] at hput
    exact Option.some.inj hput
  · rintro rfl key
    rw [Table.find?_put]
    split
    · next heq =>
      rw [← heq, hkey, hheld]
    · rfl

/-- A batch for a session that is kept. -/
theorem commit_kept_iff {p : Plan α κ π} (hp : Planned R C r upload p)
    (hkept : p.session = some session) :
    (match commit R C r upload.now session p.fresh with
      | (.error _, r') => ∀ key, r'.sessions.find? key = r.sessions.find? key
      | (.ok events, r') => Appends R C r r' upload events) ↔
      (Rendered R session.journalId session.exportGate p.fresh ∧
          (session.Sealed ∨ session.Overflows C p.fresh)) ∨
        (¬ Rendered R session.journalId session.exportGate p.fresh ∧
          Untouched R session p.fresh) := by
  have hheld := hp.kept session hkept
  have hkey : session.key = upload.key := Table.key_of_find? hheld
  have hbelow := LiveSession.Below.feed (R := R) (C := C) p.fresh session
  have hkey' : (feed R C session p.fresh).1.key = upload.key := by
    rw [← hkey]
    unfold LiveSession.key
    rw [hbelow.projectId, hbelow.sessionId]
  have hlong : ∀ item ∈ p.fresh, 4 ≤ item.1.frame.length := by
    intro item hitem
    have hmem : item.1 ∈ newFrames p.session p.decoded := hp.fresh ▸ List.mem_map_of_mem hitem
    exact hp.frames item.1 (List.mem_of_mem_filter hmem)
  rw [← feed_rendered (C := C)]
  cases hfeed : (feed R C session p.fresh).2 with
  | none =>
    rw [commit_raises hfeed]
    dsimp only
    rw [put_unchanged_iff hheld hkey', feed_untouched p.fresh session hlong hfeed]
    simp
  | some events =>
    obtain ⟨r', session', unixNano, hcommit, hsessions, hdelivered⟩ :=
      commit_ok (r := r) upload.now hfeed
    have hsession : session'.key = upload.key := by
      rw [← hkey']
      unfold LiveSession.key
      rw [hdelivered.projectId, hdelivered.sessionId]
      rfl
    rw [hcommit]
    dsimp only
    rw [← commit_extends hp hkept hfeed hdelivered]
    constructor
    · rintro ⟨-, decoded, session'', hdecoded, hfind, happends⟩
      obtain rfl := Option.some.inj (hp.decodes.symm.trans hdecoded)
      rw [hsessions, Table.find?_put, if_pos hsession] at hfind
      obtain rfl := Option.some.inj hfind
      rcases happends with ⟨held, hheld', hextends⟩ | ⟨header, hother, hbegins⟩
      · obtain rfl := Option.some.inj (hheld.symm.trans hheld')
        exact .inl ⟨by simp, hextends⟩
      · have hjournal : session'.journalId = session.journalId :=
          hdelivered.journalId.trans hbelow.journalId
        exact absurd (hjournal.symm.trans hbegins.journalId) (hother session hheld)
    · rintro (⟨-, hextends⟩ | ⟨hnot, -⟩)
      · refine ⟨fun key hne => ?_, p.decoded, session', hp.decodes, ?_,
          .inl ⟨session, hheld, hextends⟩⟩
        · rw [hsessions, Table.find?_put, if_neg fun h => hne (h.symm.trans hsession)]
        · rw [hsessions, Table.find?_put, if_pos hsession]
      · exact absurd (by simp) hnot

omit [DecidableEq κ] in
theorem find?_without {replaced : Option (LiveSession κ π)} {header : JournalOpen α}
    (hheld : r.sessions.find? upload.key = replaced) (key : String × String) :
    (r.without replaced header).sessions.find? key =
      if key = upload.key then none else r.sessions.find? key := by
  unfold Registry.without
  cases replaced with
  | none =>
    dsimp only
    split
    · next heq => rw [heq, hheld]
    · rfl
  | some session =>
    have hkey : session.key = upload.key := Table.key_of_find? hheld
    unfold Registry.resetSession
    dsimp only
    split
    · next heq =>
      rw [Table.find?_delete, heq, hheld]
      simp [Option.filter]
    · next hne =>
      refine Table.find?_delete_of_ne fun other _ hother => decide_eq_false fun h => hne ?_
      rw [← hother, h, hkey]

/-- A batch that begins a journal. -/
theorem commit_begun_iff {p : Plan α κ π} {header : JournalOpen α}
    (hp : Planned R C r upload p) (hkept : p.session = none)
    (hheader : p.header = some header) :
    (match commit R C ((r.without p.replaced header).deliver C
          (Registry.newSession R upload.now upload.sessionId upload.projectId .checkpoint header
            true)
          [(Registry.newSession R upload.now upload.sessionId upload.projectId .checkpoint header
            true).openEvent]) upload.now (upload.begin R C header) p.fresh with
      | (.error _, r') => ∀ key, r'.sessions.find? key = r.sessions.find? key
      | (.ok events, r') => Appends R C r r' upload events) ↔
      Rendered R header.journalId (.new R header) p.fresh := by
  obtain ⟨hheld, -, -⟩ := hp.begun hkept
  have hbelow := LiveSession.Below.feed (R := R) (C := C) p.fresh
    (upload.begin R C header)
  have hkey' : (feed R C (upload.begin R C header) p.fresh).1.key = upload.key := by
    unfold LiveSession.key
    rw [hbelow.projectId, hbelow.sessionId]
    rfl
  have hother (session : LiveSession κ π) (hsession : r.sessions.find? upload.key = some session) :
      session.journalId ≠ header.journalId :=
    hp.replaced session header (hheld ▸ hsession) hheader
  have hrendered := feed_rendered (R := R) (C := C) p.fresh
    (upload.begin R C header)
  rw [show (upload.begin R C header).journalId = header.journalId from rfl,
    show (upload.begin R C header).exportGate = .new R header from rfl] at hrendered
  rw [← hrendered]
  cases hfeed : (feed R C (upload.begin R C header) p.fresh).2 with
  | none =>
    rw [commit_raises hfeed]
    refine ⟨fun h => ?_, fun h => absurd rfl h⟩
    have hput := h upload.key
    dsimp only at hput
    rw [Table.find?_put, if_pos hkey'] at hput
    refine absurd ?_ (hother _ hput.symm)
    rw [hbelow.journalId]
    rfl
  | some events =>
    obtain ⟨r', session', unixNano, hcommit, hsessions, hdelivered⟩ :=
      commit_ok (r := (r.without p.replaced header).deliver C
        (Registry.newSession R upload.now upload.sessionId upload.projectId .checkpoint header
          true)
        [(Registry.newSession R upload.now upload.sessionId upload.projectId .checkpoint header
          true).openEvent]) upload.now hfeed
    have hsession : session'.key = upload.key := by
      rw [← hkey']
      unfold LiveSession.key
      rw [hdelivered.projectId, hdelivered.sessionId]
      rfl
    rw [hcommit]
    refine ⟨fun _ => by simp, fun _ => ⟨fun key hne => ?_, p.decoded, session', hp.decodes, ?_,
      .inr ⟨header, hother, commit_begins hp hkept hfeed hdelivered⟩⟩⟩
    · rw [hsessions, Table.find?_put, if_neg fun h => hne (h.symm.trans hsession)]
      unfold Registry.deliver
      dsimp only
      rw [Table.find?_put, if_neg fun h => hne (h.symm.trans rfl), find?_without hheld,
        if_neg hne]
    · rw [hsessions, Table.find?_put, if_pos hsession]

/-- **An upload is all or nothing**, and only adds, exactly where it is fair. -/
theorem acceptFrames_allOrNothing_iff (R : Governance α κ π) (C : LiveConfig)
    (r : Registry κ π) (upload : Upload) :
    AllOrNothing R C r upload ↔ UploadFair R C r upload := by
  unfold AllOrNothing UploadFair acceptFrames
  cases hplan : plan R C r upload with
  | error e => exact ⟨fun _ => trivial, fun _ _ => rfl⟩
  | ok p =>
    have hp := plan_planned hplan
    dsimp only
    cases hkept : p.session with
    | some session => exact commit_kept_iff hp hkept
    | none =>
      obtain ⟨hheld, -, hheader⟩ := hp.begun hkept
      obtain ⟨header, hheader⟩ := Option.ne_none_iff_exists'.mp hheader
      rw [hheader]
      dsimp only
      by_cases hfull : (r.without p.replaced header).quotaFull C upload.projectId = true
      · rw [if_pos hfull, if_pos hfull]
        constructor
        · intro h
          have hreplaced := h upload.key
          rw [find?_without hheld, if_pos rfl, hheld] at hreplaced
          exact hreplaced.symm
        · intro hreplaced key
          rw [find?_without hheld]
          split
          · next heq => rw [heq, hheld, hreplaced]
          · rfl
      · rw [if_neg hfull, if_neg hfull]
        exact commit_begun_iff hp hkept hheader

/-! ## A journal that replaces another in a full registry -/

def sampleHeader (journalId sessionId : String) : JournalOpen Unit :=
  { journalFormatVersion := JOURNAL_FORMAT_VERSION
    journalId := journalId
    sessionId := sessionId
    bundleId := "bundle"
    rest := () }

/-- Entries that are headers of one session's journals. -/
def sampleGovernance : Governance Unit Unit Unit where
  decodeEntry
    | [1] => some (.opened (sampleHeader "first" "session"))
    | [2] => some (.opened (sampleHeader "second" "session"))
    | [3] => some (.record ())
    | _ => none
  capturePolicy _ := some ()
  metadataOnly := ()
  metadata := ()
  validateNonrecord _ := true
  classifyRecord _ _ := some []
  retainedClasses _ := []
  exportDenials _ _ := []
  openPayload _ _ _ := "{}"
  entryPayload _ := some "{}"
  withheldPayload _ _ := "{}"

/-- Room for one session. -/
def smallConfig : LiveConfig :=
  { maxSessions := 1
    maxSessionsPerProject := 1
    maxRecordsPerSession := 10
    maxReplayBytes := 100
    maxSealBytes := 100
    maxFrameBytes := 100
    maxJournalRecords := 10 }

def sampleUpload (body : UInt8) : Upload :=
  { projectId := "project"
    sessionId := "session"
    payload := Frame.bytes ⟨1, [body]⟩
    now := 0 }

/-- An uploaded session, and a local journal's, which meets no quota. -/
def crowded : Registry Unit Unit :=
  let r := (acceptFrames sampleGovernance smallConfig Registry.empty (sampleUpload 1)).2
  let session := Registry.newSession sampleGovernance 0 "local" "project" .journal
    (sampleHeader "third" "local") false
  r.deliver smallConfig session [session.openEvent]

/-- **The session that is replaced is gone when the quota refuses** the
journal that replaces it. -/
theorem not_allOrNothing_crowded :
    ¬ AllOrNothing sampleGovernance smallConfig crowded (sampleUpload 2) := by
  have hrefused : (acceptFrames sampleGovernance smallConfig crowded (sampleUpload 2)).1 =
      .error .capacity := by decide +kernel
  have hgone : (acceptFrames sampleGovernance smallConfig crowded
      (sampleUpload 2)).2.sessions.find? ("project", "session") = none := by decide +kernel
  have hheld : (crowded.sessions.find? ("project", "session")).isSome = true := by decide +kernel
  intro h
  unfold AllOrNothing at h
  split at h
  · next e r' heq =>
    have hsame := h ("project", "session")
    rw [heq] at hgone
    rw [← hsame, hgone] at hheld
    cases hheld
  · next events r' heq =>
    rw [heq] at hrefused
    cases hrefused

end Live

end Earshot
