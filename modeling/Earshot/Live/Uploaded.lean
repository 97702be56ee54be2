import Earshot.Live.Uploading
import Earshot.Live.OneJournal
/-!
# What a backend holds of an upload

A backend holds a prefix of the journal, every batch is a run of whole frames,
and an uploader that is ready delivers every whole frame or stops for a reason
(`run_uploaded`): unless it trusts a marker that is no boundary, or is past
what the backend holds with nothing further to send.
-/

namespace Earshot

namespace Live

open Checkpoint
open Relational

variable {α κ π : Type} [DecidableEq κ] {R : Governance α κ π} {C : LiveConfig}
variable {task : UploadTask} {sys sys' : Uploading κ π} {r r' : Registry κ π}
variable {session session' : LiveSession κ π}

/-! ## What the two sides hold -/

/-- How many bytes the first frames of a journal take. -/
def UploadTask.boundary (task : UploadTask) (k : ℕ) : ℕ := (encoded (task.frames.take k)).length

/-- The session's key. -/
def UploadTask.key (task : UploadTask) : String × String := (task.projectId, task.sessionId)

/-- **What a backend holds**: the first frames of a journal. -/
structure Holds (R : Governance α κ π) (task : UploadTask) (m : ℕ) (r : Registry κ π) :
    Prop where
  nothing : r.sessions.find? task.key = none → m = 0
  prefixed : ∀ session, r.sessions.find? task.key = some session →
    1 ≤ m ∧ session.recorded = (task.frames.take m).map Frame.bytes ∧
      session.lastSequence = m ∧
      ∃ header, (task.frames.head?.bind fun frame => R.decodeEntry frame.body) =
        some (.opened header) ∧ session.journalId = header.journalId
  bounded : m ≤ task.frames.length

/-- A run of whole frames. -/
def WholeFrames (task : UploadTask) (batch : Bytes) : Prop :=
  ∃ a b, 1 ≤ b ∧ a + b ≤ task.frames.length ∧ batch = encoded ((task.frames.drop a).take b)

/-- The backend holds every frame that is whole. -/
def CaughtUp (R : Governance α κ π) (task : UploadTask) (sys : Uploading κ π) : Prop :=
  ∃ m, Holds R task m sys.registry ∧ task.boundary m ≤ sys.written ∧
    (m < task.frames.length → sys.written < task.boundary (m + 1))

/-- Flushes that the backend answers, at these times. -/
def Uploading.flushes (R : Governance α κ π) (C : LiveConfig) (task : UploadTask)
    (sys : Uploading κ π) (times : ℕ → ℕ) : ℕ → Uploading κ π
  | 0 => sys
  | n + 1 => (Uploading.flushes R C task sys times n).flush R C task true (times n)
      .answered .answered

/-- **Uploads reproduce a prefix of the journal.** -/
structure Uploaded (R : Governance α κ π) (C : LiveConfig) (task : UploadTask)
    (sys : Uploading κ π) : Prop where
  holds : ∃ m, Holds R task m sys.registry
  batches : ∀ batch ∈ sys.sent, WholeFrames task batch
  /-- A ready uploader is not stuck: it stops, or the backend catches up. -/
  settles : sys.state = .ready → ∀ times, ∃ n,
    (sys.flushes R C task times n).state ≠ .ready ∨
      CaughtUp R task (sys.flushes R C task times n)

/-- An uploader that finds a frame undeliverable has delivered all before
it. -/
def StopsAt (R : Governance α κ π) (task : UploadTask) (sys sys' : Uploading κ π) : Prop :=
  ∀ sequence size, sys.state = .ready → sys'.state = .undeliverable sequence size →
    ∃ k frame, Holds R task k sys'.registry ∧ task.frames[k]? = some frame ∧
      sequence = frame.sequence ∧ size = frame.bytes.length ∧ MAX_CHECKPOINT_FRAME_BYTES < size

/-! ## The condition -/

/-- A whole frame that may be sent follows the first `k`. -/
def Sendable (task : UploadTask) (written k : ℕ) : Prop :=
  ∃ frame, task.frames[k]? = some frame ∧ task.boundary (k + 1) ≤ written ∧
    frame.bytes.length ≤ MAX_CHECKPOINT_FRAME_BYTES

/-- What passes the checks of the backend can be rendered. -/
def Renders (R : Governance α κ π) (C : LiveConfig) (task : UploadTask)
    (r : Registry κ π) : Prop :=
  ∀ now a b p, plan R C r (Uploading.uploadOf task now
      (encoded ((task.frames.drop a).take b))) = .ok p →
    (∀ session, p.session = some session →
      Rendered R session.journalId session.exportGate p.fresh) ∧
      ∀ header, p.session = none → p.header = some header →
        Rendered R header.journalId (.new R header) p.fresh

/-- A marker that is trusted is a frame boundary, and no further on than the
backend is unless a frame can be sent from there; a backend forgets a session
of a ready uploader only at the beginning, or while a frame can be sent; and
what passes the backend's checks can be rendered. -/
def UploadSound (R : Governance α κ π) (C : LiveConfig) (task : UploadTask)
    (sys : Uploading κ π) : UploadOp → Prop
  | .grow _ => True
  | .flush _ _ _ _ => Renders R C task sys.registry
  | .restart marker => ∀ offset, marker = some offset →
      markerTrusted (Uploading.data task sys.written) offset.toNat = true →
      ∃ k, k ≤ task.frames.length ∧ offset.toNat = task.boundary k ∧
        ((∃ session, sys.registry.sessions.find? task.key = some session ∧
          k ≤ session.lastSequence) ∨ Sendable task sys.written k)
  | .forget => sys.state = .ready → sys.offset = 0 ∨
      ∃ k, sys.offset = task.boundary k ∧ Sendable task sys.written k

/-! ## Frames -/

theorem numbered_mono {bound bound' first : ℕ} {frames : List Frame} (hle : bound ≤ bound')
    (h : Numbered bound first frames) : Numbered bound' first frames := by
  induction frames generalizing first with
  | nil => exact trivial
  | cons frame frames ih =>
    exact ⟨⟨h.1.sequence, h.1.word, h.1.bounded.trans hle, h.1.length⟩, ih h.2⟩

/-- Frames are read back from their bytes. -/
theorem encoded_inj {bound bound' first : ℕ} {frames frames' : List Frame}
    (h : Numbered bound first frames) (h' : Numbered bound' first frames')
    (heq : encoded frames = encoded frames') : frames = frames' := by
  have hscan := (scanFrames_spec (numbered_mono (Nat.le_max_left bound bound') h)
    (.inl (rfl : ([] : Bytes) = []))).1
  have hscan' := (scanFrames_spec (numbered_mono (Nat.le_max_right bound bound') h')
    (.inl (rfl : ([] : Bytes) = []))).1
  rw [← hscan, heq, hscan']

theorem numbered_drop_take {bound : ℕ} {frames : List Frame} (h : Numbered bound 1 frames)
    (a b : ℕ) (ha : a ≤ frames.length) :
    Numbered bound (a + 1) ((frames.drop a).take b) := by
  have hsplit := h
  rw [← List.take_append_drop a frames, numbered_append] at hsplit
  have hdropped := hsplit.2
  rw [List.length_take, Nat.min_eq_left ha, Nat.add_comm] at hdropped
  rw [← List.take_append_drop b (frames.drop a), numbered_append] at hdropped
  exact hdropped.1

omit [DecidableEq κ] in
/-- **The frames of a batch** that passes the checks are the ones that were
sent. -/
theorem plan_frames {upload : Upload} {p : Plan α κ π} {frames : List Frame} {bound first : ℕ}
    (h : plan R C r upload = .ok p) (hnumbered : Numbered bound first frames)
    (hpayload : upload.payload = encoded frames) (hfirst : upload.firstSequence = first) :
    p.decoded.map (·.frame) = frames.map Frame.bytes ∧
      p.decoded.map (·.sequence) = List.range' first frames.length ∧
      decodeFrames R frames (encoded frames) = some p.decoded := by
  obtain ⟨frames', rest, hdata, hnumbered', hstops⟩ :=
    exists_encoded C.maxFrameBytes upload.firstSequence upload.payload
  obtain ⟨hscan, -, htorn⟩ := scanFrames_spec hnumbered' hstops
  rw [← hdata, (plan_planned h).torn] at htorn
  have hrest : rest = [] := List.length_eq_zero_iff.mp htorn.symm
  rw [hrest, List.append_nil] at hdata
  rw [hfirst] at hnumbered'
  have hframes : frames = frames' := encoded_inj hnumbered hnumbered' (hpayload.symm.trans hdata)
  have hdecodes := (plan_planned h).decodes
  rw [show encoded frames' ++ rest = upload.payload by rw [hrest, List.append_nil, hdata],
    ← hframes] at hscan
  rw [hscan, hpayload] at hdecodes
  obtain ⟨hbytes, hsequences⟩ := decodeFrames_spec hnumbered hdecodes
  have hlength := congrArg List.length hbytes
  rw [List.length_map, List.length_map] at hlength
  exact ⟨hbytes, by rw [hsequences, hlength], hdecodes⟩

/-! ## What the backend answers -/

omit [DecidableEq κ] in
theorem assertContinues_error {held : Option (LiveSession κ π)} {closed : Bool}
    {decoded : List (Decoded α)} {n : ℕ} :
    assertContinues held closed decoded ≠ .error (.sequence n) := by
  induction decoded generalizing closed with
  | nil =>
    intro h
    cases h
  | cons first rest ih =>
    intro h
    unfold assertContinues at h
    split at h
    · cases h
    · split at h
      · next session hheld =>
        split at h
        · cases h
        · split at h
          · cases h
          · obtain ⟨rfl, -⟩ := Option.filter_eq_some_iff.mp hheld
            exact ih h
      · split at h
        · cases h
        · exact ih h

theorem openingHeader_error {upload : Upload} {decoded : List (Decoded α)} {n : ℕ} :
    openingHeader upload decoded ≠ .error (.sequence n) := by
  intro h
  unfold openingHeader at h
  split at h
  · split at h
    · split at h
      · cases h
      · split at h <;> cases h
    · cases h
  · cases h

omit [DecidableEq κ] in
/-- A gap is found before anything else. -/
theorem plan_sequence {upload : Upload} {n : ℕ} (h : plan R C r upload = .error (.sequence n)) :
    skips (r.sessions.find? upload.key) upload = some (.sequence n) := by
  unfold plan at h
  dsimp only at h
  split at h
  · cases h
  · split at h
    · cases h
    · split at h
      · next e hskips => rw [hskips, Except.error.inj h]
      · split at h
        · cases h
        · split at h
          · cases h
          · split at h
            · cases h
            · unfold planDecoded at h
              split at h
              · next e hopening =>
                rw [Except.error.inj h] at hopening
                exact absurd hopening openingHeader_error
              · dsimp only at h
                split at h
                · next e hcontinues =>
                  rw [Except.error.inj h] at hcontinues
                  exact absurd hcontinues assertContinues_error
                · split at h <;> cases h

theorem commit_error {now : ℕ} {fresh : List (Decoded α × List κ)} {e : AcceptError}
    (h : (commit R C r now session fresh).1 = .error e) :
    e = .unrenderable ∧ (feed R C session fresh).2 = none := by
  unfold commit at h
  split at h
  · next heq => exact ⟨(Except.error.inj h).symm, by rw [heq]⟩
  · cases h
  · cases h

/-- **A backend that has lost a session** says so, and holds nothing. -/
theorem lost_holds {m now : ℕ} {batch : Bytes} {e : AcceptError} (hr : Holds R task m r)
    (h : (acceptFrames R C r (Uploading.uploadOf task now batch)).1 = .error e)
    (hlost : Uploading.lostSession e = true) :
    m = 0 ∧ (acceptFrames R C r (Uploading.uploadOf task now batch)).2 = r := by
  obtain rfl : e = .sequence 1 := by
    unfold Uploading.lostSession at hlost
    split at hlost
    · rfl
    · cases hlost
  unfold acceptFrames at h ⊢
  cases hplan : plan R C r (Uploading.uploadOf task now batch) with
  | error e =>
    rw [hplan] at h
    refine ⟨?_, rfl⟩
    have he : e = .sequence 1 := Except.error.inj h
    rw [he] at hplan
    have hskips := plan_sequence hplan
    unfold skips at hskips
    split at hskips
    · cases hskips
    · split at hskips
      · next hnone => exact hr.nothing hnone
      · next session hsession =>
        split at hskips
        · obtain ⟨hpos, -, hlast, -⟩ := hr.prefixed session hsession
          have hone := AcceptError.sequence.inj (Option.some.inj hskips)
          omega
        · cases hskips
  | ok p =>
    exfalso
    rw [hplan] at h
    dsimp only at h
    split at h
    · cases (commit_error h).1
    · cases h
    · split at h
      · cases h
      · cases (commit_error h).1

theorem firstSequence_encoded {first bound : ℕ} (task : UploadTask) (now : ℕ) {frame : Frame}
    {frames : List Frame} (hnumbered : Numbered bound first (frame :: frames)) :
    (Uploading.uploadOf task now (encoded (frame :: frames))).firstSequence = first := by
  have hword : frame.sequence ≤ MAX_SEQUENCE := hnumbered.1.word
  unfold Upload.firstSequence Uploading.uploadOf
  dsimp only
  rw [encoded_cons, (frame.parts _).2.1,
    fromBigEndian_packU32 (by unfold MAX_SEQUENCE at hword; omega), hnumbered.1.sequence]

/-- What a commit leaves of a session. -/
theorem commit_recorded {fresh : List (Decoded α × List κ)} {events : List LiveEvent} (now : ℕ)
    (hfeed : (feed R C session fresh).2 = some events) :
    ∃ r' session', commit R C r now session fresh = (.ok events, r') ∧
      r'.sessions = r.sessions.put session' ∧ session'.key = session.key ∧
      session'.journalId = session.journalId ∧
      session'.recorded = session.recorded ++ (fresh.map fun item => item.1.frame) ∧
      session'.lastSequence = ((fresh.map fun item => item.1.sequence).filter
        fun sequence => decide (1 < sequence)).foldl max session.lastSequence := by
  have hbelow := LiveSession.Below.feed (R := R) (C := C) fresh session
  obtain ⟨r', session', unixNano, hcommit, hput, hdelivered⟩ := commit_ok (r := r) now hfeed
  refine ⟨r', session', hcommit, hput, ?_, ?_, ?_, ?_⟩
  · unfold LiveSession.key
    rw [hdelivered.projectId, hdelivered.sessionId]
    exact (Grows.of_below (R := R) hbelow).key
  · exact hdelivered.journalId.trans hbelow.journalId
  · rw [hdelivered.recorded, ← hbelow.recorded]
    rfl
  · rw [hdelivered.lastSequence, feed_sequences fresh session hfeed, ← hbelow.lastSequence]
    rfl

/-- The frames past a sequence are the last ones. -/
theorem filter_drop (decoded : List (Decoded α)) (first last : ℕ) (hle : first ≤ last + 1)
    (h : decoded.map (·.sequence) = List.range' first decoded.length) :
    (decoded.filter fun d => !decide (d.sequence ≤ last)) = decoded.drop (last + 1 - first) := by
  induction decoded generalizing first with
  | nil => rw [List.drop_nil, List.filter_nil]
  | cons d rest ih =>
    rw [List.map_cons, List.length_cons, List.range'_succ] at h
    obtain ⟨hd, hrest⟩ := List.cons.inj h
    by_cases hlast : d.sequence ≤ last
    · rw [List.filter_cons_of_neg (by simpa using hlast), ih (first + 1) (by omega) hrest,
        show last + 1 - first = last + 1 - (first + 1) + 1 by omega, List.drop_succ_cons]
    · rw [show last + 1 - first = 0 by omega, List.drop_zero, List.filter_eq_self]
      intro other hother
      have hmem : other.sequence ∈ List.range' first (d :: rest).length := by
        rw [List.length_cons, List.range'_succ]
        rcases List.mem_cons.mp hother with rfl | hin
        · rw [hd]
          exact List.mem_cons_self
        · exact List.mem_cons_of_mem _ (hrest ▸ List.mem_map_of_mem hin)
      have := (List.mem_range'_1.mp hmem).1
      simp only [Bool.not_eq_eq_eq_not, Bool.not_true, decide_eq_false_iff_not]
      omega

/-- A prefix, and a run that begins within it. -/
theorem take_append_run {β : Type} (l : List β) {m a b : ℕ} (ha : a ≤ m) :
    l.take m ++ ((l.drop a).take b).drop (m - a) = l.take (max m (a + b)) := by
  rw [List.drop_take, List.drop_drop, show a + (m - a) = m by omega, ← List.take_add,
    show m + (b - (m - a)) = max m (a + b) by omega]

omit [DecidableEq κ] in
/-- A batch of the journal, and what its checks find of it. -/
theorem plan_run {now a b : ℕ} {p : Plan α κ π} (hb : 1 ≤ b) (hab : a + b ≤ task.frames.length)
    (h : plan R C r (Uploading.uploadOf task now (encoded ((task.frames.drop a).take b))) =
      .ok p) :
    (Uploading.uploadOf task now (encoded ((task.frames.drop a).take b))).firstSequence = a + 1 ∧
      p.decoded.map (·.frame) = ((task.frames.drop a).take b).map Frame.bytes ∧
      p.decoded.map (·.sequence) = List.range' (a + 1) p.decoded.length ∧
      p.decoded.length = b ∧
      (p.decoded.head?.map (·.entry)) =
        ((task.frames.drop a).head?.bind fun frame => R.decodeEntry frame.body) := by
  have hnumbered := numbered_drop_take task.numbered a b (by omega)
  have hlength : ((task.frames.drop a).take b).length = b := by
    rw [List.length_take, List.length_drop]
    omega
  cases hframes : (task.frames.drop a).take b with
  | nil =>
    rw [hframes] at hlength
    rw [List.length_nil] at hlength
    omega
  | cons frame frames =>
    rw [hframes] at h hnumbered hlength
    have hfirst := firstSequence_encoded task now hnumbered
    obtain ⟨hbytes, hsequences, hdecodes⟩ := plan_frames h hnumbered rfl hfirst
    have hcount := congrArg List.length hbytes
    rw [List.length_map, List.length_map] at hcount
    refine ⟨hfirst, hbytes, by rw [hsequences, hcount], hcount.trans hlength, ?_⟩
    have hhead : (task.frames.drop a).head? = some frame := by
      have htake := congrArg List.head? hframes
      rw [List.head?_take, if_neg (by omega)] at htake
      exact htake
    rw [hhead]
    unfold decodeFrames at hdecodes
    split at hdecodes
    · cases hdecodes
    · next entry hentry =>
      obtain ⟨tail, -, htail⟩ := Option.map_eq_some_iff.mp hdecodes
      rw [← htail]
      exact hentry.symm

theorem acceptFrames_kept {upload : Upload} {p : Plan α κ π} (h : plan R C r upload = .ok p)
    (hsession : p.session = some session) :
    acceptFrames R C r upload = commit R C r upload.now session p.fresh := by
  unfold acceptFrames
  rw [h]
  dsimp only
  rw [hsession]

theorem acceptFrames_begun {upload : Upload} {p : Plan α κ π} {header : JournalOpen α}
    (h : plan R C r upload = .ok p) (hsession : p.session = none)
    (hheader : p.header = some header) (hreplaced : p.replaced = none) :
    acceptFrames R C r upload =
      if r.quotaFull C upload.projectId = true then (.error .capacity, r)
      else commit R C (r.deliver C
        (Registry.newSession R upload.now upload.sessionId upload.projectId .checkpoint header
          true) [(Registry.newSession R upload.now upload.sessionId upload.projectId .checkpoint
            header true).openEvent]) upload.now (upload.begin R C header) p.fresh := by
  unfold acceptFrames
  rw [h]
  dsimp only
  rw [hsession, hheader, hreplaced]
  rfl

omit [DecidableEq κ] in
/-- What a backend holds is of one journal, so a header of it replaces
nothing. -/
theorem Holds.replaced {m : ℕ} {upload : Upload} {p : Plan α κ π} {header : JournalOpen α}
    (hr : Holds R task m r) (hp : Planned R C r upload p) (hkey : upload.key = task.key)
    (hsession : p.session = none) (hheader : p.header = some header)
    (hopened : (task.frames.head?.bind fun frame => R.decodeEntry frame.body) =
      some (.opened header)) : p.replaced = none ∧ r.sessions.find? task.key = none := by
  obtain ⟨hheld, -, -⟩ := hp.begun hsession
  rw [hkey] at hheld
  cases hreplaced : p.replaced with
  | none => exact ⟨rfl, hheld.trans hreplaced⟩
  | some session =>
    obtain ⟨-, -, -, opening, hopens, hjournal⟩ := hr.prefixed session (hheld.trans hreplaced)
    rw [hopened] at hopens
    have hsame := Checkpoint.JournalEntry.opened.inj (Option.some.inj hopens)
    exact absurd (hjournal.trans (by rw [hsame])) (hp.replaced session header hreplaced hheader)

omit [DecidableEq κ] in
/-- The header of a batch that begins the journal. -/
theorem plan_opened {now b : ℕ} {p : Plan α κ π} {header : JournalOpen α} (hb : 1 ≤ b)
    (hb' : 0 + b ≤ task.frames.length)
    (h : plan R C r (Uploading.uploadOf task now (encoded ((task.frames.drop 0).take b))) =
      .ok p) (hheader : p.header = some header) :
    (task.frames.head?.bind fun frame => R.decodeEntry frame.body) = some (.opened header) := by
  obtain ⟨-, -, -, -, hhead⟩ := plan_run hb hb' h
  have hopening := (plan_planned h).header
  rw [hheader] at hopening
  obtain ⟨-, first, rest, hdecoded, hentry⟩ := openingHeader_some hopening
  rw [hdecoded, List.drop_zero] at hhead
  rw [← hhead, ← hentry]
  rfl

/-- **A batch that continues a session.** -/
theorem kept_holds {m now a b : ℕ} {p : Plan α κ π} {events : List LiveEvent}
    (hr : Holds R task m r) (hb : 1 ≤ b) (hab : a + b ≤ task.frames.length)
    (hplan : plan R C r (Uploading.uploadOf task now
      (encoded ((task.frames.drop a).take b))) = .ok p) (hsession : p.session = some session)
    (h : (commit R C r now session p.fresh).1 = .ok events) :
    a ≤ m ∧ Holds R task (max m (a + b)) (commit R C r now session p.fresh).2 := by
  have hp := plan_planned hplan
  obtain ⟨hfirst, hbytes, hsequences, hcount, -⟩ := plan_run hb hab hplan
  have hheld : r.sessions.find? task.key = some session := hp.kept session hsession
  have hkey : session.key = task.key := Table.key_of_find? hheld
  obtain ⟨hpos, hrecorded, hlast, header, hheader, hjournal⟩ := hr.prefixed session hheld
  have ha : a ≤ m := by
    have hle := hp.first session hsession
    rw [hfirst] at hle
    omega
  refine ⟨ha, ?_⟩
  cases hfeed : (feed R C session p.fresh).2 with
  | none =>
    rw [commit_raises hfeed] at h
    cases h
  | some fed =>
    obtain ⟨r', session', hcommit, hput, hkey', hjournal', hrecorded', hlast'⟩ :=
      commit_recorded (r := r) now hfeed
    rw [hcommit]
    have hfresh := hp.fresh
    rw [hsession] at hfresh
    have hnew : newFrames (some session) p.decoded = p.decoded.drop (m - a) := by
      rw [show m - a = session.lastSequence + 1 - (a + 1) by omega,
        ← filter_drop p.decoded (a + 1) session.lastSequence (by omega) hsequences]
      rfl
    have hframes : (p.fresh.map fun item => item.1.frame) =
        (((task.frames.drop a).take b).drop (m - a)).map Frame.bytes := by
      rw [List.map_drop, ← hbytes, ← List.map_drop, ← hnew, ← hfresh, List.map_map]
      rfl
    have hnumbers : (p.fresh.map fun item => item.1.sequence) =
        List.range' (m + 1) (b - (m - a)) := by
      have hmapped : (p.fresh.map fun item => item.1.sequence) =
          (p.decoded.drop (m - a)).map (·.sequence) := by
        rw [← hnew, ← hfresh, List.map_map]
        rfl
      rw [hmapped, List.map_drop, hsequences, List.drop_range', hcount]
      congr 1
      omega
    have hgrown : session'.lastSequence = max m (a + b) := by
      rw [hlast', hnumbers, filter_range'_of_pos (by omega), hlast, foldl_max_range']
      omega
    have hbounded := hr.bounded
    refine ⟨fun hnone => ?_, fun found hsome => ?_, by omega⟩
    · rw [hput, Table.find?_put, hkey', if_pos hkey] at hnone
      cases hnone
    · rw [hput, Table.find?_put, hkey', if_pos hkey] at hsome
      obtain rfl := Option.some.inj hsome
      refine ⟨by omega, ?_, hgrown, header, hheader, hjournal'.trans hjournal⟩
      rw [hrecorded', hrecorded, hframes, ← List.map_append, take_append_run _ ha]

/-- **A batch that begins a session.** -/
theorem begun_holds {now b : ℕ} {p : Plan α κ π} {header : JournalOpen α}
    {events : List LiveEvent} {base : Registry κ π} (hb : 1 ≤ b)
    (hb' : 0 + b ≤ task.frames.length)
    (hplan : plan R C r (Uploading.uploadOf task now
      (encoded ((task.frames.drop 0).take b))) = .ok p) (hsession : p.session = none)
    (hheader : p.header = some header)
    (h : (commit R C base now ((Uploading.uploadOf task now
      (encoded ((task.frames.drop 0).take b))).begin R C header) p.fresh).1 = .ok events) :
    Holds R task b (commit R C base now ((Uploading.uploadOf task now
      (encoded ((task.frames.drop 0).take b))).begin R C header) p.fresh).2 := by
  have hp := plan_planned hplan
  have hopened := plan_opened hb hb' hplan hheader
  obtain ⟨-, hbytes, hsequences, hcount, -⟩ := plan_run hb hb' hplan
  generalize hsession' : (Uploading.uploadOf task now
    (encoded ((task.frames.drop 0).take b))).begin R C header = begun at h ⊢
  have hparts : begun.key = task.key ∧ begun.journalId = header.journalId ∧
      begun.recorded = [] ∧ begun.lastSequence = 1 := by
    rw [← hsession']
    exact ⟨rfl, rfl, rfl, rfl⟩
  obtain ⟨hkey, hjournal, hempty, hlast⟩ := hparts
  cases hfeed : (feed R C begun p.fresh).2 with
  | none =>
    rw [commit_raises hfeed] at h
    cases h
  | some fed =>
    obtain ⟨r', session', hcommit, hput, hkey', hjournal', hrecorded', hlast'⟩ :=
      commit_recorded (r := base) now hfeed
    rw [hcommit]
    have hfresh := hp.fresh
    rw [hsession, newFrames_none] at hfresh
    have hframes : (p.fresh.map fun item => item.1.frame) =
        (task.frames.take b).map Frame.bytes := by
      rw [List.drop_zero] at hbytes
      rw [← hbytes, ← hfresh, List.map_map]
      rfl
    have hnumbers : (p.fresh.map fun item => item.1.sequence) = List.range' 1 b := by
      have hmapped : (p.fresh.map fun item => item.1.sequence) =
          p.decoded.map (·.sequence) := by
        rw [← hfresh, List.map_map]
        rfl
      rw [hmapped, hsequences, hcount]
    have hgrown : session'.lastSequence = b := by
      obtain ⟨k, rfl⟩ : ∃ k, b = k + 1 := ⟨b - 1, by omega⟩
      rw [hlast', hnumbers, List.range'_succ, List.filter_cons_of_neg (by simp),
        filter_range'_of_pos (by omega), hlast, foldl_max_range', Nat.add_comm]
    refine ⟨fun hnothing => ?_, fun found hsome => ?_, by omega⟩
    · rw [hput, Table.find?_put, hkey', if_pos hkey] at hnothing
      cases hnothing
    · rw [hput, Table.find?_put, hkey', if_pos hkey] at hsome
      obtain rfl := Option.some.inj hsome
      refine ⟨hb, ?_, hgrown, header, hopened, hjournal'.trans hjournal⟩
      rw [hrecorded', hempty, hframes, List.nil_append]

/-- **A batch that is accepted** leaves the backend a prefix of the journal. -/
theorem accept_holds {m now a b : ℕ} {events : List LiveEvent} (hr : Holds R task m r)
    (hb : 1 ≤ b) (hab : a + b ≤ task.frames.length)
    (h : (acceptFrames R C r (Uploading.uploadOf task now
      (encoded ((task.frames.drop a).take b)))).1 = .ok events) :
    a ≤ m ∧ Holds R task (max m (a + b)) (acceptFrames R C r (Uploading.uploadOf task now
      (encoded ((task.frames.drop a).take b)))).2 := by
  cases hplan : plan R C r (Uploading.uploadOf task now
      (encoded ((task.frames.drop a).take b))) with
  | error e =>
    unfold acceptFrames at h
    rw [hplan] at h
    cases h
  | ok p =>
    have hp := plan_planned hplan
    cases hsession : p.session with
    | some session =>
      rw [acceptFrames_kept hplan hsession] at h ⊢
      exact kept_holds hr hb hab hplan hsession h
    | none =>
      obtain ⟨-, hone, hsome⟩ := hp.begun hsession
      obtain ⟨hfirst, -⟩ := plan_run hb hab hplan
      obtain rfl : a = 0 := by omega
      cases hheader : p.header with
      | none => exact absurd hheader hsome
      | some header =>
        have hopened := plan_opened hb hab hplan hheader
        obtain ⟨hreplaced, hnone⟩ := hr.replaced hp rfl hsession hheader hopened
        rw [acceptFrames_begun hplan hsession hheader hreplaced] at h ⊢
        refine ⟨Nat.zero_le _, ?_⟩
        have hzero := hr.nothing hnone
        rw [show max m (0 + b) = b by omega]
        split at h
        · cases h
        · next hroom =>
          rw [if_neg hroom]
          exact begun_holds hb hab hplan hsession hheader h

/-- **A batch that is refused** leaves it what it was, where it can be
rendered. -/
theorem refuse_holds {m now a b : ℕ} {e : AcceptError} (hr : Holds R task m r)
    (hrenders : Renders R C task r) (hb : 1 ≤ b) (hab : a + b ≤ task.frames.length)
    (h : (acceptFrames R C r (Uploading.uploadOf task now
      (encoded ((task.frames.drop a).take b)))).1 = .error e) :
    Holds R task m (acceptFrames R C r (Uploading.uploadOf task now
      (encoded ((task.frames.drop a).take b)))).2 := by
  cases hplan : plan R C r (Uploading.uploadOf task now
      (encoded ((task.frames.drop a).take b))) with
  | error e =>
    unfold acceptFrames
    rw [hplan]
    exact hr
  | ok p =>
    have hp := plan_planned hplan
    obtain ⟨hkept, hbegun⟩ := hrenders now a b p hplan
    cases hsession : p.session with
    | some session =>
      rw [acceptFrames_kept hplan hsession] at h
      exact absurd (commit_error h).2 ((feed_rendered _ _).mpr (hkept session hsession))
    | none =>
      obtain ⟨-, hone, hsome⟩ := hp.begun hsession
      obtain ⟨hfirst, -⟩ := plan_run hb hab hplan
      obtain rfl : a = 0 := by omega
      cases hheader : p.header with
      | none => exact absurd hheader hsome
      | some header =>
        have hopened := plan_opened hb hab hplan hheader
        obtain ⟨hreplaced, -⟩ := hr.replaced hp rfl hsession hheader hopened
        rw [acceptFrames_begun hplan hsession hheader hreplaced] at h ⊢
        split at h
        · next hfull =>
          rw [if_pos hfull]
          exact hr
        · exact absurd (commit_error h).2
            ((feed_rendered _ _).mpr (hbegun header hsession hheader))

/-! ## Where a batch ends -/

theorem take_drop_take {β : Type} (l : List β) {n i j : ℕ} (h : i + j ≤ n) :
    ((l.take n).drop i).take j = (l.drop i).take j := by
  rw [List.drop_take, List.take_take, Nat.min_eq_left (by omega)]

/-- What the loop takes of frames that are cut short somewhere. -/
structure Plans (frames : List Frame) (n taken : ℕ) (planned : ℕ × Option (ℕ × ℕ)) (b : ℕ) :
    Prop where
  length : b ≤ frames.length
  written : (encoded (frames.take b)).length ≤ n
  stop : planned.1 = taken + (encoded (frames.take b)).length
  small : ∀ frame ∈ frames.take b, frame.bytes.length ≤ MAX_CHECKPOINT_FRAME_BYTES
  torn : planned.2 = none → taken = 0 → b = 0 → ∀ frame rest, frames = frame :: rest →
    n < frame.bytes.length
  large : ∀ sequence size, planned.2 = some (sequence, size) → taken = 0 ∧ b = 0 ∧
    ∃ frame rest, frames = frame :: rest ∧ sequence = frame.sequence ∧
      size = frame.bytes.length ∧ MAX_CHECKPOINT_FRAME_BYTES < size

theorem plans_zero {frames : List Frame} {n taken : ℕ} (h : 0 < taken ∨
    ∀ frame rest, frames = frame :: rest → n < frame.bytes.length) :
    Plans frames n taken (taken, none) 0 := by
  refine ⟨Nat.zero_le _, Nat.zero_le _, rfl, fun frame hmem => ?_, fun _ hzero _ => ?_,
    fun _ _ hsome => (by cases hsome)⟩
  · rw [List.take_zero] at hmem
    exact absurd hmem List.not_mem_nil
  · exact h.resolve_left (by omega)

/-- **The loop takes whole frames**, and says which one is too large to be
taken. -/
theorem planFrames_spec {bound budget : ℕ} (frames : List Frame) (fuel first n taken : ℕ)
    (hnumbered : Numbered bound first frames) (hfuel : n ≤ fuel) :
    ∃ b, Plans frames n taken (planFrames budget fuel taken ((encoded frames).take n)) b := by
  induction frames generalizing fuel first n taken with
  | nil =>
    refine ⟨0, ?_⟩
    have hnone : planFrames budget fuel taken ((encoded []).take n) = (taken, none) := by
      rw [encoded_nil, List.take_nil]
      cases fuel with
      | zero => rfl
      | succ fuel =>
        unfold planFrames
        rw [if_pos (by decide)]
    rw [hnone]
    exact plans_zero (.inr fun _ _ hcons => by cases hcons)
  | cons frame rest ih =>
    obtain ⟨hfits, hrest⟩ := hnumbered
    have hsize := frame.length_bytes
    have hword : frame.sequence ≤ MAX_SEQUENCE := hfits.word
    have hbody : frame.body.length ≤ MAX_SEQUENCE := hfits.length
    obtain ⟨hseparator, hsequence, hlength, -⟩ := frame.parts (encoded rest)
    rw [encoded_cons]
    cases fuel with
    | zero =>
      refine ⟨0, plans_zero (.inr fun frame' rest' hcons => ?_)⟩
      obtain ⟨rfl, rfl⟩ := List.cons.inj hcons
      unfold HEADER_SIZE at hsize
      omega
    | succ fuel =>
      unfold planFrames
      have hdata : ((frame.bytes ++ encoded rest).take n).length =
          min n (frame.bytes.length + (encoded rest).length) := by
        rw [List.length_take, List.length_append]
      split
      · -- what is left does not hold a header
        next hshort =>
        refine ⟨0, plans_zero (.inr fun frame' rest' hcons => ?_)⟩
        obtain ⟨rfl, rfl⟩ := List.cons.inj hcons
        omega
      · next hheader =>
        have hn : HEADER_SIZE ≤ n := by omega
        have hnine : HEADER_SIZE = 9 := rfl
        have hhead : ((frame.bytes ++ encoded rest).take n).headD 0 = SEPARATOR := by
          rw [← hseparator]
          obtain ⟨k, rfl⟩ : ∃ k, n = k + 1 := ⟨n - 1, by omega⟩
          cases frame.bytes ++ encoded rest with
          | nil => rfl
          | cons byte bytes => rfl
        rw [take_drop_take _ (by omega), take_drop_take _ (by omega), hlength, hsequence,
          fromBigEndian_packU32 (by unfold MAX_SEQUENCE at hbody; omega),
          fromBigEndian_packU32 (by unfold MAX_SEQUENCE at hword; omega), ← hsize,
          if_neg (fun hne => hne hhead)]
        dsimp only
        split
        · -- a frame past the budget of one is only said where nothing was taken
          next hlarge =>
          split
          · next htaken => exact ⟨0, plans_zero (.inl htaken)⟩
          · next htaken =>
            refine ⟨0, Nat.zero_le _, Nat.zero_le _, rfl, fun frame' hmem => ?_,
              fun hnone => (by cases hnone), fun sequence size hsome => ?_⟩
            · rw [List.take_zero] at hmem
              exact absurd hmem List.not_mem_nil
            · obtain ⟨rfl, rfl⟩ := Prod.mk.inj (Option.some.inj hsome)
              exact ⟨by omega, rfl, frame, rest, rfl, rfl, rfl, hlarge⟩
        · next hsmall =>
          split
          · -- the frame was cut off
            next hcut =>
            refine ⟨0, plans_zero (.inr fun frame' rest' hcons => ?_)⟩
            obtain ⟨rfl, rfl⟩ := List.cons.inj hcons
            omega
          · next hwhole =>
            split
            · next hbudget => exact ⟨0, plans_zero (.inl hbudget.2)⟩
            · have hdrop : ((frame.bytes ++ encoded rest).take n).drop frame.bytes.length =
                  (encoded rest).take (n - frame.bytes.length) := by
                rw [List.drop_take, List.drop_left]
              rw [hdrop]
              have hpos : 0 < frame.bytes.length := List.length_pos_iff.mpr frame.bytes_ne_nil
              obtain ⟨b, hplans⟩ := ih fuel (first + 1) (n - frame.bytes.length)
                (taken + frame.bytes.length) hrest (by omega)
              refine ⟨b + 1, ?_, ?_, ?_, ?_, fun _ _ hzero => by omega, fun sequence size h => ?_⟩
              · rw [List.length_cons]
                have := hplans.length
                omega
              · rw [List.take_succ_cons, encoded_cons, List.length_append]
                have := hplans.written
                omega
              · rw [List.take_succ_cons, encoded_cons, List.length_append, hplans.stop]
                omega
              · intro frame' hmem
                rw [List.take_succ_cons] at hmem
                rcases List.mem_cons.mp hmem with rfl | hmem
                · omega
                · exact hplans.small frame' hmem
              · have := (hplans.large sequence size h).1
                omega

theorem boundary_add (k b : ℕ) : task.boundary (k + b) =
    task.boundary k + (encoded ((task.frames.drop k).take b)).length := by
  unfold UploadTask.boundary
  rw [List.take_add, encoded_append, List.length_append]

theorem data_drop {written k : ℕ} :
    (Uploading.data task written).drop (task.boundary k) =
      (encoded (task.frames.drop k)).take (written - task.boundary k) := by
  unfold Uploading.data UploadTask.boundary
  have hsplit : encoded task.frames =
      encoded (task.frames.take k) ++ encoded (task.frames.drop k) := by
    rw [← encoded_append, List.take_append_drop]
  rw [List.drop_take, hsplit, List.drop_left]

/-- Where the next batch ends. -/
structure BatchAt (task : UploadTask) (written k b : ℕ) : Prop where
  length : k + b ≤ task.frames.length
  stop : (planBatch (Uploading.data task written) (task.boundary k) task.budget).stop =
    task.boundary (k + b)
  inside : task.boundary (k + b) ≤ written
  batch : ((Uploading.data task written).drop (task.boundary k)).take
    (task.boundary (k + b) - task.boundary k) = encoded ((task.frames.drop k).take b)
  small : ∀ frame ∈ (task.frames.drop k).take b,
    frame.bytes.length ≤ MAX_CHECKPOINT_FRAME_BYTES
  torn : (planBatch (Uploading.data task written) (task.boundary k) task.budget).undeliverable =
    none → b = 0 → k < task.frames.length → written < task.boundary (k + 1)
  large : ∀ sequence size,
    (planBatch (Uploading.data task written) (task.boundary k) task.budget).undeliverable =
      some (sequence, size) →
    b = 0 ∧ ∃ frame, task.frames[k]? = some frame ∧ sequence = frame.sequence ∧
      size = frame.bytes.length ∧ MAX_CHECKPOINT_FRAME_BYTES < size

theorem exists_batch (task : UploadTask) {written k : ℕ} (hk : k ≤ task.frames.length)
    (hwritten : task.boundary k ≤ written) : ∃ b, BatchAt task written k b := by
  have hnumbered := task.numbered
  rw [← List.take_append_drop k task.frames, numbered_append] at hnumbered
  obtain ⟨b, hplans⟩ : ∃ b, Plans (task.frames.drop k) (min (written - task.boundary k)
      (encoded (task.frames.drop k)).length) 0 (planFrames task.budget
        (Uploading.data task written).length 0
        ((Uploading.data task written).drop (task.boundary k))) b := by
    have hdata : (Uploading.data task written).drop (task.boundary k) = _ := data_drop
    have hcut : (encoded (task.frames.drop k)).take (written - task.boundary k) =
        (encoded (task.frames.drop k)).take (min (written - task.boundary k)
          (encoded (task.frames.drop k)).length) := by
      rw [← List.take_take, List.take_length]
    have hlength := congrArg List.length hdata
    rw [List.length_drop, List.length_take] at hlength
    rw [hdata, hcut]
    exact planFrames_spec _ _ _ _ _ hnumbered.2 (by omega)
  have hlength := hplans.length
  rw [List.length_drop] at hlength
  have hbytes := hplans.written
  have hadd : task.boundary (k + b) = _ := boundary_add k b
  have hstop : (planBatch (Uploading.data task written) (task.boundary k) task.budget).stop =
      task.boundary (k + b) := by
    unfold planBatch
    dsimp only
    rw [hplans.stop, hadd]
    omega
  refine ⟨b, by omega, hstop, by omega, ?_, hplans.small, fun hnone hzero hlt => ?_,
    fun sequence size hsome => ?_⟩
  · rw [data_drop, List.take_take, hadd, Nat.add_sub_cancel_left, Nat.min_eq_left (by omega)]
    have hsplit : encoded (task.frames.drop k) = encoded ((task.frames.drop k).take b) ++
        encoded ((task.frames.drop k).drop b) := by
      rw [← encoded_append, List.take_append_drop]
    rw [hsplit, List.take_left]
  · obtain ⟨frame, hframe⟩ : ∃ frame, task.frames[k]? = some frame :=
      ⟨task.frames[k], List.getElem?_eq_getElem hlt⟩
    have hcons : task.frames.drop k = frame :: task.frames.drop (k + 1) := by
      obtain ⟨hk', hget⟩ := List.getElem?_eq_some_iff.mp hframe
      rw [List.drop_eq_getElem_cons hk', hget]
    have htorn := hplans.torn hnone rfl hzero frame _ hcons
    rw [boundary_add k 1, hcons, List.take_succ_cons, List.take_zero, encoded_cons, encoded_nil,
      List.append_nil]
    rw [hcons, encoded_cons, List.length_append] at htorn
    omega
  · obtain ⟨-, hzero, frame, rest, hcons, hsequence, hsize, hlarge⟩ :=
      hplans.large sequence size hsome
    refine ⟨hzero, frame, ?_, hsequence, hsize, hlarge⟩
    have hget := congrArg (fun frames : List Frame => frames[0]?) hcons
    rw [List.getElem?_drop, Nat.add_zero] at hget
    exact hget

/-! ## The invariant -/

/-- What has been sent, and what the backend holds of it. -/
structure Stands (R : Governance α κ π) (task : UploadTask) (m : ℕ) (sys : Uploading κ π) :
    Prop where
  holds : Holds R task m sys.registry
  inside : task.boundary m ≤ sys.written
  small : ∀ frame ∈ task.frames.take m, frame.bytes.length ≤ MAX_CHECKPOINT_FRAME_BYTES
  batches : ∀ batch ∈ sys.sent, WholeFrames task batch

/-- Where a ready uploader is: at a boundary the backend has reached, or from
which a frame can be sent. -/
structure Ready (task : UploadTask) (m k : ℕ) (sys : Uploading κ π) : Prop where
  length : k ≤ task.frames.length
  offset : sys.offset = task.boundary k
  inside : task.boundary k ≤ sys.written
  reach : k ≤ m ∨ Sendable task sys.written k

def Kept (R : Governance α κ π) (task : UploadTask) (sys : Uploading κ π) : Prop :=
  ∃ m, Stands R task m sys ∧ (sys.state = .ready → ∃ k, Ready task m k sys)

omit [DecidableEq κ] in
theorem Holds.congr {m : ℕ} (h : Holds R task m r) (heq : r.sessions = r'.sessions) :
    Holds R task m r' := by
  refine ⟨fun hnone => h.nothing (heq ▸ hnone), fun session hsome => ?_, h.bounded⟩
  exact h.prefixed session (heq ▸ hsome)

theorem boundary_zero : task.boundary 0 = 0 := rfl

/-- The batch that a replay begins with. -/
theorem exists_first (task : UploadTask) (written : ℕ) : ∃ b, BatchAt task written 0 b ∧
    (planBatch (Uploading.data task written) 0 task.budget).stop = task.boundary (0 + b) ∧
    (Uploading.data task written).take (task.boundary (0 + b)) =
      encoded ((task.frames.drop 0).take b) := by
  obtain ⟨b, hbatch⟩ := exists_batch task (Nat.zero_le _)
    (show task.boundary 0 ≤ written from Nat.zero_le _)
  have hstop := hbatch.stop
  have hbytes := hbatch.batch
  rw [boundary_zero] at hstop hbytes
  rw [List.drop_zero, Nat.sub_zero] at hbytes
  exact ⟨b, hbatch, hstop, hbytes⟩

theorem boundary_lt (task : UploadTask) {k b : ℕ} (hb : 1 ≤ b) (hkb : k + b ≤ task.frames.length) :
    task.boundary k < task.boundary (k + b) := by
  have hadd : task.boundary (k + b) = _ := boundary_add k b
  have hpos : 0 < (encoded ((task.frames.drop k).take b)).length := by
    cases hframes : (task.frames.drop k).take b with
    | nil =>
      have hlength := congrArg List.length hframes
      rw [List.length_take, List.length_drop, List.length_nil] at hlength
      omega
    | cons frame frames =>
      rw [encoded_cons, List.length_append]
      have := List.length_pos_iff.mpr frame.bytes_ne_nil
      omega
  omega

theorem BatchAt.whole {written k b : ℕ} (h : BatchAt task written k b) (hb : 1 ≤ b) :
    WholeFrames task (encoded ((task.frames.drop k).take b)) := ⟨k, b, hb, h.length, rfl⟩

/-- A batch that is accepted. -/
theorem Stands.accept {m now a b : ℕ} {events : List LiveEvent} (h : Stands R task m sys)
    (hbatch : BatchAt task sys.written a b) (hb : 1 ≤ b)
    (haccepted : (acceptFrames R C sys.registry (Uploading.uploadOf task now
      (encoded ((task.frames.drop a).take b)))).1 = .ok events) :
    a ≤ m ∧ Stands R task (max m (a + b)) { sys with
      registry := (acceptFrames R C sys.registry (Uploading.uploadOf task now
        (encoded ((task.frames.drop a).take b)))).2
      sent := sys.sent ++ [encoded ((task.frames.drop a).take b)] } := by
  obtain ⟨ha, hholds⟩ := accept_holds h.holds hb hbatch.length haccepted
  have hinside := h.inside
  have hinside' := hbatch.inside
  refine ⟨ha, hholds, ?_, fun frame hmem => ?_, fun batch hmem => ?_⟩
  · rcases Nat.le_total m (a + b) with hle | hle
    · rw [Nat.max_eq_right hle]
      exact hinside'
    · rw [Nat.max_eq_left hle]
      exact hinside
  · rw [← take_append_run task.frames ha] at hmem
    rcases List.mem_append.mp hmem with hold | hnew
    · exact h.small frame hold
    · exact hbatch.small frame (List.mem_of_mem_drop hnew)
  · rcases List.mem_append.mp hmem with hold | hnew
    · exact h.batches batch hold
    · rw [List.mem_singleton.mp hnew]
      exact hbatch.whole hb

omit [DecidableEq κ] in
/-- A batch that leaves the backend as it is. -/
theorem Stands.same {m : ℕ} {batch : Bytes} {registry : Registry κ π} (h : Stands R task m sys)
    (hwhole : WholeFrames task batch) (hholds : Holds R task m registry) :
    Stands R task m { sys with registry := registry, sent := sys.sent ++ [batch] } := by
  refine ⟨hholds, h.inside, h.small, fun other hmem => ?_⟩
  rcases List.mem_append.mp hmem with hold | hnew
  · exact h.batches other hold
  · rw [List.mem_singleton.mp hnew]
    exact hwhole

/-- **A request leaves the backend a prefix**, whatever becomes of it. -/
theorem Stands.post {m a b : ℕ} (now : ℕ) (h : Stands R task m sys)
    (hrenders : Renders R C task sys.registry) (hbatch : BatchAt task sys.written a b)
    (hb : 1 ≤ b) (fate : Fate) :
    ∃ m', Stands R task m' (sys.post R C task now
        (encoded ((task.frames.drop a).take b)) fate).1 ∧
      ∀ events, (sys.post R C task now (encoded ((task.frames.drop a).take b)) fate).2 =
        some (.ok events) → m' = max m (a + b) := by
  cases fate with
  | lost => exact ⟨m, h.same (hbatch.whole hb) h.holds, fun events hnone => by cases hnone⟩
  | unacknowledged =>
    unfold Uploading.post
    dsimp only
    cases hanswer : (acceptFrames R C sys.registry (Uploading.uploadOf task now
        (encoded ((task.frames.drop a).take b)))).1 with
    | ok events =>
      exact ⟨_, (h.accept hbatch hb hanswer).2, fun events hnone => by cases hnone⟩
    | error e =>
      exact ⟨m, h.same (hbatch.whole hb) (refuse_holds h.holds hrenders hb hbatch.length hanswer),
        fun events hnone => by cases hnone⟩
  | answered =>
    unfold Uploading.post
    dsimp only
    cases hanswer : (acceptFrames R C sys.registry (Uploading.uploadOf task now
        (encoded ((task.frames.drop a).take b)))).1 with
    | ok events => exact ⟨_, (h.accept hbatch hb hanswer).2, fun events _ => rfl⟩
    | error e =>
      refine ⟨m, h.same (hbatch.whole hb)
        (refuse_holds h.holds hrenders hb hbatch.length hanswer), fun events hsome => ?_⟩
      cases Option.some.inj hsome

/-- A request changes nothing else. -/
theorem post_rest (task : UploadTask) (sys : Uploading κ π) (now : ℕ) (batch : Bytes)
    (fate : Fate) :
    (sys.post R C task now batch fate).1.written = sys.written ∧
      (sys.post R C task now batch fate).1.offset = sys.offset ∧
      (sys.post R C task now batch fate).1.state = sys.state := by
  cases fate <;> exact ⟨rfl, rfl, rfl⟩

omit [DecidableEq κ] in
theorem Kept.failed {m : ℕ} (h : Stands R task m sys) : Kept R task sys.fail :=
  ⟨m, ⟨h.holds, h.inside, h.small, h.batches⟩, fun hready => by cases hready⟩

omit [DecidableEq κ] in
/-- An uploader that goes on from the end of a batch. -/
theorem Kept.advanced {m a b : ℕ} (h : Stands R task (max m (a + b)) sys)
    (hbatch : BatchAt task sys.written a b) :
    Kept R task { sys with offset := task.boundary (a + b) } :=
  ⟨_, ⟨h.holds, h.inside, h.small, h.batches⟩, fun _ =>
    ⟨a + b, hbatch.length, rfl, hbatch.inside, .inl (Nat.le_max_right _ _)⟩⟩

/-- **A replay from the first byte** keeps the invariant. -/
theorem Kept.replay {m now : ℕ} {fate : Fate} (h : Stands R task m sys)
    (hrenders : Renders R C task sys.registry) : Kept R task (sys.replay R C task now fate) := by
  unfold Uploading.replay
  dsimp only
  obtain ⟨b, hbatch, hstop, hbytes⟩ := exists_first task sys.written
  rw [hstop]
  split
  · exact .failed h
  · next hsome =>
    have hb : 1 ≤ b := Nat.one_le_iff_ne_zero.mpr fun hzero => hsome (by rw [hzero]; rfl)
    rw [hbytes]
    obtain ⟨m', hstands, haccepted⟩ := h.post now hrenders hbatch hb fate
    obtain ⟨hwritten, -, -⟩ := post_rest (R := R) (C := C) task sys now
      (encoded ((task.frames.drop 0).take b)) fate
    split
    · next posted events heq =>
      rw [heq] at hstands haccepted hwritten
      rw [haccepted events rfl] at hstands
      exact .advanced hstands (hwritten ▸ hbatch)
    · next posted answer hnot heq =>
      rw [heq] at hstands
      exact .failed hstands

/-- **A flush keeps the invariant.** -/
theorem Kept.flush {readable : Bool} {now : ℕ} {first second : Fate} (h : Kept R task sys)
    (hrenders : Renders R C task sys.registry) :
    Kept R task (sys.flush R C task readable now first second) := by
  obtain ⟨m, hstands, hready⟩ := h
  unfold Uploading.flush
  split
  · exact ⟨m, hstands, hready⟩
  · next hstate =>
    obtain ⟨k, hk⟩ := hready (not_not.mp hstate)
    split
    · exact .failed hstands
    · dsimp only
      obtain ⟨b, hbatch⟩ := exists_batch task hk.length hk.inside
      rw [hk.offset, hbatch.stop]
      split
      · split
        · exact ⟨m, ⟨hstands.holds, hstands.inside, hstands.small, hstands.batches⟩,
            fun hnot => by cases hnot⟩
        · exact ⟨m, hstands, fun _ => ⟨k, hk⟩⟩
      · next hmore =>
        have hb : 1 ≤ b := by
          by_contra hzero
          obtain rfl : b = 0 := by omega
          exact hmore (Nat.le_refl _)
        rw [hbatch.batch]
        obtain ⟨m', hposted, haccepted⟩ := hstands.post now hrenders hbatch hb first
        obtain ⟨hwritten, -, -⟩ := post_rest (R := R) (C := C) task sys now
          (encoded ((task.frames.drop k).take b)) first
        split
        · next posted events heq =>
          rw [heq] at hposted haccepted hwritten
          rw [haccepted events rfl] at hposted
          exact .advanced hposted (hwritten ▸ hbatch)
        · next posted e heq =>
          rw [heq] at hposted
          split
          · exact .failed hposted
          · next hlost =>
            -- the backend has said that it holds nothing
            rw [not_or] at hlost
            have hsame : posted.registry = sys.registry := by
              cases first with
              | lost | unacknowledged => cases (Prod.mk.inj heq).2
              | answered =>
                obtain ⟨rfl, hanswer⟩ := Prod.mk.inj heq
                exact (lost_holds hstands.holds (Option.some.inj hanswer)
                  (eq_true_of_ne_false hlost.2)).2
            exact .replay hposted (hsame ▸ hrenders)
        · next posted heq =>
          rw [heq] at hposted
          exact .failed hposted

/-! ## Progress -/

theorem boundary_le (task : UploadTask) {k m : ℕ} (h : k ≤ m) :
    task.boundary k ≤ task.boundary m := by
  obtain ⟨b, rfl⟩ := Nat.exists_eq_add_of_le h
  rw [boundary_add]
  exact Nat.le_add_right _ _

/-- A replay that is answered stops the uploader, or goes on with what the
backend holds. -/
theorem replay_progress {m : ℕ} (now : ℕ) (h : Stands R task m sys) (hstate : sys.state = .ready) :
    (sys.replay R C task now .answered).state ≠ .ready ∨
      ∃ m' k', Stands R task m' (sys.replay R C task now .answered) ∧
        Ready task m' k' (sys.replay R C task now .answered) ∧
        (sys.replay R C task now .answered).state = .ready ∧ k' ≤ m' := by
  unfold Uploading.replay
  dsimp only
  obtain ⟨b, hbatch, hstop, hbytes⟩ := exists_first task sys.written
  rw [hstop]
  split
  · left
    intro hready
    cases hready
  · next hsome =>
    have hb : 1 ≤ b := Nat.one_le_iff_ne_zero.mpr fun hzero => hsome (by rw [hzero]; rfl)
    rw [hbytes]
    unfold Uploading.post
    dsimp only
    cases hanswer : (acceptFrames R C sys.registry (Uploading.uploadOf task now
        (encoded ((task.frames.drop 0).take b)))).1 with
    | ok events =>
      have haccepted := (h.accept hbatch hb hanswer).2
      exact .inr ⟨_, 0 + b, ⟨haccepted.holds, haccepted.inside, haccepted.small,
        haccepted.batches⟩, ⟨hbatch.length, rfl, hbatch.inside, .inl (Nat.le_max_right _ _)⟩,
        hstate, Nat.le_max_right _ _⟩
    | error e =>
      left
      intro hready
      cases hready

/-- **A flush that is answered** stops the uploader, or finds the backend
caught up, or goes on. -/
theorem flush_progress {m k : ℕ} (h : Stands R task m sys) (hk : Ready task m k sys)
    (hstate : sys.state = .ready) (now : ℕ) :
    (sys.flush R C task true now .answered .answered).state ≠ .ready ∨ CaughtUp R task sys ∨
      ∃ m' k', Stands R task m' (sys.flush R C task true now .answered .answered) ∧
        Ready task m' k' (sys.flush R C task true now .answered .answered) ∧
        (sys.flush R C task true now .answered .answered).state = .ready ∧ k' ≤ m' ∧
        (k ≤ m → k < k') := by
  obtain ⟨b, hbatch⟩ := exists_batch task hk.length hk.inside
  unfold Uploading.flush
  rw [if_neg (not_not.mpr hstate), if_neg (by simp)]
  dsimp only
  rw [hk.offset, hbatch.stop]
  split
  · next hless =>
    have hzero : b = 0 := by
      by_contra hpos
      have := boundary_lt task (show 1 ≤ b by omega) hbatch.length
      omega
    split
    · left
      intro hready
      cases hready
    · next hnone =>
      -- no frame is whole past the uploader, so the backend is where it is
      right
      left
      have htorn := hbatch.torn hnone hzero
      have hbounded := h.holds.bounded
      have hle : k ≤ m := by
        rcases hk.reach with hle | ⟨frame, hframe, hinside, -⟩
        · exact hle
        · obtain ⟨hlt, -⟩ := List.getElem?_eq_some_iff.mp hframe
          have := htorn hlt
          omega
      obtain rfl : m = k := by
        by_contra hne
        have hlast := boundary_le task (show k + 1 ≤ m by omega)
        have hinside := h.inside
        have := htorn (by omega)
        omega
      exact ⟨m, h.holds, h.inside, htorn⟩
  · next hmore =>
    have hb : 1 ≤ b := by
      by_contra hzero
      obtain rfl : b = 0 := by omega
      exact hmore (Nat.le_refl _)
    rw [hbatch.batch]
    unfold Uploading.post
    dsimp only
    cases hanswer : (acceptFrames R C sys.registry (Uploading.uploadOf task now
        (encoded ((task.frames.drop k).take b)))).1 with
    | ok events =>
      have haccepted := (h.accept hbatch hb hanswer).2
      exact .inr (.inr ⟨_, k + b, ⟨haccepted.holds, haccepted.inside, haccepted.small,
        haccepted.batches⟩, ⟨hbatch.length, rfl, hbatch.inside, .inl (Nat.le_max_right _ _)⟩,
        hstate, Nat.le_max_right _ _, fun _ => by omega⟩)
    | error e =>
      dsimp only
      split
      · left
        intro hready
        cases hready
      · next hlost =>
        rw [not_or] at hlost
        obtain ⟨rfl, hsame⟩ := lost_holds h.holds hanswer (eq_true_of_ne_false hlost.2)
        have hstands : Stands R task 0 { sys with
            registry := (acceptFrames R C sys.registry (Uploading.uploadOf task now
              (encoded ((task.frames.drop k).take b)))).2
            sent := sys.sent ++ [encoded ((task.frames.drop k).take b)] } :=
          h.same (hbatch.whole hb) (by rw [hsame]; exact h.holds)
        have hpast : ¬ k ≤ 0 := fun hzero => by
          obtain rfl : k = 0 := by omega
          exact hlost.1 rfl
        rcases replay_progress (C := C) now hstands hstate with hstopped |
          ⟨m', k', hstands', hready', hstate', hle⟩
        · exact .inl hstopped
        · exact .inr (.inr ⟨m', k', hstands', hready', hstate', hle, fun hk => absurd hk hpast⟩)

theorem flushes_succ (times : ℕ → ℕ) (n : ℕ) :
    sys.flushes R C task times (n + 1) =
      (sys.flush R C task true (times 0) .answered .answered).flushes R C task
        (fun i => times (i + 1)) n := by
  induction n with
  | zero => rfl
  | succ n ih =>
    show (sys.flushes R C task times (n + 1)).flush R C task true (times (n + 1)) .answered
      .answered = _
    rw [ih]
    rfl

/-- **Repeated flushes settle**: by induction on the frames the uploader has
still to send. -/
theorem settles_reached (d : ℕ) {m k : ℕ} (h : Stands R task m sys) (hk : Ready task m k sys)
    (hstate : sys.state = .ready) (hle : k ≤ m) (hd : task.frames.length - k = d)
    (times : ℕ → ℕ) : ∃ n, (sys.flushes R C task times n).state ≠ .ready ∨
      CaughtUp R task (sys.flushes R C task times n) := by
  induction d using Nat.strongRecOn generalizing sys m k times with
  | _ d ih =>
    rcases flush_progress (C := C) h hk hstate (times 0) with hstopped | hcaught |
      ⟨m', k', hstands', hready', hstate', hle', hlt⟩
    · exact ⟨1, .inl hstopped⟩
    · exact ⟨0, .inr hcaught⟩
    · have hlength := hready'.length
      have hless := hlt hle
      obtain ⟨n, hn⟩ := ih (task.frames.length - k') (by omega) hstands' hready' hstate' hle' rfl
        (fun i => times (i + 1))
      refine ⟨n + 1, ?_⟩
      rw [flushes_succ]
      exact hn

theorem Kept.settles (h : Kept R task sys) (hstate : sys.state = .ready) (times : ℕ → ℕ) :
    ∃ n, (sys.flushes R C task times n).state ≠ .ready ∨
      CaughtUp R task (sys.flushes R C task times n) := by
  obtain ⟨m, hstands, hready⟩ := h
  obtain ⟨k, hk⟩ := hready hstate
  rcases flush_progress (C := C) hstands hk hstate (times 0) with hstopped | hcaught |
    ⟨m', k', hstands', hready', hstate', hle', -⟩
  · exact ⟨1, .inl hstopped⟩
  · exact ⟨0, .inr hcaught⟩
  · obtain ⟨n, hn⟩ := settles_reached (C := C) _ hstands' hready' hstate' hle' rfl
      (fun i => times (i + 1))
    refine ⟨n + 1, ?_⟩
    rw [flushes_succ]
    exact hn

/-! ## Runs -/

theorem Kept.uploaded (h : Kept R task sys) : Uploaded R C task sys := by
  obtain ⟨m, hstands, hready⟩ := h
  exact ⟨⟨m, hstands.holds⟩, hstands.batches, fun hstate =>
    Kept.settles ⟨m, hstands, hready⟩ hstate⟩

/-- A new uploader begins at a boundary. -/
theorem Kept.restart {marker : Option Int} (h : Kept R task sys)
    (hsound : UploadSound R C task sys (.restart marker)) :
    Kept R task (sys.step R C task (.restart marker)) := by
  obtain ⟨m, hstands, -⟩ := h
  refine ⟨m, ⟨hstands.holds, hstands.inside, hstands.small, hstands.batches⟩, fun _ => ?_⟩
  have hbegins : loadOffset (Uploading.data task sys.written) marker = 0 →
      ∃ k, Ready task m k (sys.step R C task (.restart marker)) := fun hzero =>
    ⟨0, Nat.zero_le _, hzero, Nat.zero_le _, .inl (Nat.zero_le _)⟩
  cases marker with
  | none => exact hbegins rfl
  | some offset =>
    by_cases htrusted : markerTrusted (Uploading.data task sys.written) offset.toNat = true
    · obtain ⟨k, hk, hoffset, hreach⟩ := hsound offset rfl htrusted
      have hload : loadOffset (Uploading.data task sys.written) (some offset) =
          offset.toNat := if_pos htrusted
      refine ⟨k, hk, hload.trans hoffset, ?_, ?_⟩
      · unfold markerTrusted at htrusted
        simp only [Bool.and_eq_true, decide_eq_true_eq] at htrusted
        have hlength := htrusted.1.2
        unfold Uploading.data at hlength
        rw [List.length_take] at hlength
        show task.boundary k ≤ sys.written
        omega
      · rcases hreach with ⟨session, hsession, hle⟩ | hsendable
        · obtain ⟨-, -, hlast, -⟩ := hstands.holds.prefixed session hsession
          exact .inl (by omega)
        · exact .inr hsendable
    · exact hbegins (if_neg htrusted)

/-- A backend that forgets holds nothing. -/
theorem Kept.forget (h : Kept R task sys) (hsound : UploadSound R C task sys .forget) :
    Kept R task (sys.step R C task .forget) := by
  obtain ⟨m, hstands, -⟩ := h
  refine ⟨0, ⟨⟨fun _ => rfl, fun session hsome => (by cases hsome), Nat.zero_le _⟩,
    Nat.zero_le _, fun frame hmem => ?_, hstands.batches⟩, fun hstate => ?_⟩
  · rw [List.take_zero] at hmem
    exact absurd hmem List.not_mem_nil
  · rcases hsound hstate with hzero | ⟨k, hoffset, frame, hframe, hinside, hsmall⟩
    · exact ⟨0, Nat.zero_le _, hzero, Nat.zero_le _, .inl (Nat.le_refl _)⟩
    · obtain ⟨hlt, -⟩ := List.getElem?_eq_some_iff.mp hframe
      have hle := boundary_le task (Nat.le_succ k)
      exact ⟨k, by omega, hoffset, Nat.le_trans hle hinside, .inr ⟨frame, hframe, hinside, hsmall⟩⟩

/-- **One step keeps the invariant.** -/
theorem Kept.step (h : Kept R task sys) (op : UploadOp) (hsound : UploadSound R C task sys op) :
    Kept R task (sys.step R C task op) := by
  cases op with
  | grow bytes =>
    obtain ⟨m, hstands, hready⟩ := h
    have hinside := hstands.inside
    refine ⟨m, ⟨hstands.holds, Nat.le_add_right_of_le hinside, hstands.small, hstands.batches⟩,
      fun hstate => ?_⟩
    obtain ⟨k, hk⟩ := hready hstate
    refine ⟨k, hk.length, hk.offset, Nat.le_add_right_of_le hk.inside, ?_⟩
    exact hk.reach.imp_right fun ⟨frame, hframe, hwhole, hsmall⟩ =>
      ⟨frame, hframe, Nat.le_add_right_of_le hwhole, hsmall⟩
  | flush readable now first second => exact h.flush hsound
  | restart marker => exact h.restart hsound
  | forget => exact h.forget hsound

/-- **A frame that cannot be delivered** is found where the backend is. -/
theorem Kept.stopsAt (h : Kept R task sys) (op : UploadOp) :
    StopsAt R task sys (sys.step R C task op) := by
  intro sequence size hstate hstopped
  obtain ⟨m, hstands, hready⟩ := h
  obtain ⟨k, hk⟩ := hready hstate
  cases op with
  | grow bytes =>
    have hsame : sys.state = .undeliverable sequence size := hstopped
    rw [hstate] at hsame
    cases hsame
  | restart marker => cases hstopped
  | forget =>
    have hsame : sys.state = .undeliverable sequence size := hstopped
    rw [hstate] at hsame
    cases hsame
  | flush readable now first second =>
    obtain ⟨b, hbatch⟩ := exists_batch task hk.length hk.inside
    have hreplay (sys : Uploading κ π) (hready : sys.state = .ready) :
        (sys.replay R C task now second).state ≠ .undeliverable sequence size := by
      unfold Uploading.replay
      dsimp only
      split
      · intro hnot
        cases hnot
      · have hrest := (post_rest (R := R) (C := C) task sys now
          ((Uploading.data task sys.written).take
            (planBatch (Uploading.data task sys.written) 0 task.budget).stop) second).2.2
        split
        · next posted events heq =>
          rw [heq] at hrest
          rw [show ({ posted with offset := _ } : Uploading κ π).state = posted.state from rfl,
            hrest, hready]
          intro hnot
          cases hnot
        · intro hnot
          cases hnot
    unfold Uploading.step Uploading.flush at hstopped ⊢
    dsimp only at hstopped ⊢
    rw [if_neg (not_not.mpr hstate)] at hstopped ⊢
    split at hstopped
    · cases hstopped
    · next hreadable =>
      rw [if_neg hreadable]
      rw [hk.offset, hbatch.stop] at hstopped ⊢
      split at hstopped
      · next hless =>
        rw [if_pos hless]
        split at hstopped
        · next sequence' size' hlarge =>
          obtain ⟨hsequence, hsize⟩ := UploaderState.undeliverable.inj hstopped
          subst hsequence hsize
          obtain ⟨-, frame, hframe, hnumber, hbytes, hover⟩ := hbatch.large _ _ hlarge
          refine ⟨k, frame, ?_, hframe, hnumber, hbytes, hover⟩
          have hle : k ≤ m := by
            rcases hk.reach with hle | ⟨other, hother, -, hsmall⟩
            · exact hle
            · obtain rfl : frame = other := Option.some.inj (hframe.symm.trans hother)
              omega
          obtain rfl : m = k := by
            by_contra hne
            have hmem : frame ∈ task.frames.take m :=
              List.mem_iff_getElem?.mpr ⟨k, by rw [List.getElem?_take_of_lt (by omega), hframe]⟩
            have := hstands.small frame hmem
            omega
          exact hstands.holds
        · rw [hstate] at hstopped
          cases hstopped
      · have hrest := (post_rest (R := R) (C := C) task sys now
          (((Uploading.data task sys.written).drop (task.boundary k)).take
            (task.boundary (k + b) - task.boundary k)) first).2.2
        split at hstopped
        · next posted events heq =>
          rw [heq] at hrest
          rw [show ({ posted with offset := _ } : Uploading κ π).state = posted.state from rfl,
            hrest, hstate] at hstopped
          cases hstopped
        · next posted e heq =>
          rw [heq] at hrest
          split at hstopped
          · cases hstopped
          · exact absurd hstopped (hreplay posted (hrest.trans hstate))
        · cases hstopped

/-- **Uploads reproduce a prefix of the journal**, in every run whose markers
are boundaries the backend has reached, or from which a frame can be sent, and
whose backends forget only such an uploader's session. -/
theorem run_uploaded (R : Governance α κ π) (C : LiveConfig) (task : UploadTask)
    (ops : List UploadOp)
    (hsound : ∀ pre op post, ops = pre ++ op :: post →
      UploadSound R C task (Uploading.run R C task Uploading.init pre) op) :
    (∀ pre, pre <+: ops → Uploaded R C task (Uploading.run R C task Uploading.init pre)) ∧
      ∀ pre op post, ops = pre ++ op :: post →
        StopsAt R task (Uploading.run R C task Uploading.init pre)
          ((Uploading.run R C task Uploading.init pre).step R C task op) := by
  have hinit : Kept R task (Uploading.init : Uploading κ π) :=
    ⟨0, ⟨⟨fun _ => rfl, fun session hsome => (by cases hsome), Nat.zero_le _⟩, Nat.zero_le _,
      fun frame hmem => absurd hmem List.not_mem_nil, fun batch hmem => absurd hmem
        List.not_mem_nil⟩, fun _ => ⟨0, Nat.zero_le _, rfl, Nat.zero_le _, .inl (Nat.zero_le _)⟩⟩
  have hkept (sys : Uploading κ π) (h : Kept R task sys) (ops : List UploadOp)
      (hsound : ∀ pre op post, ops = pre ++ op :: post →
        UploadSound R C task (sys.run R C task pre) op) : Kept R task (sys.run R C task ops) := by
    induction ops generalizing sys with
    | nil => exact h
    | cons op ops ih =>
      refine ih _ (h.step op (hsound [] op ops rfl)) fun pre op' post hops => ?_
      exact hsound (op :: pre) op' post (by rw [hops]; rfl)
  have hreached (pre : List UploadOp) (hpre : pre <+: ops) :
      Kept R task (Uploading.run R C task Uploading.init pre) := by
    obtain ⟨rest, rfl⟩ := hpre
    refine hkept _ hinit pre fun first op last hfirst => ?_
    exact hsound first op (last ++ rest) (by rw [hfirst, List.append_assoc]; rfl)
  exact ⟨fun pre hpre => (hreached pre hpre).uploaded,
    fun pre op post hops => (hreached pre ⟨op :: post, hops.symm⟩).stopsAt op⟩

/-! ## A marker that is no boundary -/

/-- A journal of its header only, a frame of fourteen bytes. -/
def headerTask : UploadTask :=
  { frames := [⟨1, [1]⟩]
    maxBodyBytes := 1
    numbered := ⟨⟨rfl, by decide, by decide, by decide⟩, trivial⟩
    projectId := "project"
    sessionId := "session"
    budget := 100 }

theorem rendered_sample {journalId : String} {gate : ExportGate Unit Unit}
    {fresh : List (Decoded Unit × List Unit)}
    (h : ∀ item ∈ fresh, item.1.entry.isOpened = true → item.1.sequence = 1) :
    Rendered sampleGovernance journalId gate fresh := by
  induction fresh generalizing gate with
  | nil => exact trivial
  | cons item rest ih =>
    obtain ⟨hfirst, hrest⟩ := List.forall_mem_cons.mp h
    unfold Rendered
    split
    · next hlater =>
      refine ⟨?_, ih hrest⟩
      unfold eventOf governedEntryEvent
      cases hentry : item.1.entry with
      | opened header =>
        rw [hentry] at hfirst
        have := hfirst rfl
        omega
      | _ =>
        show (if _ then some _ else some _) ≠ none
        split <;> exact Option.some_ne_none _
    · exact ih hrest

/-- Whatever the backend takes of a journal can be rendered. -/
theorem sample_renders (task : UploadTask) (r : Registry Unit Unit) :
    Renders sampleGovernance smallConfig task r := by
  intro now a b p hplan
  have hp := plan_planned hplan
  have hfresh : ∀ item ∈ p.fresh, item.1.entry.isOpened = true → item.1.sequence = 1 := by
    intro item hitem
    have hmem : item.1 ∈ newFrames p.session p.decoded := hp.fresh ▸ List.mem_map_of_mem hitem
    exact hp.continues.headers item.1 (List.mem_filter.mp hmem).1
  exact ⟨fun session _ => rendered_sample hfresh, fun header _ _ => rendered_sample hfresh⟩

/-- A journal of three frames of fourteen bytes. -/
def recordsTask : UploadTask :=
  { headerTask with
    frames := [⟨1, [1]⟩, ⟨2, [3]⟩, ⟨3, [3]⟩]
    numbered := ⟨⟨rfl, by decide, by decide, by decide⟩, ⟨rfl, by decide, by decide, by decide⟩,
      ⟨rfl, by decide, by decide, by decide⟩, trivial⟩ }

/-- Two frames are sent, the answer to the second batch is lost, and the
uploader starts again from where it was. -/
def resumed : List UploadOp :=
  [.grow 28, .flush true 0 .answered .answered, .grow 14, .flush true 1 .unacknowledged .lost,
    .restart (some 28), .flush true 2 .answered .answered]

theorem run_uploaded_resumed : Uploaded sampleGovernance smallConfig recordsTask
    (Uploading.run sampleGovernance smallConfig recordsTask Uploading.init resumed) := by
  refine (run_uploaded sampleGovernance smallConfig recordsTask resumed
    fun pre op post hops => ?_).1 _ (List.prefix_refl _)
  cases op with
  | grow => exact trivial
  | flush => exact sample_renders _ _
  | forget =>
    have hmem : .forget ∈ resumed := hops ▸ List.mem_append_right _ List.mem_cons_self
    simp [resumed] at hmem
  | restart marker =>
    rcases pre with _ | ⟨_, _ | ⟨_, _ | ⟨_, _ | ⟨_, _ | ⟨_, pre⟩⟩⟩⟩⟩ <;> simp [resumed] at hops
    · obtain ⟨rfl, rfl, rfl, rfl, rfl, rfl⟩ := hops
      intro offset hoffset _
      obtain rfl := Option.some.inj hoffset
      exact ⟨2, by decide, by decide +kernel, .inr ⟨⟨3, [3]⟩, rfl, by decide +kernel,
        by decide +kernel⟩⟩
    · rcases pre with _ | ⟨_, pre⟩ <;> simp at hops

/-- **A torn marker at the end of a torn file** is trusted, and nothing is sent
again. -/
theorem not_uploaded_torn : ¬ Uploaded sampleGovernance smallConfig headerTask
    (Uploading.run sampleGovernance smallConfig headerTask Uploading.init
      [.grow 5, .restart (some 5), .grow 9]) := by
  intro h
  generalize hsys : Uploading.run sampleGovernance smallConfig headerTask Uploading.init
    [.grow 5, .restart (some 5), .grow 9] = sys at h
  have hparts : sys = ⟨14, 5, .ready, Registry.empty, []⟩ := by
    rw [← hsys]
    have hload : loadOffset (Uploading.data headerTask 5) (some 5) = 5 := by decide +kernel
    show (⟨14, loadOffset (Uploading.data headerTask 5) (some 5), .ready, Registry.empty, []⟩ :
      Uploading Unit Unit) = _
    rw [hload]
  have hplan : planBatch (Uploading.data headerTask 14) 5 headerTask.budget = ⟨5, none⟩ := by
    decide +kernel
  have hflush (now : ℕ) :
      sys.flush sampleGovernance smallConfig headerTask true now .answered .answered = sys := by
    rw [hparts]
    unfold Uploading.flush
    dsimp only
    rw [if_neg (by simp), if_neg (by simp), hplan, if_pos (Nat.le_refl _)]
  have hflushes (n : ℕ) :
      sys.flushes sampleGovernance smallConfig headerTask (fun _ => 0) n = sys := by
    induction n with
    | zero => rfl
    | succ n ih =>
      unfold Uploading.flushes
      rw [ih, hflush]
  obtain ⟨n, hn⟩ := h.settles (by rw [hparts]) fun _ => 0
  rw [hflushes, hparts] at hn
  rcases hn with hstopped | ⟨m, hholds, -, hwhole⟩
  · exact hstopped rfl
  · have hzero := hholds.nothing rfl
    have hwritten := hwhole (by rw [hzero]; decide)
    rw [hzero] at hwritten
    exact absurd hwritten (by decide +kernel)

end Live

end Earshot
