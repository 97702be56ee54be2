import Earshot.Common.Volume
import Earshot.Exporting.Records
import Mathlib.Data.List.Nodup
/-!
# The exporter with a spool on disk

`DurableExporter`: a submit writes the record to the spool and returns once it
is on the disk; a worker sends what the spool holds and removes what is
settled. Each file operation is a step of its own: the worker may send a record
before its submit has returned, any operation may fail, and the process or the
power may end between any two. Whatever the order, a record whose submit
returned true stays in the spool, through every crash, until the transport took
it, refused it for good, or the record could not be read (`accepted_kept`). What
nothing does is to sync the directory the spool's own was made in: a power loss
that comes before that reaches the disk may take the spool with it.
-/

namespace Earshot.Exporting

/-- How the records of a spool are written, under the nonce each was given, and
read: what is read of a record that was written whole is its item. -/
structure Codec where
  encode : ℕ → ExportItem → Bytes
  decode : Bytes → Option ExportItem
  decode_encode : ∀ id item, decode (encode id item) = some item

/-- `_encode` and `_decode` are one. -/
def Spool.codec (S : Spool) (sha256 : Bytes → String) (nonce : ℕ → Bytes) : Codec where
  encode id item := S.encode sha256 (nonce id) item
  decode := S.decode sha256
  decode_encode id item := (S.read_back sha256 S (nonce id) item).1 rfl (Or.inr rfl)

inductive Suffix where
  | tmp
  | spool
  | rejected
  | corrupt
  deriving DecidableEq

/-- A name: of a directory, of the quarantine in the spool, or the record's own,
which `time_ns` and `uuid4` make its, and its suffix. -/
inductive Name where
  | directory (name : String)
  | quarantine
  | record (id : ℕ) (suffix : Suffix)
  deriving DecidableEq

structure Record where
  bytes : Bytes
  synced : Bool
  deriving DecidableEq

/-- Where a submit is: each constructor names what it does next. -/
inductive Submitting where
  | writing
  | syncing
  | replacing
  /-- `_fsync_directory`, and then it returns true. -/
  | settling
  deriving DecidableEq

/-- Where the worker is with a record. -/
inductive Sending where
  | trying (item : ExportItem)
  /-- `unlink`, after the record was sent, or refused for good. -/
  | deleting (sent : Option ExportItem)
  | rejecting
  | quarantining
  /-- `_fsync_directory` after the record was moved or removed; what it was sent
  with, if it was. -/
  | syncing (sent : Option ExportItem)
  deriving DecidableEq

/-- Why a record is no longer to be sent. -/
inductive Conclusion where
  | sent
  | rejected
  | unreadable
  deriving DecidableEq

structure DurableExporter where
  volume : Volume Name Record
  alive : Bool
  closed : Bool
  submitting : Option (ℕ × ExportItem × Submitting)
  sending : Option (ℕ × Sending)
  /-- Whether the worker thread runs: an error out of a handler ends it. -/
  working : Bool
  /-- What each record was made of. -/
  items : List (ℕ × ExportItem)
  /-- The records whose `submit` returned true. -/
  accepted : List ℕ
  concluded : List (ℕ × Conclusion)
  /-- What the transport took. -/
  delivered : List (ℕ × ExportItem)
  /-- The records accepted before a power loss that came while the spool's own
  directory was not on the disk. -/
  exposed : List ℕ

namespace DurableExporter

variable (spoolDir : List Name)

/-- The first exporter on a spool of its own, among directories of which `there`
says which there are. -/
def new (there : List Name → DirState) : DurableExporter :=
  ⟨{ Volume.empty with dir := there }.mkdirs spoolDir, true, false, none, none, true, [], [], [],
    [],
    []⟩

inductive Op where
  /-- `submit`, `full` being whether the spool is. -/
  | submit (id : ℕ) (item : ExportItem) (full : Bool)
  | submitNext
  /-- `OSError`: the temporary file is removed, and it returns false. -/
  | submitFails
  /-- The worker reads a record. -/
  | take (id : ℕ)
  | takeFails (id : ℕ)
  /-- The transport answers; `again` is whether the worker tries again. -/
  | answer (answer : Answer) (again : Bool)
  | sendNext
  | sendFails
  /-- An error of the scan or of the pause between two tries ends the worker. -/
  | escape
  /-- A directory reaches the disk, whoever syncs it. -/
  | sync (dir : List Name)
  | shutdown
  | kill
  | powerLoss (pick : List Name → ℕ) (kept : List Name → Bool) (torn : Record → Bytes)
  | restart
  /-- `_recover_temporary_files`, one file. -/
  | recover (id : ℕ)

def path (id : ℕ) (suffix : Suffix) : List Name := .record id suffix :: spoolDir

def quarantine : List Name := .quarantine :: spoolDir

/-- What a power loss leaves of a record: one that was synced is whole. -/
def faded (torn : Record → Bytes) (r : Record) : Record :=
  if r.synced then r else { r with bytes := torn r }

/-- `os.replace`, within the spool or to its quarantine. -/
def move (s : DurableExporter) (source target : List Name) : DurableExporter :=
  { s with volume := (s.volume.write target (s.volume.entry source)).write source none }

/-- `_quarantine`, up to the sync: the directory is made where it is missing. -/
def setAside (s : DurableExporter) (id : ℕ) (suffix : Suffix) : DurableExporter :=
  { s with volume := s.volume.mkdirs (quarantine spoolDir) }.move (path spoolDir id suffix)
    (.record id .corrupt :: quarantine spoolDir)

variable (C : Codec) (retain : Bool)

/-- The submit's next file operation is done. -/
def submitNext (s : DurableExporter) : ℕ × ExportItem × Submitting → DurableExporter
  | (id, item, .writing) => { s with
      volume := s.volume.write (path spoolDir id .tmp) (some ⟨C.encode id item, false⟩)
      submitting := some (id, item, .syncing) }
  | (id, item, .syncing) => { s with
      volume := s.volume.write (path spoolDir id .tmp) (some ⟨C.encode id item, true⟩)
      submitting := some (id, item, .replacing) }
  | (id, item, .replacing) =>
    { s.move (path spoolDir id .tmp) (path spoolDir id .spool) with
        submitting := some (id, item, .settling) }
  | (id, _, .settling) => { s with
      volume := s.volume.sync spoolDir, submitting := none, accepted := id :: s.accepted }

/-- The worker's next file operation is done. -/
def sendNext (s : DurableExporter) (id : ℕ) : Sending → Option DurableExporter
  | .trying _ => none
  | .deleting sent => some { s with
      volume := s.volume.write (path spoolDir id .spool) none, sending := some (id, .syncing sent) }
  | .rejecting => some { s.move (path spoolDir id .spool) (path spoolDir id .rejected) with
      sending := some (id, .syncing none) }
  | .quarantining => some { s.setAside spoolDir id .spool with sending := some (id, .syncing none) }
  | .syncing _ => some { s with volume := s.volume.sync spoolDir, sending := none }

/-- It fails. What follows a delivery is within the try, so the record is sent
again; what follows a refusal is not, and ends the worker. -/
def sendFails (s : DurableExporter) (id : ℕ) : Sending → Option DurableExporter
  | .trying _ => none
  | .deleting (some item) | .syncing (some item) =>
    some { s with sending := some (id, .trying item) }
  | .deleting none | .rejecting | .quarantining | .syncing none =>
    some { s with sending := none, working := false }

/-- One try is answered. -/
def answered (s : DurableExporter) (id : ℕ) (item : ExportItem) (again : Bool) :
    Answer → DurableExporter
  | .sent => { s with
      sending := some (id, .deleting (some item))
      concluded := (id, .sent) :: s.concluded
      delivered := (id, item) :: s.delivered }
  | .permanent => { s with
      sending := some (id, if retain then .rejecting else .deleting none)
      concluded := (id, .rejected) :: s.concluded }
  | .retryable | .failure => if again then s else { s with sending := none }

def step (s : DurableExporter) : Op → Option DurableExporter
  | .submit id item full =>
    if s.alive ∧ s.submitting = none ∧ id ∉ s.items.map Prod.fst then
      some (if s.closed ∨ full then s else { s with
        submitting := some (id, item, .writing), items := (id, item) :: s.items })
    else none
  | .submitNext => s.submitting.map (submitNext spoolDir C s)
  | .submitFails =>
    s.submitting.map fun sub => { s with
      volume := s.volume.write (path spoolDir sub.1 .tmp) none, submitting := none }
  | .take id =>
    if s.alive ∧ s.working ∧ ¬ s.closed ∧ s.sending = none then
      (s.volume.entry (path spoolDir id .spool)).map fun record =>
        match C.decode record.bytes with
        | some item => { s with sending := some (id, .trying item) }
        | none => { s with
            sending := some (id, .quarantining), concluded := (id, .unreadable) :: s.concluded }
    else none
  | .takeFails id =>
    if s.alive ∧ s.working ∧ ¬ s.closed ∧ s.sending = none then
      (s.volume.entry (path spoolDir id .spool)).map fun _ => { s with
        sending := some (id, .quarantining), concluded := (id, .unreadable) :: s.concluded }
    else none
  | .answer a again =>
    match s.sending with
    | some (id, .trying item) => some (answered retain s id item again a)
    | _ => none
  | .sendNext => s.sending.bind fun sending => sendNext spoolDir s sending.1 sending.2
  | .sendFails => s.sending.bind fun sending => sendFails s sending.1 sending.2
  | .escape =>
    match s.sending with
    | none | some (_, .trying _) => some { s with sending := none, working := false }
    | _ => none
  | .sync dir => some { s with volume := s.volume.sync dir }
  | .shutdown => some { s with closed := true }
  | .kill => some { s with alive := false, submitting := none, sending := none }
  | .powerLoss pick kept torn => some { s with
      volume := s.volume.powerLoss pick kept (faded torn)
      alive := false
      submitting := none
      sending := none
      exposed := if s.volume.Anchored spoolDir then s.exposed else s.accepted ++ s.exposed }
  | .restart => if s.alive then none else some { s with
      volume := s.volume.mkdirs spoolDir, alive := true, closed := false, working := true }
  | .recover id =>
    if s.alive ∧ s.submitting = none ∧ s.sending = none then
      (s.volume.entry (path spoolDir id .tmp)).map fun _ =>
        s.setAside spoolDir id .tmp
    else none

abbrev run : DurableExporter → List Op → DurableExporter :=
  Transition.run (step spoolDir C retain)

/-! ## What every order keeps -/

/-- The record may be found in the spool only as it was written, whole. -/
def Whole (s : DurableExporter) (id : ℕ) (r : Record) : Prop :=
  r.synced = true ∧ ∃ item, (id, item) ∈ s.items ∧ r.bytes = C.encode id item

/-- The record's entry is on the disk and waits to be sent. -/
def Waits (s : DurableExporter) (id : ℕ) : Prop :=
  ∃ r, s.volume.Synced (path spoolDir id .spool) (some r)

def Concluded (s : DurableExporter) (id : ℕ) : Prop := ∃ c, (id, c) ∈ s.concluded

/-- What a submit has done so far. -/
structure Submitted (s : DurableExporter) (id : ℕ) (item : ExportItem) (place : Submitting) :
    Prop where
  made : (id, item) ∈ s.items
  fresh : id ∉ s.accepted
  synced : place = .replacing → s.volume.entry (path spoolDir id .tmp) = some
    ⟨C.encode id item, true⟩
  placed : place = .settling →
    (∃ r, s.volume.entry (path spoolDir id .spool) = some r) ∨ Concluded s id

/-- What the worker is about to do with a record. -/
def Handled (s : DurableExporter) (id : ℕ) : Sending → Prop
  | .trying item | .deleting (some item) | .syncing (some item) => (id, item) ∈ s.items
  | _ => True

/-- Its record is to be removed only once that is decided. -/
def Decided (s : DurableExporter) (id : ℕ) : Sending → Prop
  | .trying _ => True
  | _ => Concluded s id

structure Inv (s : DurableExporter) : Prop where
  whole : ∀ id r, s.volume.Holds (path spoolDir id .spool) r → Whole C s id r
  accepted : ∀ id ∈ s.accepted, (∃ item, (id, item) ∈ s.items) ∧
    (Waits spoolDir s id ∨ Concluded s id ∨ id ∈ s.exposed)
  submitted : ∀ id item place, s.submitting = some (id, item, place) → Submitted spoolDir C s id
    item place
  handled : ∀ id sending, s.sending = some (id, sending) → Handled s id sending
  decided : ∀ id sending, s.sending = some (id, sending) → Decided s id sending
  delivered : ∀ x ∈ s.delivered, x ∈ s.items
  unique : (s.items.map Prod.fst).Nodup

variable {spoolDir C retain} {s s' : DurableExporter} {id : ℕ} {item : ExportItem}
  {place : Submitting}

theorem Inv.new {there : List Name → DirState} : Inv spoolDir C (new spoolDir there) where
  whole _ _ h := by
    rcases Volume.holds_mkdirs.mp h with h | h
    · cases h
    · cases h
  accepted := nofun
  submitted := nofun
  handled := nofun
  decided := nofun
  delivered := nofun
  unique := List.nodup_nil

theorem path_ne {other : ℕ} {suffix suffix' : Suffix} (hsuffix : suffix ≠ suffix') :
    path spoolDir other suffix ≠ path spoolDir id suffix' := by
  rintro h
  injection h with hname
  injection hname with _ hs
  exact hsuffix hs

theorem quarantined_ne {other : ℕ} {suffix : Suffix} :
    .record other .corrupt :: quarantine spoolDir ≠ path spoolDir id suffix := by
  rintro h
  injection h with _ htail
  have hlength := congrArg List.length htail
  rw [quarantine, List.length_cons] at hlength
  omega

theorem Submitted.mono (h : Submitted spoolDir C s id item place) (hitems : s.items ⊆ s'.items)
    (haccepted : s'.accepted = s.accepted)
    (htmp : s'.volume.entry (path spoolDir id .tmp) = s.volume.entry (path spoolDir id .tmp))
    (hspool : ∀ r, s.volume.entry (path spoolDir id .spool) = some r →
      (∃ r, s'.volume.entry (path spoolDir id .spool) = some r) ∨ Concluded s' id)
    (hconcluded : s.concluded ⊆ s'.concluded) : Submitted spoolDir C s' id item place where
  made := hitems h.made
  fresh := haccepted ▸ h.fresh
  synced hp := htmp.trans (h.synced hp)
  placed hp := by
    rcases h.placed hp with ⟨r, hr⟩ | ⟨c, hc⟩
    · exact hspool r hr
    · exact Or.inr ⟨c, hconcluded hc⟩

/-- **The step rule**: what is found in the spool was there or is whole, what
waited waits or is concluded, and nothing is forgotten. -/
theorem Inv.frame (h : Inv spoolDir C s)
    (hvolume : ∀ id r, s'.volume.Holds (path spoolDir id .spool) r →
      s.volume.Holds (path spoolDir id .spool) r ∨ Whole C s' id r)
    (hwaits : ∀ id ∈ s.accepted, Waits spoolDir s id →
      Waits spoolDir s' id ∨ Concluded s' id ∨ id ∈ s'.exposed)
    (haccepted : ∀ id ∈ s'.accepted, id ∈ s.accepted ∨
      (∃ item, (id, item) ∈ s'.items) ∧ (Waits spoolDir s' id ∨ Concluded s' id))
    (hitems : s.items ⊆ s'.items) (hconcluded : s.concluded ⊆ s'.concluded)
    (hexposed : s.exposed ⊆ s'.exposed)
    (hsubmitted : ∀ id item place, s'.submitting = some (id, item, place) →
      Submitted spoolDir C s' id item place)
    (hhandled : ∀ id sending, s'.sending = some (id, sending) → Handled s' id sending)
    (hdecided : ∀ id sending, s'.sending = some (id, sending) → Decided s' id sending)
    (hdelivered : ∀ x ∈ s'.delivered, x ∈ s'.items) (hunique : (s'.items.map Prod.fst).Nodup) :
    Inv spoolDir C s' := by
  refine ⟨fun id r hr => ?_, fun id hid => ?_, hsubmitted, hhandled, hdecided, hdelivered, hunique⟩
  · rcases hvolume id r hr with hold | hnew
    · obtain ⟨hsynced, item, hitem, hbytes⟩ := h.whole id r hold
      exact ⟨hsynced, item, hitems hitem, hbytes⟩
    · exact hnew
  · rcases haccepted id hid with hold | hnew
    · obtain ⟨⟨item, hitem⟩, hkept⟩ := h.accepted id hold
      refine ⟨⟨item, hitems hitem⟩, ?_⟩
      rcases hkept with hw | ⟨c, hc⟩ | hlost
      · exact hwaits id hold hw
      · exact Or.inr (Or.inl ⟨c, hconcluded hc⟩)
      · exact Or.inr (Or.inr (hexposed hlost))
    · exact ⟨hnew.1, hnew.2.imp (fun hw => hw) Or.inl⟩

theorem Handled.mono (hitems : s.items ⊆ s'.items) {sending : Sending}
    (h : Handled s id sending) : Handled s' id sending := by
  cases sending with
  | trying item => exact hitems h
  | deleting sent =>
    cases sent with
    | none => trivial
    | some item => exact hitems h
  | syncing sent =>
    cases sent with
    | none => trivial
    | some item => exact hitems h
  | rejecting | quarantining => trivial

theorem Decided.mono (hconcluded : s.concluded ⊆ s'.concluded) {sending : Sending}
    (h : Decided s id sending) : Decided s' id sending := by
  have hmono : Concluded s id → Concluded s' id := fun ⟨c, hc⟩ => ⟨c, hconcluded hc⟩
  cases sending with
  | trying item => trivial
  | deleting | syncing | rejecting | quarantining => exact hmono h

/-! ## Steps off the spool -/

/-- A change to names other than the spool's records. -/
theorem Inv.aside (h : Inv spoolDir C s) {q : List Name} {e : Option Record}
    (hq : ∀ id, q ≠ path spoolDir id .spool) (hvolume : s'.volume = s.volume.write q e)
    (hsame : s'.accepted = s.accepted ∧ s'.items = s.items ∧ s'.concluded = s.concluded ∧
      s'.sending = s.sending ∧ s'.delivered = s.delivered ∧ s'.exposed = s.exposed)
    (hsubmitted : ∀ id item place, s'.submitting = some (id, item, place) →
      Submitted spoolDir C s' id item place) : Inv spoolDir C s' := by
  obtain ⟨hacc, hitems, hcon, hsend, hdel, hexp⟩ := hsame
  refine h.frame (fun id r hr => Or.inl ?_) (fun id _ hw => Or.inl ?_)
    (fun id hid => Or.inl (hacc ▸ hid)) (hitems ▸ List.Subset.refl _)
    (hcon ▸ List.Subset.refl _) (hexp ▸ List.Subset.refl _) hsubmitted (fun id sending hs => ?_)
      (fun id sending hs => ?_)
    (hdel ▸ hitems ▸ h.delivered) (hitems ▸ h.unique)
  · rw [hvolume] at hr
    exact (Volume.holds_write hr).resolve_right fun hne => hq id hne.1.symm
  · obtain ⟨r, hr⟩ := hw
    exact ⟨r, hvolume ▸ hr.write (hq id).symm⟩
  · exact (h.handled id sending (hsend ▸ hs)).mono (hitems ▸ List.Subset.refl _)
  · exact (h.decided id sending (hsend ▸ hs)).mono (hcon ▸ List.Subset.refl _)

/-- A concluded record is taken out of the spool. -/
theorem Inv.remove (h : Inv spoolDir C s) (hconcluded : Concluded s id)
    (hvolume : s'.volume = s.volume.write (path spoolDir id .spool) none)
    (hsame : s'.accepted = s.accepted ∧ s'.items = s.items ∧ s'.concluded = s.concluded ∧
      s'.submitting = s.submitting ∧ s'.delivered = s.delivered ∧ s'.exposed = s.exposed)
    (hhandled : ∀ id sending, s'.sending = some (id, sending) → Handled s' id sending)
    (hdecided : ∀ id sending, s'.sending = some (id, sending) → Decided s' id sending) :
    Inv spoolDir C s' := by
  obtain ⟨hacc, hitems, hcon, hsub, hdel, hexp⟩ := hsame
  have hsubset : s.items ⊆ s'.items := hitems ▸ List.Subset.refl _
  have hgone : Concluded s' id := by
    obtain ⟨c, hc⟩ := hconcluded
    exact ⟨c, hcon ▸ hc⟩
  refine h.frame (fun other r hr => Or.inl ?_) (fun other _ hw => ?_)
    (fun other hid => Or.inl (hacc ▸ hid)) hsubset (hcon ▸ List.Subset.refl _)
    (hexp ▸ List.Subset.refl _) (fun other item place hs => ?_) hhandled hdecided
      (hdel ▸ hitems ▸ h.delivered)
    (hitems ▸ h.unique)
  · rw [hvolume] at hr
    rcases Volume.holds_write hr with hold | ⟨-, hnone⟩
    · exact hold
    · cases hnone
  · by_cases hid : other = id
    · exact Or.inr (Or.inl (hid ▸ hgone))
    · obtain ⟨r, hr⟩ := hw
      refine Or.inl ⟨r, hvolume ▸ hr.write fun heq => hid ?_⟩
      injection heq with hname
      injection hname
  · refine (h.submitted other item place (hsub ▸ hs)).mono hsubset hacc ?_ (fun r hr => ?_)
      (hcon ▸ List.Subset.refl _)
    · rw [hvolume]
      exact Function.update_of_ne (path_ne (by decide)) _ _
    · by_cases hid : other = id
      · exact Or.inr (hid ▸ hgone)
      · left
        refine ⟨r, ?_⟩
        rw [hvolume, ← hr]
        refine Function.update_of_ne (fun heq => hid ?_) _ _
        injection heq with hname
        injection hname

/-- Nothing but the worker's place, and what it concluded, changes. -/
theorem Inv.send (h : Inv spoolDir C s) {sending : Option (ℕ × Sending)}
    {concluded : List (ℕ × Conclusion)} {delivered : List (ℕ × ExportItem)} {working : Bool}
    (hconcluded : s.concluded ⊆ concluded) (hdelivered : ∀ x ∈ delivered, x ∈ s.items)
    (hhandled : ∀ id x, sending = some (id, x) → Handled s id x)
    (hdecided : ∀ id x, sending = some (id, x) →
      Decided { s with concluded := concluded } id x) :
    Inv spoolDir C { s with
      sending := sending, concluded := concluded, delivered := delivered, working := working } := by
  refine h.frame (fun _ _ hr => Or.inl hr) (fun _ _ hw => Or.inl hw) (fun _ hid => Or.inl hid)
    (List.Subset.refl _) hconcluded (List.Subset.refl _) (fun id item place hs => ?_)
    (fun id x hx => ?_) (fun id x hx => ?_) hdelivered h.unique
  · exact (h.submitted id item place hs).mono (List.Subset.refl _) rfl rfl
      (fun r hr => Or.inl ⟨r, hr⟩) hconcluded
  · exact (hhandled id x hx).mono (List.Subset.refl _)
  · exact (hdecided id x hx).mono (List.Subset.refl _)

theorem Inv.submitNext (h : Inv spoolDir C s) {sub : ℕ × ExportItem × Submitting}
    (hsub : s.submitting = some sub) : Inv spoolDir C (submitNext spoolDir C s sub) := by
  obtain ⟨id, item, place⟩ := sub
  have hs := h.submitted id item place hsub
  cases place with
  | writing =>
    refine h.aside (fun _ => path_ne (by decide)) rfl ⟨rfl, rfl, rfl, rfl, rfl, rfl⟩
      fun other item' place' heq => ?_
    obtain ⟨rfl, rfl, rfl⟩ : id = other ∧ item = item' ∧ Submitting.syncing = place' := by
      simpa [DurableExporter.submitNext] using heq
    exact ⟨hs.made, hs.fresh, nofun, nofun⟩
  | syncing =>
    refine h.aside (fun _ => path_ne (by decide)) rfl ⟨rfl, rfl, rfl, rfl, rfl, rfl⟩
      fun other item' place' heq => ?_
    obtain ⟨rfl, rfl, rfl⟩ : id = other ∧ item = item' ∧ Submitting.replacing = place' := by
      simpa [DurableExporter.submitNext] using heq
    exact ⟨hs.made, hs.fresh, fun _ => Function.update_self _ _ _, nofun⟩
  | replacing =>
    -- the record comes into the spool, synced
    have hfile := hs.synced rfl
    have htmp (other : ℕ) : path spoolDir id .tmp ≠ path spoolDir other .spool := path_ne
      (by decide)
    have hentry : (s.move (path spoolDir id .tmp) (path spoolDir id .spool)).volume.entry
        (path spoolDir id .spool) = some ⟨C.encode id item, true⟩ := by
      unfold move Volume.write
      dsimp only
      rw [Function.update_of_ne (htmp id).symm, Function.update_self, hfile]
    refine h.frame (fun other r hr => ?_) (fun other hacc hw => Or.inl ?_)
      (fun _ hid => Or.inl hid) (List.Subset.refl _) (List.Subset.refl _) (List.Subset.refl _)
      (fun other item' place' heq => ?_) (fun other x hx => ?_) (fun other x hx => ?_)
      h.delivered h.unique
    · rcases Volume.holds_write hr with hr | ⟨heq, -⟩
      · rcases Volume.holds_write hr with hr | ⟨heq, hr⟩
        · exact Or.inl hr
        · right
          injection heq with hname
          injection hname with hid
          subst hid
          obtain rfl := Option.some.inj (hfile.symm.trans hr)
          exact ⟨rfl, item, hs.made, rfl⟩
      · exact absurd heq.symm (htmp other)
    · obtain ⟨r, hr⟩ := hw
      refine ⟨r, (hr.write fun heq => hs.fresh ?_).write (htmp other).symm⟩
      injection heq with hname
      injection hname with hid
      exact hid ▸ hacc
    · obtain ⟨rfl, rfl, rfl⟩ : id = other ∧ item = item' ∧ Submitting.settling = place' := by
        simpa [DurableExporter.submitNext] using heq
      exact ⟨hs.made, hs.fresh, nofun, fun _ => Or.inl ⟨_, hentry⟩⟩
    · exact (h.handled other x hx).mono (List.Subset.refl _)
    · exact (h.decided other x hx).mono (List.Subset.refl _)
  | settling =>
    refine h.frame (fun other r hr => Or.inl (Volume.holds_sync hr))
      (fun other _ ⟨r, hr⟩ => Or.inl ⟨r, hr.sync⟩) (fun other hid => ?_) (List.Subset.refl _)
      (List.Subset.refl _) (List.Subset.refl _) nofun (fun other x hx => ?_) (fun other x hx => ?_)
        h.delivered h.unique
    · rcases List.mem_cons.mp hid with rfl | hid
      · refine Or.inr ⟨⟨item, hs.made⟩, ?_⟩
        rcases hs.placed rfl with ⟨r, hr⟩ | hgone
        · left
          have hsynced := Volume.synced_sync (v := s.volume) (p := path spoolDir other .spool)
          exact ⟨r, hr ▸ hsynced⟩
        · exact Or.inr hgone
      · exact Or.inl hid
    · exact (h.handled other x hx).mono (List.Subset.refl _)
    · exact (h.decided other x hx).mono (List.Subset.refl _)

/-- Making directories moves no record. -/
theorem Inv.mkdirs (h : Inv spoolDir C s) {dir : List Name} {alive closed working : Bool} :
    Inv spoolDir C { s with
      volume := s.volume.mkdirs dir, alive := alive, closed := closed, working := working } := by
  obtain ⟨hentry, holder⟩ := Volume.mkdirs_entry (v := s.volume) (d := dir)
  refine h.frame (fun other r hr => Or.inl (Volume.holds_mkdirs.mp hr))
    (fun other _ ⟨r, hr⟩ => Or.inl ⟨r, ⟨?_, ?_⟩⟩) (fun _ hid => Or.inl hid) (List.Subset.refl _)
    (List.Subset.refl _) (List.Subset.refl _) (fun other item place hs => ?_)
    (fun other x hx => (h.handled other x hx).mono (List.Subset.refl _))
    (fun other x hx => (h.decided other x hx).mono (List.Subset.refl _)) h.delivered h.unique
  · exact (congrFun hentry _).trans hr.entry
  · exact (congrFun holder _).trans hr.older
  · exact (h.submitted other item place hs).mono (List.Subset.refl _) rfl (congrFun hentry _)
      (fun r hr => Or.inl ⟨r, (congrFun hentry _).trans hr⟩) (List.Subset.refl _)

/-- A record the worker moves is first seen under its new name. -/
theorem Inv.moveOut (h : Inv spoolDir C s) {target : List Name}
    (htarget : ∀ id, target ≠ path spoolDir id .spool)
    (htmp : ∀ id, target ≠ path spoolDir id .tmp) (hconcluded : Concluded s id) :
    Inv spoolDir C
      { s.move (path spoolDir id .spool) target with sending := some (id, .syncing none) } := by
  have hplaced : Inv spoolDir C { s with
      volume := s.volume.write target (s.volume.entry (path spoolDir id .spool)) } := by
    refine h.aside htarget rfl ⟨rfl, rfl, rfl, rfl, rfl, rfl⟩ fun other item place hs => ?_
    refine (h.submitted other item place hs).mono (List.Subset.refl _) rfl ?_ (fun r hr => ?_)
      (List.Subset.refl _)
    · exact Function.update_of_ne (htmp other).symm _ _
    · exact Or.inl ⟨r, (Function.update_of_ne (htarget other).symm _ _).trans hr⟩
  refine hplaced.remove hconcluded rfl ⟨rfl, rfl, rfl, rfl, rfl, rfl⟩ (fun other x hx => ?_)
    fun other x hx => ?_
  · obtain ⟨rfl, rfl⟩ := Prod.mk.inj (Option.some.inj hx)
    trivial
  · obtain ⟨rfl, rfl⟩ := Prod.mk.inj (Option.some.inj hx)
    exact hconcluded

theorem Inv.sendNext (h : Inv spoolDir C s) {sending : Sending}
    (hsending : s.sending = some (id, sending))
    (hstep : s.sendNext spoolDir id sending = some s') : Inv spoolDir C s' := by
  have hhandled := h.handled id sending hsending
  have hdecided := h.decided id sending hsending
  cases sending with
  | trying item => cases hstep
  | deleting sent =>
    obtain rfl := Option.some.inj hstep
    refine h.remove hdecided rfl ⟨rfl, rfl, rfl, rfl, rfl, rfl⟩ (fun other x hx => ?_)
      fun other x hx => ?_
    · obtain ⟨rfl, rfl⟩ := Prod.mk.inj (Option.some.inj hx)
      cases sent with
      | none => trivial
      | some item => exact hhandled
    · obtain ⟨rfl, rfl⟩ := Prod.mk.inj (Option.some.inj hx)
      exact hdecided
  | rejecting =>
    obtain rfl := Option.some.inj hstep
    exact h.moveOut (fun _ => path_ne (by decide)) (fun _ => path_ne (by decide)) hdecided
  | quarantining =>
    obtain rfl := Option.some.inj hstep
    exact h.mkdirs.moveOut (fun _ => quarantined_ne) (fun _ => quarantined_ne) hdecided
  | syncing sent =>
    obtain rfl := Option.some.inj hstep
    refine h.frame (fun other r hr => Or.inl (Volume.holds_sync hr))
      (fun other _ ⟨r, hr⟩ => Or.inl ⟨r, hr.sync⟩) (fun _ hid => Or.inl hid) (List.Subset.refl _)
      (List.Subset.refl _) (List.Subset.refl _) (fun other item place hs => ?_) nofun nofun
      h.delivered h.unique
    exact (h.submitted other item place hs).mono (List.Subset.refl _) rfl rfl
      (fun r hr => Or.inl ⟨r, hr⟩) (List.Subset.refl _)

theorem Inv.sendFails (h : Inv spoolDir C s) {sending : Sending}
    (hsending : s.sending = some (id, sending)) (hstep : s.sendFails id sending = some s') :
    Inv spoolDir C s' := by
  have hhandled := h.handled id sending hsending
  have hstops : Inv spoolDir C { s with sending := none, working := false } :=
    h.send (List.Subset.refl _) h.delivered nofun nofun
  have hagain {item : ExportItem} (hitem : (id, item) ∈ s.items) :
      Inv spoolDir C { s with sending := some (id, .trying item) } := by
    refine h.send (List.Subset.refl _) h.delivered (fun other x hx => ?_) fun other x hx => ?_
    · obtain ⟨rfl, rfl⟩ := Prod.mk.inj (Option.some.inj hx)
      exact hitem
    · obtain ⟨rfl, rfl⟩ := Prod.mk.inj (Option.some.inj hx)
      trivial
  unfold DurableExporter.sendFails at hstep
  split at hstep
  · cases hstep
  all_goals
    obtain rfl := Option.some.inj hstep
    first | exact hagain hhandled | exact hstops

theorem Inv.answered (h : Inv spoolDir C s) (hsending : s.sending = some (id, .trying item))
    (a : Answer)
    (again : Bool) : Inv spoolDir C (answered retain s id item again a) := by
  have hitem : (id, item) ∈ s.items := h.handled id _ hsending
  have hgone (c : Conclusion) : Concluded { s with concluded := (id, c) :: s.concluded } id :=
    ⟨c, List.mem_cons_self⟩
  have hretry : Inv spoolDir C (if again then s else { s with sending := none }) := by
    split
    · exact h
    · exact h.send (List.Subset.refl _) h.delivered nofun nofun
  cases a with
  | sent =>
    refine h.send (List.subset_cons_self _ _) (fun x hx => ?_) (fun other x hx => ?_)
      fun other x hx => ?_
    · rcases List.mem_cons.mp hx with rfl | hx
      · exact hitem
      · exact h.delivered x hx
    · obtain ⟨rfl, rfl⟩ := Prod.mk.inj (Option.some.inj hx)
      exact hitem
    · obtain ⟨rfl, rfl⟩ := Prod.mk.inj (Option.some.inj hx)
      exact hgone .sent
  | permanent =>
    refine h.send (List.subset_cons_self _ _) h.delivered (fun other x hx => ?_)
      fun other x hx => ?_
    · obtain ⟨rfl, rfl⟩ := Prod.mk.inj (Option.some.inj hx)
      split <;> trivial
    · obtain ⟨rfl, rfl⟩ := Prod.mk.inj (Option.some.inj hx)
      split <;> exact hgone .rejected
  | retryable | failure => exact hretry

/-- What is read of the spool is an item that was submitted. -/
theorem Inv.take (h : Inv spoolDir C s) {r : Record}
    (hentry : s.volume.entry (path spoolDir id .spool) = some r) :
    ∃ item, C.decode r.bytes = some item ∧ (id, item) ∈ s.items := by
  obtain ⟨-, item, hitem, hbytes⟩ := h.whole id r (Or.inl hentry)
  exact ⟨item, hbytes ▸ C.decode_encode id item, hitem⟩

/-- **Every step keeps the invariant.** -/
theorem Inv.step (h : Inv spoolDir C s) {op : Op} (hstep : step spoolDir C retain s op = some s') :
    Inv spoolDir C s' := by
  have hunreadable (id : ℕ) : Inv spoolDir C { s with
      sending := some (id, .quarantining), concluded := (id, .unreadable) :: s.concluded } := by
    refine h.send (List.subset_cons_self _ _) h.delivered (fun other x hx => ?_)
      fun other x hx => ?_
    · obtain ⟨rfl, rfl⟩ := Prod.mk.inj (Option.some.inj hx)
      trivial
    · obtain ⟨rfl, rfl⟩ := Prod.mk.inj (Option.some.inj hx)
      exact ⟨.unreadable, List.mem_cons_self⟩
  cases op with
  | submit id item full =>
    simp only [DurableExporter.step] at hstep
    split at hstep
    · next hfree =>
      obtain rfl := Option.some.inj hstep
      split
      · exact h
      · refine h.frame (fun _ _ hr => Or.inl hr) (fun _ _ hw => Or.inl hw) (fun _ hid => Or.inl hid)
          (List.subset_cons_self _ _) (List.Subset.refl _) (List.Subset.refl _)
          (fun other item' place heq => ?_)
          (fun other x hx => (h.handled other x hx).mono (List.subset_cons_self _ _))
          (fun other x hx => (h.decided other x hx).mono (List.Subset.refl _))
          (fun x hx => List.mem_cons_of_mem _ (h.delivered x hx))
          (List.nodup_cons.mpr ⟨hfree.2.2, h.unique⟩)
        obtain ⟨rfl, hrest⟩ := Prod.mk.inj (Option.some.inj heq)
        obtain ⟨rfl, rfl⟩ := Prod.mk.inj hrest
        refine ⟨List.mem_cons_self, fun hacc => hfree.2.2 ?_, nofun, nofun⟩
        obtain ⟨⟨item', hitem'⟩, -⟩ := h.accepted _ hacc
        exact List.mem_map_of_mem (f := Prod.fst) hitem'
    · cases hstep
  | submitNext =>
    obtain ⟨sub, hsub, rfl⟩ := Option.map_eq_some_iff.mp hstep
    exact h.submitNext hsub
  | submitFails =>
    obtain ⟨sub, -, rfl⟩ := Option.map_eq_some_iff.mp hstep
    exact h.aside (fun _ => path_ne (by decide)) rfl ⟨rfl, rfl, rfl, rfl, rfl, rfl⟩ nofun
  | take id =>
    simp only [DurableExporter.step] at hstep
    split at hstep
    · obtain ⟨r, hr, rfl⟩ := Option.map_eq_some_iff.mp hstep
      obtain ⟨item, hdecode, hitem⟩ := h.take hr
      rw [hdecode]
      refine h.send (List.Subset.refl _) h.delivered (fun other x hx => ?_) fun other x hx => ?_
      · obtain ⟨rfl, rfl⟩ := Prod.mk.inj (Option.some.inj hx)
        exact hitem
      · obtain ⟨rfl, rfl⟩ := Prod.mk.inj (Option.some.inj hx)
        trivial
    · cases hstep
  | takeFails id =>
    simp only [DurableExporter.step] at hstep
    split at hstep
    · obtain ⟨r, -, rfl⟩ := Option.map_eq_some_iff.mp hstep
      exact hunreadable id
    · cases hstep
  | answer a again =>
    simp only [DurableExporter.step] at hstep
    split at hstep
    · next id item hsending =>
      obtain rfl := Option.some.inj hstep
      exact h.answered hsending a again
    · cases hstep
  | sendNext =>
    obtain ⟨⟨id, sending⟩, hsending, hstep⟩ := Option.bind_eq_some_iff.mp hstep
    exact h.sendNext hsending hstep
  | sendFails =>
    obtain ⟨⟨id, sending⟩, hsending, hstep⟩ := Option.bind_eq_some_iff.mp hstep
    exact h.sendFails hsending hstep
  | escape =>
    simp only [DurableExporter.step] at hstep
    split at hstep
    · exact Option.some.inj hstep ▸ h.send (List.Subset.refl _) h.delivered nofun nofun
    · exact Option.some.inj hstep ▸ h.send (List.Subset.refl _) h.delivered nofun nofun
    · cases hstep
  | sync dir =>
    obtain rfl := Option.some.inj hstep
    exact h.frame (fun other r hr => Or.inl (Volume.holds_sync hr))
      (fun other _ ⟨r, hr⟩ => Or.inl ⟨r, hr.sync⟩) (fun _ hid => Or.inl hid) (List.Subset.refl _)
      (List.Subset.refl _) (List.Subset.refl _)
      (fun other item place hs => (h.submitted other item place hs).mono (List.Subset.refl _) rfl
        rfl
        (fun r hr => Or.inl ⟨r, hr⟩) (List.Subset.refl _))
      (fun other x hx => (h.handled other x hx).mono (List.Subset.refl _))
      (fun other x hx => (h.decided other x hx).mono (List.Subset.refl _)) h.delivered h.unique
  | shutdown =>
    obtain rfl := Option.some.inj hstep
    exact { h with submitted := fun id item place hs => { h.submitted id item place hs with } }
  | kill =>
    obtain rfl := Option.some.inj hstep
    exact { h with submitted := nofun, handled := nofun, decided := nofun }
  | powerLoss pick kept torn =>
    obtain rfl := Option.some.inj hstep
    refine h.frame (fun other r hr => Or.inl ?_) (fun other hacc hw => ?_)
      (fun _ hid => Or.inl hid) (List.Subset.refl _) (List.Subset.refl _) ?_ nofun nofun nofun
      h.delivered h.unique
    · obtain ⟨r', hr', rfl⟩ := Volume.holds_powerLoss hr
      rwa [faded, if_pos (h.whole other r' hr').1]
    · by_cases hdir : s.volume.Anchored spoolDir
      · obtain ⟨r, hr⟩ := hw
        exact Or.inl ⟨_, hr.powerLoss (Volume.stands_of_anchored hdir)⟩
      · right; right
        dsimp only
        rw [if_neg hdir]
        exact List.mem_append_left _ hacc
    · dsimp only
      split
      · exact List.Subset.refl _
      · exact List.subset_append_right _ _
  | restart =>
    simp only [DurableExporter.step] at hstep
    split at hstep
    · cases hstep
    · exact Option.some.inj hstep ▸ h.mkdirs
  | recover id =>
    simp only [DurableExporter.step] at hstep
    split at hstep
    · next hquiet =>
      obtain ⟨r, -, rfl⟩ := Option.map_eq_some_iff.mp hstep
      have hnone (other : ℕ) (item : ExportItem) (place : Submitting) :
          s.submitting ≠ some (other, item, place) := by
        rw [hquiet.2.1]
        nofun
      have hmade : Inv spoolDir C { s with
          volume := s.volume.mkdirs (quarantine spoolDir) } := h.mkdirs
      have hplaced : Inv spoolDir C { s with
          volume := (s.volume.mkdirs (quarantine spoolDir)).write
            (.record id .corrupt :: quarantine spoolDir)
            ((s.volume.mkdirs (quarantine spoolDir)).entry (path spoolDir id .tmp)) } :=
        hmade.aside (fun _ => quarantined_ne) rfl ⟨rfl, rfl, rfl, rfl, rfl, rfl⟩
          fun other item place hs => absurd hs (hnone other item place)
      exact hplaced.aside (fun _ => path_ne (by decide)) rfl ⟨rfl, rfl, rfl, rfl, rfl, rfl⟩
        fun other item place hs => absurd hs (hnone other item place)
    · cases hstep

theorem Inv.run (there : List Name → DirState) (ops : List Op) :
    Inv spoolDir C (run spoolDir C retain (DurableExporter.new spoolDir there) ops) :=
  Transition.run_invariant (fun _ _ _ h hstep => h.step hstep) ops _ .new

/-- **An accepted record is kept**: whichever directories there are at first, and
however submits, the worker, failures, kills and power losses interleave, a
record whose `submit` returned true is in the spool under a synced entry, and is
read as its own item; or the transport took it, refused it for good, or it could
not be read; or a power loss came after it was accepted, while the spool's own
directory was not on the disk. -/
theorem accepted_kept (there : List Name → DirState) (ops : List Op) :
    ∀ id ∈ (run spoolDir C retain (new spoolDir there) ops).accepted,
      ∃ item, (id, item) ∈ (run spoolDir C retain (new spoolDir there) ops).items ∧
        ((run spoolDir C retain (new spoolDir there) ops).volume.Synced (path spoolDir id .spool)
            (some ⟨C.encode id item, true⟩) ∨
          (∃ c, (id, c) ∈ (run spoolDir C retain (new spoolDir there) ops).concluded) ∨
          id ∈ (run spoolDir C retain (new spoolDir there) ops).exposed) := by
  intro id hid
  have h : Inv spoolDir C (run spoolDir C retain (new spoolDir there) ops) := Inv.run there ops
  obtain ⟨⟨item, hitem⟩, hkept⟩ := h.accepted id hid
  rcases hkept with ⟨r, hr⟩ | hgone
  · obtain ⟨hsynced, item', hitem', hbytes⟩ := h.whole id r (Or.inl hr.entry)
    refine ⟨item', hitem', Or.inl ?_⟩
    have hrecord : r = ⟨C.encode id item', true⟩ := by
      cases r
      simp_all
    exact hrecord ▸ hr
  · exact ⟨item, hitem, Or.inr hgone⟩

def bundle : ExportItem := ⟨"bundle", [1, 2], "application/x-protobuf"⟩

/-- One record's way into the spool, and a power loss. -/
def firstSubmit : List Op :=
  [.submit 0 bundle false, .submitNext, .submitNext, .submitNext, .submitNext,
    .powerLoss (fun _ => 0) (fun _ => false) Record.bytes]

def plainSpool : Codec :=
  Spool.codec ⟨"destination", none⟩ (fun bytes => toString bytes.length) fun _ => []

def someDir : List Name := [.directory "spool"]

/-- The exporter on a spool whose directory is there. -/
def first : DurableExporter := new someDir fun _ => .durable

theorem accepted_kept_firstSubmit :
    ∃ item, (0, item) ∈ (run someDir plainSpool false first firstSubmit).items ∧
      ((run someDir plainSpool false first firstSubmit).volume.Synced (path someDir 0 .spool)
          (some ⟨plainSpool.encode 0 item, true⟩) ∨
        (∃ c, (0, c) ∈ (run someDir plainSpool false first firstSubmit).concluded) ∨
        0 ∈ (run someDir plainSpool false first firstSubmit).exposed) :=
  accepted_kept (fun _ => .durable) firstSubmit 0 (by exact List.mem_singleton.mpr rfl)

-- A spool directory the exporter has just made is lost with the record in it.
example : (run someDir plainSpool false (new someDir fun _ => .absent) firstSubmit).volume.entry
    (path someDir 0 .spool) = none := rfl

/-- **Nothing else is sent**: what the transport takes under a record's name is
the item submitted under it, and no other. -/
theorem delivered_submitted (there : List Name → DirState) (ops : List Op) :
    ∀ x ∈ (run spoolDir C retain (new spoolDir there) ops).delivered,
      x ∈ (run spoolDir C retain (new spoolDir there) ops).items ∧
      ∀ item, (x.1, item) ∈ (run spoolDir C retain (new spoolDir there) ops).items → item = x.2 := by
  intro x hx
  have h : Inv spoolDir C (run spoolDir C retain (new spoolDir there) ops) := Inv.run there ops
  refine ⟨h.delivered x hx, fun item hitem => ?_⟩
  have := List.inj_on_of_nodup_map h.unique hitem (h.delivered x hx) rfl
  rw [← this]

/-- A record comes into the spool, and is sent. -/
def firstSent : List Op :=
  [.submit 0 bundle false, .submitNext, .submitNext, .submitNext, .take 0, .answer .sent false]

theorem step_take {r : Record}
    (hidle : s.alive = true ∧ s.working = true ∧ ¬ s.closed = true ∧ s.sending = none)
    (hentry : s.volume.entry (path spoolDir id .spool) = some r)
    (hdecode : C.decode r.bytes = some item) :
    step spoolDir C retain s (.take id) = some { s with sending := some (id, .trying item) } := by
  rw [step, if_pos hidle, hentry, Option.map_some, hdecode]

theorem mem_delivered_firstSent : (0, bundle) ∈ (run someDir C false first firstSent).delivered := by
  have htake : step someDir C false (run someDir C false first (firstSent.take 4)) (.take 0) =
      some { run someDir C false first (firstSent.take 4) with
        sending := some (0, .trying bundle) } :=
    step_take (r := ⟨C.encode 0 bundle, true⟩) ⟨rfl, rfl, nofun, rfl⟩ rfl (C.decode_encode 0 bundle)
  have hrun : run someDir C false first firstSent = Transition.run (step someDir C false)
      (Transition.next (step someDir C false) (run someDir C false first (firstSent.take 4))
        (.take 0)) [.answer .sent false] := rfl
  rw [hrun, Transition.next_of_some htake]
  exact List.mem_singleton.mpr rfl

theorem delivered_submitted_firstSent :
    (0, bundle) ∈ (run someDir plainSpool false first firstSent).items ∧
      ∀ item, (0, item) ∈ (run someDir plainSpool false first firstSent).items → item = bundle :=
  delivered_submitted (fun _ => .durable) firstSent (0, bundle) mem_delivered_firstSent

end DurableExporter

end Earshot.Exporting
