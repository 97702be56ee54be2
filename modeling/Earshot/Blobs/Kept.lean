import Earshot.Blobs.Local
/-!
# What every interleaving of writers keeps

Whatever the writers, sweeps and deletes of a store do, in any order, and
wherever an operation fails or the process or the power ends: what a key holds,
or may hold after a power loss, is all that one writer streamed to that key and
was asked to commit (`Inv.whole`); and the spool file of a writer that has not
yet replaced its key is there, whole and registered (`Kept.spooled`).
-/

namespace Earshot.Blobs

open Relational

namespace Phase

/-- The writer still needs its spool file. -/
def spools : Phase → Bool
  | .writing | .flushing | .makingParents _ | .syncingParent _ _ | .replacing => true
  | _ => false

/-- Its spool file was synced. -/
def flushed : Phase → Bool
  | .makingParents _ | .syncingParent _ _ | .replacing => true
  | _ => false

/-- A commit found its digest, and has not failed. -/
def publishing : Phase → Bool
  | .flushing | .makingParents _ | .syncingParent _ _ | .replacing | .syncingDestination
  | .syncingSpool | .releasing | .committed => true
  | _ => false

/-- Its destination's directory was synced. -/
def settled : Phase → Bool
  | .syncingSpool | .releasing | .committed => true
  | _ => false

/-- Its spool file's name is not yet released. -/
def registered : Phase → Bool
  | .committed | .aborted | .gone => false
  | _ => true

end Phase

/-- The writer was asked to commit what it streamed, and the digest it was
given, if any, is that of these bytes. -/
def Writer.Asked (sha256 : Bytes → Bytes) (w : Writer) : Prop :=
  ∃ expected, w.asked = some expected ∧ ∀ digest ∈ expected, digest = sha256 w.streamed

/-- What holds of a writer of the store. -/
structure Kept (sha256 : Bytes → Bytes) (s : LocalStore) (w : Writer) : Prop where
  sized : w.size = w.streamed.length
  unasked : w.phase = .writing → w.asked = none
  asked : w.phase.publishing = true → w.Asked sha256
  live : w.phase.registered = true → w.id ∈ s.live
  spooled : w.phase.spools = true →
    s.spool.find? w.id = some ⟨w.id, w.streamed, w.phase.flushed⟩
  settled : w.phase.settled = true → ∀ f, s.volume.entry w.key = some f → f.inode = w.id →
    s.volume.older w.key = []

/-- The file is all that a writer of its path streamed, and was asked for. -/
def Whole (sha256 : Bytes → Bytes) (s : LocalStore) (p : Path) (f : File) : Prop :=
  f.synced = true ∧ ∃ w, s.writers.find? f.inode = some w ∧ w.key = p ∧
    w.streamed = f.bytes ∧ w.Asked sha256

structure Inv (sha256 : Bytes → Bytes) (s : LocalStore) : Prop where
  kept : ∀ id w, s.writers.find? id = some w → Kept sha256 s w
  whole : ∀ p f, s.volume.Holds p f → Whole sha256 s p f
  live : ∀ id ∈ s.live, ∃ w, s.writers.find? id = some w ∧ w.phase.registered = true
  named : ∀ id f, s.spool.find? id = some f → ∃ w, s.writers.find? id = some w

variable {sha256 : Bytes → Bytes} {s s' : LocalStore} {w w' : Writer} {phase : Phase}

theorem Inv.empty : Inv sha256 LocalStore.empty where
  kept id w h := by cases h
  whole p f h := absurd h Volume.not_holds_empty
  live id h := by cases h
  named id f h := by cases h

theorem Phase.registered_of_spools (h : phase.spools = true) : phase.registered = true := by
  cases phase <;> first | rfl | cases h

/-! ## One writer moves -/

/-- Nothing is found at a path that was not there, apart from the writer's
file; and a path another's file is at is no less settled than it was. -/
structure Moved (v v' : Volume String File) (w : Writer) : Prop where
  holds : ∀ p f, v'.Holds p f → v.Holds p f ∨
    w.phase.publishing = true ∧ p = w.key ∧ f = ⟨w.id, w.streamed, true⟩
  entry : ∀ p f, v'.entry p = some f → f.inode ≠ w.id →
    v.entry p = some f ∧ (v.older p = [] → v'.older p = [])

namespace Moved

variable {v : Volume String File}

theorem refl : Moved v v w := ⟨fun _ _ h => Or.inl h, fun _ _ h _ => ⟨h, id⟩⟩

theorem mkdir {d : Path} : Moved v (v.mkdir d) w :=
  ⟨fun _ _ h => Or.inl (Volume.holds_mkdir.mp h), fun _ _ h _ => ⟨h, id⟩⟩

theorem sync {d : Path} : Moved v (v.sync d) w where
  holds _ _ h := Or.inl (Volume.holds_sync h)
  entry p _ h _ := by
    refine ⟨h, fun hold => ?_⟩
    unfold Volume.sync
    dsimp only
    split
    · rfl
    · exact hold

theorem write (hw : w.phase.publishing = true) :
    Moved v (v.write w.key (some ⟨w.id, w.streamed, true⟩)) w where
  holds p f h := (Volume.holds_write h).imp id fun ⟨hp, hf⟩ =>
    ⟨hw, hp, (Option.some.inj hf).symm⟩
  entry p f h hne := by
    have hp : p ≠ w.key := by
      rintro rfl
      unfold Volume.write at h
      simp only [Function.update_self, Option.some.injEq] at h
      exact hne (h ▸ rfl)
    unfold Volume.write at h ⊢
    simp only [Function.update_of_ne hp] at h ⊢
    exact ⟨h, id⟩

end Moved

/-- **The step rule**: one writer begins or moves on, what it streamed for a
commit being as it was, and the others' spool files are let be. -/
theorem Inv.move (h : Inv sha256 s)
    (hsame : ∀ x, s.writers.find? w.id = some x → x.Asked sha256 →
      w.key = x.key ∧ w.streamed = x.streamed ∧ w.asked = x.asked)
    (hwriters : s'.writers = s.writers.put w)
    (hspool : ∀ id, id ≠ w.id → s'.spool.find? id = s.spool.find? id)
    (hlive : ∀ id, id ≠ w.id → (id ∈ s'.live ↔ id ∈ s.live))
    (hregistered : w.id ∈ s'.live → w.phase.registered = true)
    (hmoved : Moved s.volume s'.volume w)
    (hkept : Kept sha256 s' w) : Inv sha256 s' := by
  have hfind (id : ℕ) : s'.writers.find? id =
      if w.id = id then some w else s.writers.find? id := by rw [hwriters, Table.find?_put]
  refine ⟨fun id x hx => ?_, fun p f hf => ?_, fun id hid => ?_, fun id f hf => ?_⟩
  · rw [hfind] at hx
    split at hx
    · obtain rfl := Option.some.inj hx
      exact hkept
    · next hne =>
      have hx' := h.kept id x hx
      have hid : x.id = id := Table.key_of_find? hx
      have hother : x.id ≠ w.id := fun heq => hne (heq ▸ hid)
      refine ⟨hx'.sized, hx'.unasked, hx'.asked, fun hreg => (hlive _ hother).mpr (hx'.live hreg),
        fun hspools => (hspool _ hother).trans (hx'.spooled hspools),
        fun hset f hf hinode => ?_⟩
      obtain ⟨hentry, hold⟩ := hmoved.entry _ f hf (hinode ▸ hother)
      exact hold (hx'.settled hset f hentry hinode)
  · -- a file found now was found before, or is the writer's own
    rcases hmoved.holds p f hf with hold | ⟨hpublishing, rfl, rfl⟩
    · obtain ⟨hsynced, x, hx, hkey, hbytes, hxasked⟩ := h.whole p f hold
      refine ⟨hsynced, ?_⟩
      by_cases hne : w.id = f.inode
      · obtain ⟨hk, hs, ha⟩ := hsame x (hne ▸ hx) hxasked
        refine ⟨w, by rw [hfind, if_pos hne], hk.trans hkey, hs.trans hbytes, ?_⟩
        unfold Writer.Asked at hxasked ⊢
        rw [ha, hs]
        exact hxasked
      · exact ⟨x, by rw [hfind, if_neg hne]; exact hx, hkey, hbytes, hxasked⟩
    · exact ⟨rfl, w, by rw [hfind, if_pos rfl], rfl, rfl, hkept.asked hpublishing⟩
  · by_cases hne : w.id = id
    · exact ⟨w, by rw [hfind, if_pos hne], hregistered (hne ▸ hid)⟩
    · obtain ⟨x, hx, hreg⟩ := h.live id ((hlive id (Ne.symm hne)).mp hid)
      exact ⟨x, by rw [hfind, if_neg hne]; exact hx, hreg⟩
  · rw [hfind]
    split
    · exact ⟨w, rfl⟩
    · next hne => exact h.named id f ((hspool id (Ne.symm hne)).symm.trans hf)

/-! ## The steps of a writer -/

/-- The step rule for a writer the store has, which goes on to `phase`. -/
theorem Inv.turn (h : Inv sha256 s) (hw : s.writers.find? w.id = some w)
    (hwriters : s'.writers = s.writers.put { w with phase := phase })
    (hspool : ∀ id, id ≠ w.id → s'.spool.find? id = s.spool.find? id)
    (hlive : ∀ id, id ≠ w.id → (id ∈ s'.live ↔ id ∈ s.live))
    (hregistered : w.id ∈ s'.live ↔ phase.registered = true)
    (hmoved : Moved s.volume s'.volume { w with phase := phase })
    (hwriting : phase ≠ .writing) (hasked : phase.publishing = true → w.Asked sha256)
    (hspools : phase.spools = true →
      s'.spool.find? w.id = some ⟨w.id, w.streamed, phase.flushed⟩)
    (hsettled : phase.settled = true → ∀ f, s'.volume.entry w.key = some f → f.inode = w.id →
      s'.volume.older w.key = []) : Inv sha256 s' := by
  refine h.move (fun x hx _ => ?_) hwriters hspool hlive hregistered.mp hmoved ?_
  · obtain rfl := Option.some.inj (hw.symm.trans hx)
    exact ⟨rfl, rfl, rfl⟩
  · exact ⟨(h.kept _ w hw).sized, fun hphase => absurd hphase hwriting, hasked, hregistered.mpr,
      hspools, hsettled⟩

/-- The step rule for a registered writer that stays so and leaves the spool and
the live writers as they were. -/
theorem Inv.stay (h : Inv sha256 s) (hw : s.writers.find? w.id = some w)
    (hnow : w.phase.registered = true) (hnext : phase.registered = true)
    (hwriters : s'.writers = s.writers.put { w with phase := phase })
    (hspool : s'.spool = s.spool) (hlive : s'.live = s.live)
    (hmoved : Moved s.volume s'.volume { w with phase := phase })
    (hwriting : phase ≠ .writing) (hasked : phase.publishing = true → w.Asked sha256)
    (hspools : phase.spools = true →
      s.spool.find? w.id = some ⟨w.id, w.streamed, phase.flushed⟩)
    (hsettled : phase.settled = true → ∀ f, s'.volume.entry w.key = some f → f.inode = w.id →
      s'.volume.older w.key = []) : Inv sha256 s' := by
  refine h.turn hw hwriters (fun _ _ => by rw [hspool]) (fun _ _ => by rw [hlive]) ?_ hmoved
    hwriting hasked (fun hs => by rw [hspool]; exact hspools hs) hsettled
  rw [hlive]
  exact iff_of_true ((h.kept _ w hw).live hnow) hnext

theorem find?_delete_spool {spool : Table File.inode} {id other : ℕ} (hne : other ≠ id) :
    (spool.delete fun f => decide (f.inode = id)).find? other = spool.find? other :=
  Table.find?_delete_of_ne fun _ _ hf => decide_eq_false (hf ▸ hne)

theorem mem_release {live : List ℕ} {id other : ℕ} (hne : other ≠ id) :
    other ∈ live.filter (· ≠ id) ↔ other ∈ live := by
  simp [hne]

theorem Inv.advance (h : Inv sha256 s) (hw : s.writers.find? w.id = some w)
    (hstep : s.advance w = some s') : Inv sha256 s' := by
  have hk := h.kept _ w hw
  have hreg (hnow : w.phase.registered = true) {phase : Phase} (hnext : phase.registered = true) :
      w.id ∈ s.live ↔ phase.registered = true :=
    iff_of_true (hk.live hnow) hnext
  unfold LocalStore.advance at hstep
  split at hstep
  · next hphase =>
    obtain rfl := Option.some.inj hstep
    refine h.turn hw rfl (fun id hid => ?_) (fun _ _ => Iff.rfl) (hreg (by rw [hphase]; rfl) rfl)
      .refl (by simp) (fun _ => hk.asked (by rw [hphase]; rfl)) (fun _ => ?_)
      (fun hset => by cases hset)
    · exact Table.find?_put.trans (if_neg (Ne.symm hid))
    · exact Table.find?_put.trans (if_pos rfl)
  · next hphase =>
    obtain rfl := Option.some.inj hstep
    have hspooled := hk.spooled (by rw [hphase]; rfl)
    rw [hphase] at hspooled
    exact h.stay hw (by rw [hphase]; rfl) rfl rfl rfl rfl .refl (by simp)
      (fun _ => hk.asked (by rw [hphase]; rfl)) (fun _ => hspooled) (fun hset => by cases hset)
  · next d missing hphase =>
    have hspooled := hk.spooled (by rw [hphase]; rfl)
    rw [hphase] at hspooled
    have hasked := hk.asked (by rw [hphase]; rfl)
    split at hstep
    · obtain rfl := Option.some.inj hstep
      exact h.stay hw (by rw [hphase]; rfl) rfl rfl rfl rfl .refl (by simp)
        (fun _ => hasked) (fun _ => hspooled) (fun hset => by cases hset)
    · split at hstep
      · obtain rfl := Option.some.inj hstep
        exact h.stay hw (by rw [hphase]; rfl) rfl rfl rfl rfl .mkdir (by simp)
          (fun _ => hasked) (fun _ => hspooled) (fun hset => by cases hset)
      · cases hstep
  · next d missing hphase =>
    have hspooled := hk.spooled (by rw [hphase]; rfl)
    rw [hphase] at hspooled
    obtain rfl := Option.some.inj hstep
    exact h.stay hw (by rw [hphase]; rfl) rfl rfl rfl rfl .sync (by simp)
      (fun _ => hk.asked (by rw [hphase]; rfl)) (fun _ => hspooled) (fun hset => by cases hset)
  · next hphase =>
    -- the spool file that replaces the key is the writer's, and synced
    have hfile := hk.spooled (by rw [hphase]; rfl)
    rw [hfile, hphase] at hstep
    obtain rfl := Option.some.inj hstep
    have hmoved : Moved s.volume (s.volume.write w.key (some ⟨w.id, w.streamed, true⟩))
        { w with phase := .syncingDestination } :=
      Moved.write (w := { w with phase := .syncingDestination }) rfl
    exact h.turn hw rfl (fun _ hid => find?_delete_spool hid) (fun _ _ => Iff.rfl)
      (hreg (by rw [hphase]; rfl) rfl) hmoved (by simp) (fun _ => hk.asked (by rw [hphase]; rfl))
      (fun hspools => by cases hspools)
      (fun hset => by cases hset)
  · next hphase =>
    obtain rfl := Option.some.inj hstep
    exact h.stay hw (by rw [hphase]; rfl) rfl rfl rfl rfl .sync (by simp)
      (fun _ => hk.asked (by rw [hphase]; rfl)) (fun hspools => by cases hspools)
      (fun _ _ _ _ => if_pos rfl)
  · next hphase =>
    obtain rfl := Option.some.inj hstep
    exact h.stay hw (by rw [hphase]; rfl) rfl rfl rfl rfl .refl (by simp)
      (fun _ => hk.asked (by rw [hphase]; rfl)) (fun hspools => by cases hspools)
      (fun _ => hk.settled (by rw [hphase]; rfl))
  · next hphase =>
    obtain rfl := Option.some.inj hstep
    exact h.turn hw rfl (fun _ _ => rfl) (fun _ hid => mem_release hid)
      (by simp [LocalStore.turn, Phase.registered]) .refl (by simp)
      (fun _ => hk.asked (by rw [hphase]; rfl)) (fun hspools => by cases hspools)
      (fun _ => hk.settled (by rw [hphase]; rfl))
  · next hphase =>
    obtain rfl := Option.some.inj hstep
    exact h.turn hw rfl (fun _ hid => find?_delete_spool hid) (fun _ _ => Iff.rfl)
      (hreg (by rw [hphase]; rfl) rfl)
      .refl (by simp) (fun hp => by cases hp) (fun hspools => by cases hspools)
      (fun hset => by cases hset)
  · next hphase =>
    obtain rfl := Option.some.inj hstep
    exact h.turn hw rfl (fun _ _ => rfl) (fun _ _ => Iff.rfl) (hreg (by rw [hphase]; rfl) rfl)
      .refl (by simp) (fun hp => by cases hp) (fun hspools => by cases hspools)
      (fun hset => by cases hset)
  · obtain rfl := Option.some.inj hstep
    exact h.turn hw rfl (fun _ _ => rfl) (fun _ hid => mem_release hid)
      (by simp [LocalStore.turn, Phase.registered]) .refl (by simp) (fun hp => by cases hp)
      (fun hspools => by cases hspools) (fun hset => by cases hset)
  · cases hstep
  · cases hstep
  · cases hstep
  · cases hstep

theorem Inv.fail (h : Inv sha256 s) (hw : s.writers.find? w.id = some w)
    (hstep : s.fail w = some s') : Inv sha256 s' := by
  have hto {phase : Phase} (hwriting : phase ≠ .writing) (hpub : phase.publishing = false)
      (hspools : phase.spools = false) (hset : phase.settled = false)
      (hreg : phase.registered = true) (hnow : w.phase.registered = true)
      (hs' : s' = s.turn w phase) : Inv sha256 s' := by
    subst hs'
    exact h.turn hw rfl (fun _ _ => rfl) (fun _ _ => Iff.rfl)
      (iff_of_true ((h.kept _ w hw).live hnow) hreg) .refl hwriting
      (fun hp => by rw [hpub] at hp; cases hp) (fun hp => by rw [hspools] at hp; cases hp)
      (fun hp => by rw [hset] at hp; cases hp)
  unfold LocalStore.fail at hstep
  split at hstep
  case h_10 | h_11 | h_12 | h_13 | h_14 => cases hstep
  all_goals
    next hphase =>
      exact hto (by simp) rfl rfl rfl rfl (by rw [hphase]; rfl) (Option.some.inj hstep).symm

/-- A new writer takes a name no file has. -/
theorem Inv.beginPut (h : Inv sha256 s) {id : ℕ} {key : Path}
    (hstep : LocalStore.step sha256 s (.beginPut id key) = some s') : Inv sha256 s' := by
  simp only [LocalStore.step] at hstep
  split at hstep
  · next hfree =>
    obtain rfl := Option.some.inj hstep
    refine h.move (w := ⟨id, key, [], 0, none, .writing⟩) (fun x hx _ => ?_) rfl
      (fun other hne => ?_) (fun other hne => ?_) (fun _ => rfl) .refl ?_
    · rw [hfree.1] at hx
      cases hx
    · exact Table.find?_put.trans (if_neg (Ne.symm hne))
    · exact ⟨fun hmem => (List.mem_cons.mp hmem).resolve_left hne, List.mem_cons_of_mem _⟩
    · exact ⟨rfl, fun _ => rfl, fun hp => (by cases hp),
        fun _ => List.mem_cons_self, fun _ => Table.find?_put.trans (if_pos rfl),
        fun hset => (by cases hset)⟩
  · cases hstep

theorem Inv.write (h : Inv sha256 s) {id : ℕ} {chunk : Bytes}
    (hstep : LocalStore.step sha256 s (.write id chunk) = some s') : Inv sha256 s' := by
  obtain ⟨w, rfl, hw, hstep⟩ := LocalStore.writer_of_bind hstep
  have hk := h.kept _ w hw
  split at hstep
  · next hphase =>
    obtain rfl := Option.some.inj hstep
    have hnot := hk.unasked hphase
    refine h.move (w := { w with streamed := w.streamed ++ chunk, size := w.size + chunk.length })
      (fun x hx hasked => ?_) rfl (fun other hne => ?_) (fun _ _ => Iff.rfl)
      (fun _ => by rw [hphase]; rfl) .refl ?_
    · -- an open writer was not asked for anything yet
      obtain rfl := Option.some.inj (hw.symm.trans hx)
      obtain ⟨expected, hexpected, -⟩ := hasked
      rw [hnot] at hexpected
      cases hexpected
    · exact Table.find?_put.trans (if_neg (Ne.symm hne))
    · refine ⟨?_, fun _ => hnot, fun hp => ?_, hk.live, fun _ => ?_, fun hset => ?_⟩
      · rw [List.length_append, hk.sized]
      · rw [hphase] at hp
        cases hp
      · rw [hphase]
        exact Table.find?_put.trans (if_pos rfl)
      · rw [hphase] at hset
        cases hset
  · cases hstep

theorem Inv.commit (h : Inv sha256 s) {id : ℕ} {expected : Option Bytes}
    (hstep : LocalStore.step sha256 s (.commit id expected) = some s') : Inv sha256 s' := by
  obtain ⟨w, rfl, hw, hstep⟩ := LocalStore.writer_of_bind hstep
  have hk := h.kept _ w hw
  split at hstep
  · next hphase =>
    have hspooled := hk.spooled (by rw [hphase]; rfl)
    rw [hphase] at hspooled
    split at hstep
    · next hdigest =>
      obtain rfl := Option.some.inj hstep
      refine h.move (w := { w with asked := some expected, phase := .flushing })
        (fun x hx hasked => ?_) rfl (fun _ _ => rfl) (fun _ _ => Iff.rfl) (fun _ => rfl) .refl ?_
      · obtain rfl := Option.some.inj (hw.symm.trans hx)
        obtain ⟨expected', hexpected, -⟩ := hasked
        rw [hk.unasked hphase] at hexpected
        cases hexpected
      · refine ⟨hk.sized, fun hp => (by cases hp), fun _ => ⟨expected, rfl, fun digest hd => ?_⟩,
          fun _ => hk.live (by rw [hphase]; rfl), fun _ => hspooled, fun hset => (by cases hset)⟩
        rw [Option.mem_def.mp hd] at hdigest
        exact of_decide_eq_true hdigest
    · exact h.fail hw (by rw [LocalStore.fail, hphase]; exact hstep)
  · cases hstep

/-! ## The steps no writer takes -/

/-- The step rule where no writer moves. -/
theorem Inv.rest (h : Inv sha256 s) (hwriters : s'.writers = s.writers) (hlive : s'.live = s.live)
    (hspool : ∀ id ∈ s.live, s'.spool.find? id = s.spool.find? id)
    (hnamed : ∀ id f, s'.spool.find? id = some f → s.spool.find? id = some f)
    (hholds : ∀ p f, s'.volume.Holds p f → s.volume.Holds p f)
    (hentry : ∀ p f, s'.volume.entry p = some f →
      s.volume.entry p = some f ∧ (s.volume.older p = [] → s'.volume.older p = [])) :
    Inv sha256 s' := by
  refine ⟨fun id w hw => ?_, fun p f hf => ?_, fun id hid => ?_, fun id f hf => ?_⟩
  · rw [hwriters] at hw
    have hk := h.kept id w hw
    refine ⟨hk.sized, hk.unasked, hk.asked, fun hreg => hlive ▸ hk.live hreg, fun hspools => ?_,
      fun hset f hf hinode => ?_⟩
    · exact (hspool _ (hk.live (Phase.registered_of_spools hspools))).trans (hk.spooled hspools)
    · obtain ⟨hold, holder⟩ := hentry _ f hf
      exact holder (hk.settled hset f hold hinode)
  · obtain ⟨hsynced, hfrom⟩ := h.whole p f (hholds p f hf)
    rw [Whole, hwriters]
    exact ⟨hsynced, hfrom⟩
  · rw [hlive] at hid
    rw [hwriters]
    exact h.live id hid
  · rw [hwriters]
    exact h.named id f (hnamed id f hf)

theorem Inv.unlink (h : Inv sha256 s) {key : Path}
    (hstep : LocalStore.step sha256 s (.unlink key) = some s') : Inv sha256 s' := by
  obtain ⟨f, -, rfl⟩ := Option.map_eq_some_iff.mp hstep
  refine h.rest rfl rfl (fun _ _ => rfl) (fun _ _ hf => hf) (fun p g hg => ?_) fun p g hg => ?_
  · rcases Volume.holds_write hg with hold | ⟨-, hnone⟩
    · exact hold
    · cases hnone
  · have hp : p ≠ key := by
      rintro rfl
      simp [Volume.write] at hg
    unfold Volume.write at hg ⊢
    simp only [Function.update_of_ne hp] at hg ⊢
    exact ⟨hg, id⟩

/-- What ends with the process: the writers under way, and what they hold. -/
theorem Inv.ended (h : Inv sha256 s) (hwriters : s'.writers = s.writers.patch
      LocalStore.ended LocalStore.ended_id) (hlive : s'.live = [])
    (hnamed : ∀ id f, s'.spool.find? id = some f → ∃ w, s.writers.find? id = some w)
    (hholds : ∀ p f, s'.volume.Holds p f → s.volume.Holds p f)
    (hentry : ∀ p f, s'.volume.entry p = some f →
      s'.volume.older p = [] ∨ s.volume.entry p = some f ∧ s'.volume.older p = s.volume.older p) :
    Inv sha256 s' := by
  refine ⟨fun id w' hw' => ?_, fun p f hf => ?_, fun id hid => ?_, fun id f hf => ?_⟩
  · rw [hwriters, Table.find?_patch] at hw'
    obtain ⟨w, hw, rfl⟩ := Option.map_eq_some_iff.mp hw'
    have hk := h.kept id w hw
    have hset (hset : w.phase.settled = true) (f : File) (hf : s'.volume.entry w.key = some f)
        (hinode : f.inode = w.id) : s'.volume.older w.key = [] := by
      rcases hentry _ f hf with hnil | ⟨hold, hsame⟩
      · exact hnil
      · exact hsame.trans (hk.settled hset f hold hinode)
    unfold LocalStore.ended
    split
    · next hphase =>
      exact ⟨hk.sized, hk.unasked, hk.asked, fun hp => (by rw [hphase] at hp; cases hp),
        fun hp => (by rw [hphase] at hp; cases hp), hset⟩
    · next hphase =>
      exact ⟨hk.sized, hk.unasked, hk.asked, fun hp => (by rw [hphase] at hp; cases hp),
        fun hp => (by rw [hphase] at hp; cases hp), hset⟩
    · exact ⟨hk.sized, fun hp => (by cases hp), fun hp => (by cases hp), fun hp => (by cases hp),
        fun hp => (by cases hp), fun hp => (by cases hp)⟩
  · obtain ⟨hsynced, w, hw, hkey, hbytes, hasked⟩ := h.whole p f (hholds p f hf)
    refine ⟨hsynced, LocalStore.ended w, ?_, ?_⟩
    · rw [hwriters, Table.find?_patch, hw]
      rfl
    · unfold LocalStore.ended
      split <;> exact ⟨hkey, hbytes, hasked⟩
  · rw [hlive] at hid
    cases hid
  · obtain ⟨w, hw⟩ := hnamed id f hf
    exact ⟨LocalStore.ended w, by rw [hwriters, Table.find?_patch, hw]; rfl⟩

/-- **Every step keeps the invariant.** -/
theorem Inv.step (h : Inv sha256 s) {op : LocalOp}
    (hstep : LocalStore.step sha256 s op = some s') : Inv sha256 s' := by
  cases op with
  | beginPut id key => exact h.beginPut hstep
  | write id chunk => exact h.write hstep
  | commit id expected => exact h.commit hstep
  | abort id =>
    obtain ⟨w, rfl, hw, hstep⟩ := LocalStore.writer_of_bind hstep
    split at hstep
    · next hphase => exact h.fail hw (by rw [LocalStore.fail, hphase]; exact hstep)
    · cases hstep
  | advance id =>
    obtain ⟨w, rfl, hw, hstep⟩ := LocalStore.writer_of_bind hstep
    exact h.advance hw hstep
  | fail id =>
    obtain ⟨w, rfl, hw, hstep⟩ := LocalStore.writer_of_bind hstep
    exact h.fail hw hstep
  | unlink key => exact h.unlink hstep
  | syncDelete key =>
    simp only [LocalStore.step] at hstep
    split at hstep
    · obtain rfl := Option.some.inj hstep
      exact h.rest rfl rfl (fun _ _ => rfl) (fun _ _ hf => hf) (fun _ _ => Volume.holds_sync)
        fun p f hf => ⟨hf, fun hold => by
          unfold Volume.sync
          dsimp only
          split
          · rfl
          · exact hold⟩
    · cases hstep
  | sweep =>
    obtain rfl := Option.some.inj hstep
    exact h.rest rfl rfl (fun _ _ => rfl) (fun _ _ hf => hf) (fun _ _ hf => hf)
      fun _ _ hf => ⟨hf, id⟩
  | sweepNext =>
    simp only [LocalStore.step] at hstep
    split at hstep
    · cases hstep
    · split at hstep
      · obtain rfl := Option.some.inj hstep
        exact h.rest rfl rfl (fun _ _ => rfl) (fun _ _ hf => hf) (fun _ _ hf => hf)
          fun _ _ hf => ⟨hf, id⟩
      · next hdead =>
        obtain rfl := Option.some.inj hstep
        refine h.rest rfl rfl (fun id hid => find?_delete_spool ?_) (fun id f hf => ?_)
          (fun _ _ hf => hf) fun _ _ hf => ⟨hf, fun hold => hold⟩
        · rintro rfl
          exact hdead hid
        · rw [Table.find?_delete] at hf
          exact (Option.filter_eq_some_iff.mp hf).1
  | kill =>
    obtain rfl := Option.some.inj hstep
    exact h.ended rfl rfl h.named (fun _ _ hf => hf) fun _ _ hf => Or.inr ⟨hf, rfl⟩
  | powerLoss pick kept torn left =>
    obtain rfl := Option.some.inj hstep
    refine h.ended rfl rfl (fun id f hf => ?_) (fun p f hf => ?_) fun _ _ _ => Or.inl rfl
    · obtain rfl := Table.key_of_find? hf
      rcases Table.mem_or_mem_of_mem_insertAll _ _ (Table.mem_of_find? hf) with hnone | hleft
      · exact absurd hnone Table.not_mem_empty
      · obtain ⟨name, hname, rfl⟩ := List.mem_map.mp hleft
        exact Option.isSome_iff_exists.mp (List.mem_filter.mp hname).2
    -- what comes back was synced, so it is whole
    obtain ⟨g, hg, rfl⟩ := Volume.holds_powerLoss hf
    rwa [LocalStore.faded, if_pos (h.whole p g hg).1]

theorem Inv.run (ops : List LocalOp) : Inv sha256 (LocalStore.run sha256 .empty ops) :=
  Transition.run_invariant (fun _ _ _ h hstep => h.step hstep) ops _ .empty

end Earshot.Blobs
