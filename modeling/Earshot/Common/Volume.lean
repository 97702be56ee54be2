import Mathlib.Data.List.Basic
import Mathlib.Logic.Function.Basic
/-!
# Files whose directory entries reach the disk late

A path is the names on it, innermost first, so its directory is its tail. A
change to a directory is seen at once and reaches the disk when the directory
is synced; until then a power loss may bring back what was there before. A
directory is an entry of the one above it, and one that is lost takes with it
what is below.

`Synced` is a file whose entry is on the disk, `Settled` one of which every
directory above is too, so no power loss can change it. Whatever does not write
to its path keeps it so.
-/

/-- A directory: whether its own entry has reached the disk. -/
inductive DirState where
  | absent
  | fresh
  | durable
  deriving DecidableEq

/-- `older` is what each path held since its directory was last synced, and
`entry` what it holds. -/
structure Volume (ν β : Type*) where
  entry : List ν → Option β
  older : List ν → List (Option β)
  dir : List ν → DirState

namespace Volume

variable {ν β : Type*}

def empty : Volume ν β :=
  ⟨fun _ => none, fun _ => [], fun d => if d = [] then .durable else .absent⟩

/-- The top directory is always there. -/
def isDir (v : Volume ν β) (d : List ν) : Bool := d.isEmpty || v.dir d != .absent

/-- The directory and every one above it are on the disk. -/
def Anchored (v : Volume ν β) : List ν → Prop
  | [] => True
  | n :: d => v.dir (n :: d) = .durable ∧ v.Anchored d

instance Anchored.decidable (v : Volume ν β) : ∀ d, Decidable (v.Anchored d)
  | [] => .isTrue trivial
  | _ :: d => @instDecidableAnd _ _ _ (Anchored.decidable v d)

/-- A power loss that spares the fresh directories of `kept` leaves this one. -/
def stands (v : Volume ν β) (kept : List ν → Bool) : List ν → Bool
  | [] => true
  | n :: d =>
    (match v.dir (n :: d) with
      | .absent => false
      | .fresh => kept (n :: d)
      | .durable => true) && v.stands kept d

section Writing

variable [DecidableEq ν]

/-- The entry is made anew; the old one may come back. -/
def write (v : Volume ν β) (p : List ν) (e : Option β) : Volume ν β :=
  { v with
    entry := Function.update v.entry p e
    older := Function.update v.older p (v.older p ++ [v.entry p]) }

def mkdir (v : Volume ν β) (d : List ν) : Volume ν β :=
  { v with dir := Function.update v.dir d .fresh }

/-- The directory is made, and those above it that are missing. -/
def mkdirs (v : Volume ν β) : List ν → Volume ν β
  | [] => v
  | n :: d => if (v.mkdirs d).isDir (n :: d) then v.mkdirs d else (v.mkdirs d).mkdir (n :: d)

/-- What the directory holds reaches the disk. -/
def sync (v : Volume ν β) (d : List ν) : Volume ν β :=
  { v with
    older := fun p => if p.tail = d then [] else v.older p
    dir := fun e => if e.tail = d ∧ v.dir e = .fresh then .durable else v.dir e }

end Writing

/-- A power loss: each path falls back to what `pick` says it held, as `fade`
leaves it, unless a directory above it is lost. -/
def powerLoss (v : Volume ν β) (pick : List ν → ℕ) (kept : List ν → Bool) (fade : β → β) :
    Volume ν β where
  entry p := if v.stands kept p.tail then ((v.older p).getD (pick p) (v.entry p)).map fade else none
  older _ := []
  dir d := if v.stands kept d then .durable else .absent

/-! ## What may be found -/

/-- The path holds the file now, or may hold it after a power loss. -/
def Holds (v : Volume ν β) (p : List ν) (b : β) : Prop := v.entry p = some b ∨ some b ∈ v.older p

variable {v : Volume ν β} {p q d : List ν} {b : β} {e : Option β}

theorem not_holds_empty : ¬ (empty : Volume ν β).Holds p b := by
  rintro (h | h) <;> cases h

theorem holds_write [DecidableEq ν] (h : (v.write p e).Holds q b) :
    v.Holds q b ∨ q = p ∧ e = some b := by
  unfold Holds write at *
  by_cases hq : q = p
  · subst hq
    simp only [Function.update_self, List.mem_append, List.mem_singleton] at h
    rcases h with h | h | h
    · exact Or.inr ⟨rfl, h⟩
    · exact Or.inl (Or.inr h)
    · exact Or.inl (Or.inl h.symm)
  · simp only [Function.update_of_ne hq] at h
    exact Or.inl h

theorem holds_mkdir [DecidableEq ν] : (v.mkdir d).Holds p b ↔ v.Holds p b := Iff.rfl

/-- Making directories moves no file. -/
theorem mkdirs_entry [DecidableEq ν] :
    (v.mkdirs d).entry = v.entry ∧ (v.mkdirs d).older = v.older := by
  induction d with
  | nil => exact ⟨rfl, rfl⟩
  | cons n d ih =>
    rw [mkdirs]
    split
    · exact ih
    · exact ih

theorem holds_mkdirs [DecidableEq ν] : (v.mkdirs d).Holds p b ↔ v.Holds p b := by
  rw [Holds, Holds, mkdirs_entry.1, mkdirs_entry.2]

theorem holds_sync [DecidableEq ν] (h : (v.sync d).Holds p b) : v.Holds p b := by
  refine h.imp id fun hold => ?_
  unfold sync at hold
  dsimp only at hold
  split at hold
  · cases hold
  · exact hold

theorem holds_powerLoss {pick : List ν → ℕ} {kept : List ν → Bool} {fade : β → β}
    (h : (v.powerLoss pick kept fade).Holds p b) : ∃ b', v.Holds p b' ∧ fade b' = b := by
  rcases h with h | h
  · unfold powerLoss at h
    dsimp only at h
    split at h
    · obtain ⟨b', hb', hfade⟩ := Option.map_eq_some_iff.mp h
      refine ⟨b', ?_, hfade⟩
      rw [List.getD_eq_getElem?_getD] at hb'
      cases hold : (v.older p)[pick p]? with
      | none =>
        rw [hold] at hb'
        exact Or.inl hb'
      | some old =>
        rw [hold] at hb'
        exact Or.inr (hb' ▸ List.mem_of_getElem? hold)
    · cases h
  · cases h

/-! ## What no power loss changes -/

/-- The path holds the file and nothing else: only the loss of a directory above
takes it. -/
structure Synced (v : Volume ν β) (p : List ν) (e : Option β) : Prop where
  entry : v.entry p = e
  older : v.older p = []

/-- The path holds the file and nothing else may be found there. -/
structure Settled (v : Volume ν β) (p : List ν) (e : Option β) : Prop
    extends v.Synced p e where
  anchored : v.Anchored p.tail

theorem anchored_mono {v' : Volume ν β} (h : ∀ d, v.dir d = .durable → v'.dir d = .durable) :
    ∀ {d : List ν}, v.Anchored d → v'.Anchored d
  | [], _ => trivial
  | _ :: _, ⟨hdir, habove⟩ => ⟨h _ hdir, anchored_mono h habove⟩

theorem stands_of_anchored {kept : List ν → Bool} :
    ∀ {d : List ν}, v.Anchored d → v.stands kept d = true
  | [], _ => rfl
  | _ :: _, ⟨hdir, habove⟩ => by rw [stands, hdir, stands_of_anchored habove]; rfl

namespace Synced

theorem write [DecidableEq ν] {e' : Option β} (h : v.Synced p e) (hp : p ≠ q) :
    (v.write q e').Synced p e :=
  ⟨(Function.update_of_ne hp _ _).trans h.entry, (Function.update_of_ne hp _ _).trans h.older⟩

theorem sync [DecidableEq ν] (h : v.Synced p e) : (v.sync d).Synced p e where
  entry := h.entry
  older := by
    unfold Volume.sync
    dsimp only
    split
    · rfl
    · exact h.older

/-- A power loss that spares the directories above leaves it. -/
theorem powerLoss {pick : List ν → ℕ} {kept : List ν → Bool} {fade : β → β}
    (h : v.Synced p e) (hstands : v.stands kept p.tail = true) :
    (v.powerLoss pick kept fade).Synced p (e.map fade) where
  entry := by
    unfold Volume.powerLoss
    dsimp only
    rw [if_pos hstands, h.older, List.getD_nil, h.entry]
  older := rfl

end Synced

/-- Syncing its directory leaves a path with nothing but what it holds. -/
theorem synced_sync [DecidableEq ν] : (v.sync p.tail).Synced p (v.entry p) := ⟨rfl, if_pos rfl⟩

namespace Settled

theorem write [DecidableEq ν] {e' : Option β} (h : v.Settled p e) (hp : p ≠ q) :
    (v.write q e').Settled p e where
  toSynced := h.toSynced.write hp
  anchored := by
    refine anchored_mono (fun d hd => ?_) h.anchored
    exact hd

theorem mkdir [DecidableEq ν] (h : v.Settled p e) (hd : v.isDir d = false) :
    (v.mkdir d).Settled p e where
  entry := h.entry
  older := h.older
  anchored := by
    refine anchored_mono (fun e he => ?_) h.anchored
    have hne : e ≠ d := by
      rintro rfl
      simp [isDir, he] at hd
    exact (Function.update_of_ne hne _ _).trans he

theorem sync [DecidableEq ν] (h : v.Settled p e) : (v.sync d).Settled p e where
  toSynced := h.toSynced.sync
  anchored := by
    refine anchored_mono (fun e he => ?_) h.anchored
    unfold Volume.sync
    dsimp only
    split
    · rfl
    · exact he

/-- **A power loss leaves it.** -/
theorem powerLoss {pick : List ν → ℕ} {kept : List ν → Bool} {fade : β → β}
    (h : v.Settled p e) : (v.powerLoss pick kept fade).Settled p (e.map fade) where
  toSynced := h.toSynced.powerLoss (stands_of_anchored h.anchored)
  anchored := by
    have hall : ∀ {d : List ν}, v.Anchored d → (v.powerLoss pick kept fade).Anchored d := by
      intro d
      induction d with
      | nil => exact fun _ => trivial
      | cons n d ih =>
        intro hd
        exact ⟨if_pos (stands_of_anchored hd), ih hd.2⟩
    exact hall h.anchored

end Settled

end Volume
