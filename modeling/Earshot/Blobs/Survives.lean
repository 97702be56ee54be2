import Earshot.Blobs.Kept
/-!
# What a committed blob outlives, and what a sweep removes

A blob whose commit returned is found until its key is replaced or deleted,
through any kill or power loss (`committed_survives`), if the directories
above it are on the disk. They need not be: `_make_parents` lets a directory
that another writer has just made pass, whether or not it was synced.
-/

namespace Earshot.Blobs

open Relational

variable {sha256 : Bytes → Bytes} {s s' : LocalStore}

namespace LocalStore

/-- **What a reader finds is whole**: after any run, what a key holds is all
that one of its writers streamed, synced, and was asked to commit with no other
digest. -/
theorem found_whole (ops : List LocalOp) {key : Path} {f : File}
    (h : (run sha256 .empty ops).volume.entry key = some f) :
    f.synced = true ∧ ∃ w ∈ (run sha256 .empty ops).writers, w.id = f.inode ∧ w.key = key ∧
      f.bytes = w.streamed ∧ f.bytes.length = w.size ∧
      ∃ expected, w.asked = some expected ∧ ∀ digest ∈ expected, digest = sha256 f.bytes := by
  obtain ⟨hsynced, w, hw, hkey, hbytes, hasked⟩ := (Inv.run ops).whole key f (Or.inl h)
  refine ⟨hsynced, w, Table.mem_of_find? hw, Table.key_of_find? hw, hkey, hbytes.symm, ?_, ?_⟩
  · rw [← hbytes, ((Inv.run ops).kept _ w hw).sized]
  · rw [← hbytes]
    exact hasked

/-- One writer's whole put of `recordings/call`. -/
def firstPut : List LocalOp :=
  [.beginPut 0 ["call", "recordings"], .write 0 [1, 2], .commit 0 none] ++
    List.replicate 8 (.advance 0)

theorem found_whole_firstPut :
    File.synced ⟨0, [1, 2], true⟩ = true ∧ ∃ w ∈ (run id .empty firstPut).writers, w.id = 0 ∧
      w.key = ["call", "recordings"] ∧ [1, 2] = w.streamed ∧ 2 = w.size ∧
      ∃ expected, w.asked = some expected ∧ ∀ digest ∈ expected, digest = [1, 2] :=
  @found_whole id firstPut ["call", "recordings"] ⟨0, [1, 2], true⟩ (by decide)

/-! ## Surviving -/

/-- The step writes to the key: an `unlink` of it, or the `os.replace` of one
of its writers. -/
def WritesTo (key : Path) (s : LocalStore) (op : LocalOp) : Prop :=
  op = .unlink key ∨
    ∃ w ∈ s.writers, op = .advance w.id ∧ w.key = key ∧ w.phase = .replacing

theorem settled_turn {w : Writer} {phase : Phase} {key : Path} {e : Option File}
    (h : s.volume.Settled key e) : (s.turn w phase).volume.Settled key e := h

theorem settled_advance {w : Writer} {key : Path} {e : Option File}
    (h : s.volume.Settled key e) (hother : w.key = key → w.phase ≠ .replacing)
    (hstep : s.advance w = some s') : s'.volume.Settled key e := by
  unfold advance at hstep
  split at hstep
  case h_3 =>
    split at hstep
    · obtain rfl := Option.some.inj hstep
      exact settled_turn h
    · next hdir =>
      split at hstep
      · obtain rfl := Option.some.inj hstep
        exact h.mkdir (Bool.eq_false_iff.mpr hdir)
      · cases hstep
  case h_5 hphase =>
    obtain ⟨f, -, rfl⟩ := Option.map_eq_some_iff.mp hstep
    exact h.write fun hkey => hother hkey.symm hphase
  case h_4 | h_6 =>
    obtain rfl := Option.some.inj hstep
    exact h.sync
  case h_12 | h_13 | h_14 | h_15 => cases hstep
  all_goals
    obtain rfl := Option.some.inj hstep
    exact settled_turn h

theorem fail_volume {w : Writer} (hstep : s.fail w = some s') : s'.volume = s.volume := by
  unfold fail at hstep
  split at hstep
  case h_10 | h_11 | h_12 | h_13 | h_14 => cases hstep
  all_goals
    obtain rfl := Option.some.inj hstep
    rfl

/-- A step that does not write to a settled key leaves it settled. -/
theorem settled_step {key : Path} {f : File} (h : s.volume.Settled key (some f))
    (hsynced : f.synced = true) {op : LocalOp} (hop : ¬ WritesTo key s op)
    (hstep : step sha256 s op = some s') : s'.volume.Settled key (some f) := by
  cases op with
  | beginPut id key =>
    simp only [step] at hstep
    split at hstep
    · obtain rfl := Option.some.inj hstep
      exact h
    · cases hstep
  | write id chunk =>
    simp only [step, Option.bind_eq_some_iff] at hstep
    obtain ⟨w, -, hstep⟩ := hstep
    split at hstep
    · obtain rfl := Option.some.inj hstep
      exact h
    · cases hstep
  | commit id expected =>
    simp only [step, Option.bind_eq_some_iff] at hstep
    obtain ⟨w, -, hstep⟩ := hstep
    split at hstep
    · split at hstep
      all_goals
        obtain rfl := Option.some.inj hstep
        exact settled_turn h
    · cases hstep
  | abort id =>
    simp only [step, Option.bind_eq_some_iff] at hstep
    obtain ⟨w, -, hstep⟩ := hstep
    split at hstep
    · obtain rfl := Option.some.inj hstep
      exact settled_turn h
    · cases hstep
  | advance id =>
    obtain ⟨w, rfl, hw, hstep⟩ := LocalStore.writer_of_bind hstep
    refine settled_advance h (fun hkey hphase => hop (Or.inr ?_)) hstep
    exact ⟨w, Table.mem_of_find? hw, rfl, hkey, hphase⟩
  | fail id =>
    simp only [step, Option.bind_eq_some_iff] at hstep
    obtain ⟨w, -, hstep⟩ := hstep
    rw [fail_volume hstep]
    exact h
  | unlink other =>
    obtain ⟨g, -, rfl⟩ := Option.map_eq_some_iff.mp hstep
    exact h.write fun heq => hop (Or.inl (heq ▸ rfl))
  | syncDelete other =>
    simp only [step] at hstep
    split at hstep
    · obtain rfl := Option.some.inj hstep
      exact h.sync
    · cases hstep
  | sweep =>
    obtain rfl := Option.some.inj hstep
    exact h
  | sweepNext =>
    simp only [step] at hstep
    split at hstep
    · cases hstep
    · split at hstep
      all_goals
        obtain rfl := Option.some.inj hstep
        exact h
  | kill =>
    obtain rfl := Option.some.inj hstep
    exact h
  | powerLoss pick kept torn left =>
    obtain rfl := Option.some.inj hstep
    have hlost : (s.volume.powerLoss pick kept (faded torn)).Settled key
        ((some f).map (faded torn)) := h.powerLoss
    rwa [Option.map_some, faded, if_pos hsynced] at hlost

/-- **A committed blob survives**: where a writer's commit has returned, the
key still holds its file, and every directory above is on the disk, the key
holds it until something writes to the key, whatever else runs and however
often the process or the power ends. -/
theorem committed_survives (ops later : List LocalOp) {w : Writer} {f : File}
    (hw : w ∈ (run sha256 .empty ops).writers) (hcommitted : w.phase = .committed)
    (hentry : (run sha256 .empty ops).volume.entry w.key = some f) (hinode : f.inode = w.id)
    (hanchored : (run sha256 .empty ops).volume.Anchored w.key.tail)
    (hlater : Transition.Guarded (step sha256) (fun s op => ¬ WritesTo w.key s op)
      (run sha256 .empty ops) later) :
    (run sha256 .empty (ops ++ later)).volume.entry w.key = some ⟨w.id, w.streamed, true⟩ := by
  have hinv : Inv sha256 (run sha256 .empty ops) := Inv.run ops
  have hfind := Table.find?_of_mem hw
  obtain ⟨hsynced, x, hx, -, hbytes, -⟩ := hinv.whole _ f (Or.inl hentry)
  obtain rfl : w = x := Option.some.inj (hfind.symm.trans (hinode ▸ hx))
  have hfile : f = ⟨w.id, w.streamed, true⟩ := by
    cases f
    simp_all
  have hsettled : (run sha256 .empty ops).volume.Settled w.key (some f) :=
    ⟨⟨hentry, (hinv.kept _ w hfind).settled (by rw [hcommitted]; rfl) f hentry hinode⟩, hanchored⟩
  rw [run, Transition.run_append, ← hfile]
  exact (Transition.Guarded.induction
    (fun s op s' hop hs hstep => settled_step hs hsynced hop hstep) later _ hlater hsettled).entry

theorem committed_survives_firstPut :
    (run id .empty (firstPut ++ [.powerLoss (fun _ => 0) (fun _ => false) File.bytes []])).volume.entry
      ["call", "recordings"] = some ⟨0, [1, 2], true⟩ :=
  committed_survives (w := ⟨0, ["call", "recordings"], [1, 2], 2, some none, .committed⟩)
    (f := ⟨0, [1, 2], true⟩) firstPut _ (by exact List.mem_singleton.mpr rfl) rfl (by decide) rfl
    (by decide) ⟨(by rintro (h | ⟨_, _, h, _⟩) <;> cases h), trivial⟩

-- The directory made by a writer that a kill stopped is let pass unsynced, and
-- the power loss takes the next writer's committed blob with it.
example : (run id .empty ([.beginPut 1 ["call", "recordings"], .commit 1 none, .advance 1,
    .advance 1, .kill] ++ firstPut ++
      [.powerLoss (fun _ => 0) (fun _ => false) File.bytes []])).volume.entry
    ["call", "recordings"] = none := by decide

/-! ## Sweeping -/

/-- The writer is done with its spool file, and the sweep under way has
removed it or will come to it. -/
def Dead (n : ℕ) (s : LocalStore) : Prop :=
  (∃ w, s.writers.find? n = some w ∧ w.phase.registered = false) ∧
    (s.spool.find? n = none ∨ n ∈ s.sweeping)

/-- A writer that begins or moves on is not the dead one. -/
theorem dead_put {n : ℕ} {w : Writer}
    (hreg : ∀ x, s.writers.find? w.id = some x → x.phase.registered = true) (h : Dead n s)
    (hwriters : s'.writers = s.writers.put w)
    (hspool : ∀ id, id ≠ w.id → s'.spool.find? id = s.spool.find? id)
    (hsweeping : s'.sweeping = s.sweeping) : Dead n s' := by
  obtain ⟨⟨x, hx, hdead⟩, hgone⟩ := h
  have hne : w.id ≠ n := by
    rintro rfl
    rw [hreg x hx] at hdead
    cases hdead
  refine ⟨⟨x, ?_, hdead⟩, ?_⟩
  · rw [hwriters, Table.find?_put, if_neg hne]
    exact hx
  · rw [hspool n (Ne.symm hne), hsweeping]
    exact hgone

theorem dead_turn {n : ℕ} {w : Writer} {phase : Phase} (hw : s.writers.find? w.id = some w)
    (hreg : w.phase.registered = true) (h : Dead n s)
    (hwriters : s'.writers = s.writers.put { w with phase := phase })
    (hspool : ∀ id, id ≠ w.id → s'.spool.find? id = s.spool.find? id)
    (hsweeping : s'.sweeping = s.sweeping) : Dead n s' :=
  dead_put (w := { w with phase := phase })
    (fun _ hx => Option.some.inj (hw.symm.trans hx) ▸ hreg) h hwriters hspool hsweeping

theorem dead_advance {n : ℕ} {w : Writer} (hw : s.writers.find? w.id = some w) (h : Dead n s)
    (hstep : s.advance w = some s') : Dead n s' := by
  unfold advance at hstep
  split at hstep
  case h_1 hphase =>
    obtain rfl := Option.some.inj hstep
    exact dead_turn hw (by rw [hphase]; rfl) h rfl
      (fun id hid => Table.find?_put.trans (if_neg (Ne.symm hid))) rfl
  case h_3 hphase =>
    split at hstep
    · obtain rfl := Option.some.inj hstep
      exact dead_turn hw (by rw [hphase]; rfl) h rfl (fun _ _ => rfl) rfl
    · split at hstep
      · obtain rfl := Option.some.inj hstep
        exact dead_turn hw (by rw [hphase]; rfl) h rfl (fun _ _ => rfl) rfl
      · cases hstep
  case h_5 hphase =>
    obtain ⟨f, -, rfl⟩ := Option.map_eq_some_iff.mp hstep
    exact dead_turn hw (by rw [hphase]; rfl) h rfl (fun _ hid => find?_delete_spool hid) rfl
  case h_9 hphase =>
    obtain rfl := Option.some.inj hstep
    exact dead_turn hw (by rw [hphase]; rfl) h rfl (fun _ hid => find?_delete_spool hid) rfl
  case h_12 | h_13 | h_14 | h_15 => cases hstep
  all_goals
    next hphase =>
      obtain rfl := Option.some.inj hstep
      exact dead_turn hw (by rw [hphase]; rfl) h rfl (fun _ _ => rfl) rfl

theorem dead_fail {n : ℕ} {w : Writer} (hw : s.writers.find? w.id = some w) (h : Dead n s)
    (hstep : s.fail w = some s') : Dead n s' := by
  unfold fail at hstep
  split at hstep
  case h_10 | h_11 | h_12 | h_13 | h_14 => cases hstep
  all_goals
    next hphase =>
      obtain rfl := Option.some.inj hstep
      exact dead_turn hw (by rw [hphase]; rfl) h rfl (fun _ _ => rfl) rfl

theorem dead_step {n : ℕ} (hinv : Inv sha256 s) (h : Dead n s) {op : LocalOp}
    (hkill : op ≠ .kill) (hloss : ∀ pick kept torn left, op ≠ .powerLoss pick kept torn left)
    (hstep : step sha256 s op = some s') : Dead n s' := by
  cases op with
  | beginPut id key =>
    simp only [step] at hstep
    split at hstep
    · next hfree =>
      obtain rfl := Option.some.inj hstep
      exact dead_put (w := ⟨id, key, [], 0, none, .writing⟩)
        (fun x hx => by rw [hfree.1] at hx; cases hx) h rfl
        (fun _ hid => Table.find?_put.trans (if_neg (Ne.symm hid))) rfl
    · cases hstep
  | write id chunk =>
    obtain ⟨w, rfl, hw, hstep⟩ := LocalStore.writer_of_bind hstep
    split at hstep
    · next hphase =>
      obtain rfl := Option.some.inj hstep
      exact dead_put
        (w := { w with streamed := w.streamed ++ chunk, size := w.size + chunk.length })
        (fun _ hx => Option.some.inj (hw.symm.trans hx) ▸ hphase ▸ rfl) h rfl
        (fun _ hid => Table.find?_put.trans (if_neg (Ne.symm hid))) rfl
    · cases hstep
  | commit id expected =>
    obtain ⟨w, rfl, hw, hstep⟩ := LocalStore.writer_of_bind hstep
    split at hstep
    · next hphase =>
      split at hstep
      · obtain rfl := Option.some.inj hstep
        exact dead_put (w := { w with asked := some expected, phase := .flushing })
          (fun _ hx => Option.some.inj (hw.symm.trans hx) ▸ hphase ▸ rfl) h rfl (fun _ _ => rfl) rfl
      · exact dead_fail hw h (by rw [fail, hphase]; exact hstep)
    · cases hstep
  | abort id =>
    obtain ⟨w, rfl, hw, hstep⟩ := LocalStore.writer_of_bind hstep
    split at hstep
    · next hphase => exact dead_fail hw h (by rw [fail, hphase]; exact hstep)
    · cases hstep
  | advance id =>
    obtain ⟨w, rfl, hw, hstep⟩ := LocalStore.writer_of_bind hstep
    exact dead_advance hw h hstep
  | fail id =>
    obtain ⟨w, rfl, hw, hstep⟩ := LocalStore.writer_of_bind hstep
    exact dead_fail hw h hstep
  | unlink key =>
    obtain ⟨g, -, rfl⟩ := Option.map_eq_some_iff.mp hstep
    exact h
  | syncDelete key =>
    simp only [step] at hstep
    split at hstep
    · obtain rfl := Option.some.inj hstep
      exact h
    · cases hstep
  | sweep =>
    obtain rfl := Option.some.inj hstep
    exact ⟨h.1, h.2.imp id fun hmem => List.mem_append_left _ hmem⟩
  | sweepNext =>
    simp only [step] at hstep
    obtain ⟨⟨x, hx, hdead⟩, hgone⟩ := h
    split at hstep
    · cases hstep
    · next m rest hsweeping =>
      rw [hsweeping] at hgone
      split at hstep
      · next hlive =>
        -- a live name is not the dead one
        obtain rfl := Option.some.inj hstep
        refine ⟨⟨x, hx, hdead⟩, hgone.imp (fun hnone => hnone) fun hmem => ?_⟩
        refine (List.mem_cons.mp hmem).resolve_left ?_
        rintro rfl
        obtain ⟨y, hy, hreg⟩ := hinv.live _ hlive
        obtain rfl := Option.some.inj (hx.symm.trans hy)
        rw [hreg] at hdead
        cases hdead
      · obtain rfl := Option.some.inj hstep
        refine ⟨⟨x, hx, hdead⟩, ?_⟩
        by_cases hm : n = m
        · subst hm
          left
          rw [Table.find?_delete]
          cases hfind : s.spool.find? n with
          | none => rfl
          | some f => simp [Option.filter, Table.key_of_find? hfind]
        · exact hgone.imp (fun hnone => (find?_delete_spool hm).trans hnone)
            fun hmem => (List.mem_cons.mp hmem).resolve_left hm
  | kill => exact absurd rfl hkill
  | powerLoss pick kept torn left => exact absurd rfl (hloss pick kept torn left)

/-- **A sweep** that comes to its end removes every spool file that was there
when it listed them and had no live writer, and none of a writer that still
needs it, whatever else runs meanwhile. -/
theorem swept_spool (ops later : List LocalOp) {s' : LocalStore}
    (hsweep : step sha256 (run sha256 .empty ops) .sweep = some s')
    (hlater : ∀ op ∈ later, op ≠ .kill ∧ ∀ pick kept torn left, op ≠ .powerLoss pick kept torn left)
    (hdone : (run sha256 s' later).sweeping = []) :
    (∀ f ∈ (run sha256 .empty ops).spool, f.inode ∉ (run sha256 .empty ops).live →
      (run sha256 s' later).spool.find? f.inode = none) ∧
    ∀ w ∈ (run sha256 s' later).writers, w.phase.spools = true →
      (run sha256 s' later).spool.find? w.id = some ⟨w.id, w.streamed, w.phase.flushed⟩ := by
  have hinv : Inv sha256 (run sha256 .empty ops) := Inv.run ops
  have hinv' := hinv.step hsweep
  have hstarted : s' = { run sha256 .empty ops with
      sweeping := (run sha256 .empty ops).sweeping ++
        (run sha256 .empty ops).spool.rows.map File.inode } := (Option.some.inj hsweep).symm
  refine ⟨fun f hf hnotlive => ?_, fun w hw hspools => ?_⟩
  · have hdead : Dead f.inode s' := by
      obtain ⟨w, hw⟩ := hinv.named _ f (Table.find?_of_mem hf)
      rw [hstarted]
      refine ⟨⟨w, hw, ?_⟩, Or.inr (List.mem_append_right _ (List.mem_map_of_mem hf))⟩
      refine Bool.eq_false_iff.mpr fun hreg => hnotlive ?_
      rw [← Table.key_of_find? hw]
      exact (hinv.kept _ w hw).live hreg
    have hrun := Transition.run_induction
      (P := fun s => Inv sha256 s ∧ Dead f.inode s)
      (fun s op s' hop hs hstep =>
        ⟨hs.1.step hstep, dead_step hs.1 hs.2 hop.1 hop.2 hstep⟩)
      later s' hlater ⟨hinv', hdead⟩
    refine hrun.2.2.resolve_right ?_
    rw [hdone]
    exact List.not_mem_nil
  · have hrun : Inv sha256 (run sha256 s' later) :=
      Transition.run_invariant (fun _ _ _ h hstep => h.step hstep) later s' hinv'
    exact (hrun.kept _ w (Table.find?_of_mem hw)).spooled hspools

theorem swept_spool_killed :
    (∀ f ∈ (run id .empty [.beginPut 0 ["call"], .kill]).spool,
      f.inode ∉ (run id .empty [.beginPut 0 ["call"], .kill]).live →
      (run id (run id .empty [.beginPut 0 ["call"], .kill, .sweep]) [.sweepNext]).spool.find?
        f.inode = none) ∧
    ∀ w ∈ (run id (run id .empty [.beginPut 0 ["call"], .kill, .sweep]) [.sweepNext]).writers,
      w.phase.spools = true →
      (run id (run id .empty [.beginPut 0 ["call"], .kill, .sweep]) [.sweepNext]).spool.find? w.id =
        some ⟨w.id, w.streamed, w.phase.flushed⟩ :=
  swept_spool [.beginPut 0 ["call"], .kill] [.sweepNext] rfl
    (by
      intro op hop
      obtain rfl := List.mem_singleton.mp hop
      exact ⟨nofun, nofun⟩) (by decide)

end LocalStore

end Earshot.Blobs
