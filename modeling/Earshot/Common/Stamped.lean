import Mathlib.Data.List.Infix
import Mathlib.Order.Basic
/-!
# Logs with a version

A log is only appended to, and a version moves when it is. A reader that noted
the version can tell later, by the version alone, whether what it read of the
log is still all of it.
-/

namespace Stamped

variable {σ ν α : Type*} [PartialOrder ν]

/-- From one state to a later one the log grew, and the version moved exactly
if it did. -/
structure Tracks (version : σ → ν) (log : σ → List α) (s s' : σ) : Prop where
  le : version s ≤ version s'
  grows : log s <+: log s'
  same : version s = version s' ↔ log s = log s'

variable {version : σ → ν} {log : σ → List α} {s s' s'' : σ}

theorem Tracks.refl : Tracks version log s s := ⟨le_rfl, List.prefix_rfl, iff_of_true rfl rfl⟩

/-- Neither the version nor the log is touched. -/
theorem Tracks.of_eq (hversion : version s' = version s) (hlog : log s' = log s) :
    Tracks version log s s' where
  le := hversion.ge
  grows := hlog ▸ List.prefix_rfl
  same := iff_of_true hversion.symm hlog.symm

/-- Rows are appended, and the version moves on. -/
theorem Tracks.of_append {added : List α} (hversion : version s < version s')
    (hlog : log s' = log s ++ added) (hadded : added ≠ []) : Tracks version log s s' where
  le := hversion.le
  grows := hlog ▸ List.prefix_append _ _
  same := by
    refine iff_of_false hversion.ne fun heq => hadded ?_
    exact List.append_right_eq_self.mp (hlog.symm.trans heq.symm)

theorem Tracks.trans (h : Tracks version log s s') (h' : Tracks version log s' s'') :
    Tracks version log s s'' where
  le := h.le.trans h'.le
  grows := h.grows.trans h'.grows
  same := by
    constructor
    · intro heq
      have hleft : version s = version s' := le_antisymm h.le (heq ▸ h'.le)
      exact (h.same.mp hleft).trans (h'.same.mp (hleft ▸ heq))
    · intro heq
      have hleft : log s = log s' :=
        h.grows.eq_of_length (le_antisymm h.grows.length_le (heq ▸ h'.grows.length_le))
      exact (h.same.mpr hleft).trans (h'.same.mpr (hleft ▸ heq))

/-- **What was read stays all there is** while the version is where it was. -/
theorem Tracks.still {stamp : ν} {rows : List α} (h : Tracks version log s s')
    (hle : stamp ≤ version s) (hread : stamp = version s → rows = log s) :
    stamp ≤ version s' ∧ (stamp = version s' → rows = log s') := by
  refine ⟨hle.trans h.le, fun heq => ?_⟩
  have hstamp : stamp = version s := le_antisymm hle (heq ▸ h.le)
  exact (hread hstamp).trans (h.same.mp (hstamp ▸ heq))

end Stamped
