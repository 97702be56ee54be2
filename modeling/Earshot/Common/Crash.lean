import Mathlib.Data.Nat.Notation
import Mathlib.Logic.Basic
/-!
# Programs that may fail or be cut off between any two effects

A program changes a state through effects. Each effect has a fate: it is
done, or stops after some progress with an error the program may handle, or
with a crash it may not. A run is a function of the state and of the fates
its effects meet, in order; past the last one every effect is done, so a run
under no fates is one without faults.

`wp` is what must hold of a state for every run from it, whatever the fates,
to end well in each of the three ways. Its rules follow the program: one for
each way of building it, and one for an effect.
-/

namespace Crash

/-- What becomes of one effect. -/
inductive Fate where
  | done
  | failed (progress : ℕ)
  | crashed (progress : ℕ)
  deriving DecidableEq

inductive Exit (ε α : Type) where
  | ok (a : α)
  | error (e : ε)
  | crash
  deriving DecidableEq

/-- How a run ended: its exit, the state it left, and the fates it did not
meet. -/
structure Ended (σ ε α : Type) where
  exit : Exit ε α
  state : σ
  fates : List Fate

/-- The run ended in `Q` if it returned, in `E` if it failed, and in `K` if
it was cut off. -/
def Ended.Meets {σ ε α : Type} (Q : α → σ → Prop) (E : ε → σ → Prop) (K : σ → Prop)
    (ended : Ended σ ε α) : Prop :=
  match ended.exit with
  | .ok a => Q a ended.state
  | .error e => E e ended.state
  | .crash => K ended.state

def Prog (σ ε α : Type) : Type := List Fate → σ → Ended σ ε α

namespace Prog

variable {σ ε α β : Type}

protected def pure (a : α) : Prog σ ε α := fun fates s => ⟨.ok a, s, fates⟩

protected def bind (m : Prog σ ε α) (f : α → Prog σ ε β) : Prog σ ε β := fun fates s =>
  match m fates s with
  | ⟨.ok a, s, fates⟩ => f a fates s
  | ⟨.error e, s, fates⟩ => ⟨.error e, s, fates⟩
  | ⟨.crash, s, fates⟩ => ⟨.crash, s, fates⟩

instance : Monad (Prog σ ε) where
  pure := Prog.pure
  bind := Prog.bind

def throw (e : ε) : Prog σ ε α := fun fates s => ⟨.error e, s, fates⟩

/-- A crash is not caught. -/
def tryCatch (m : Prog σ ε α) (handler : ε → Prog σ ε α) : Prog σ ε α := fun fates s =>
  match m fates s with
  | ⟨.error e, s, fates⟩ => handler e fates s
  | ended => ended

/-- `finally`: the cleanup runs when the program ends, unless it crashed. -/
def withCleanup (m : Prog σ ε α) (cleanup : σ → σ) : Prog σ ε α := fun fates s =>
  match m fates s with
  | ⟨.crash, s, fates⟩ => ⟨.crash, s, fates⟩
  | ⟨exit, s, fates⟩ => ⟨exit, cleanup s, fates⟩

def get : Prog σ ε σ := fun fates s => ⟨.ok s, s, fates⟩

def modify (f : σ → σ) : Prog σ ε Unit := fun fates s => ⟨.ok (), f s, fates⟩

/-- An effect: `part n` is the state it leaves when it stops after progress
`n`, and `e` what it then fails with. -/
def effect (part : ℕ → σ → σ) (full : σ → σ) (e : ε) : Prog σ ε Unit := fun fates s =>
  match fates with
  | [] => ⟨.ok (), full s, []⟩
  | .done :: fates => ⟨.ok (), full s, fates⟩
  | .failed n :: fates => ⟨.error e, part n s, fates⟩
  | .crashed n :: fates => ⟨.crash, part n s, fates⟩

/-- The effect's own failure is let pass. -/
def suppress (m : Prog σ ε Unit) : Prog σ ε Unit := tryCatch m fun _ => Prog.pure ()

/-! ## Every way a run may end -/

/-- Every run from `s` ends in `Q` if it returns, in `E` if it fails, and in
`K` if it is cut off. -/
def wp (m : Prog σ ε α) (Q : α → σ → Prop) (E : ε → σ → Prop) (K : σ → Prop) (s : σ) : Prop :=
  ∀ fates, (m fates s).Meets Q E K

section Rules

variable {m : Prog σ ε α} {f : α → Prog σ ε β} {Q Q' : α → σ → Prop} {R : β → σ → Prop}
variable {E E' : ε → σ → Prop} {K K' : σ → Prop} {s : σ}

theorem wp_pure {a : α} : (Prog.pure a : Prog σ ε α).wp Q E K s ↔ Q a s :=
  ⟨fun h => h [], fun h _ => h⟩

theorem wp_return {a : α} : (Pure.pure a : Prog σ ε α).wp Q E K s ↔ Q a s := wp_pure

theorem wp_throw {e : ε} : (throw e : Prog σ ε α).wp Q E K s ↔ E e s :=
  ⟨fun h => h [], fun h _ => h⟩

theorem wp_get {Q : σ → σ → Prop} : (get : Prog σ ε σ).wp Q E K s ↔ Q s s :=
  ⟨fun h => h [], fun h _ => h⟩

theorem wp_modify {g : σ → σ} {Q : Unit → σ → Prop} :
    (modify g : Prog σ ε Unit).wp Q E K s ↔ Q () (g s) :=
  ⟨fun h => h [], fun h _ => h⟩

/-- **An effect** is done, or stops anywhere. -/
theorem wp_effect {part : ℕ → σ → σ} {full : σ → σ} {e : ε} {Q : Unit → σ → Prop} :
    (effect part full e).wp Q E K s ↔
      Q () (full s) ∧ (∀ n, E e (part n s)) ∧ ∀ n, K (part n s) := by
  constructor
  · intro h
    exact ⟨h [], fun n => h [.failed n], fun n => h [.crashed n]⟩
  · rintro ⟨hdone, hfailed, hcrashed⟩ fates
    cases fates with
    | nil => exact hdone
    | cons fate fates =>
        cases fate with
        | done => exact hdone
        | failed n => exact hfailed n
        | crashed n => exact hcrashed n

/-- **One program after another.** -/
theorem wp_bind (h : m.wp (fun a s' => (f a).wp R E K s') E K s) : (m >>= f).wp R E K s := by
  intro fates
  have hm := h fates
  show (Prog.bind m f fates s).Meets R E K
  unfold Prog.bind
  generalize m fates s = ended at hm ⊢
  obtain ⟨exit, s', fates'⟩ := ended
  cases exit with
  | ok a => exact hm fates'
  | error | crash => exact hm

theorem wp_tryCatch {handler : ε → Prog σ ε α}
    (h : m.wp Q (fun e s' => (handler e).wp Q E K s') K s) : (tryCatch m handler).wp Q E K s := by
  intro fates
  have hm := h fates
  unfold tryCatch
  generalize m fates s = ended at hm ⊢
  obtain ⟨exit, s', fates'⟩ := ended
  cases exit with
  | ok a => exact hm
  | error e => exact hm fates'
  | crash => exact hm

theorem wp_withCleanup {cleanup : σ → σ}
    (h : m.wp (fun a s' => Q a (cleanup s')) (fun e s' => E e (cleanup s')) K s) :
    (withCleanup m cleanup).wp Q E K s := by
  intro fates
  have hm := h fates
  unfold withCleanup
  generalize m fates s = ended at hm ⊢
  obtain ⟨exit, s', fates'⟩ := ended
  cases exit with
  | ok | error | crash => exact hm

/-- **The rule of consequence.** -/
theorem wp_mono (h : m.wp Q E K s) (hQ : ∀ a s, Q a s → Q' a s) (hE : ∀ e s, E e s → E' e s)
    (hK : ∀ s, K s → K' s) : m.wp Q' E' K' s := by
  intro fates
  have hm := h fates
  generalize m fates s = ended at hm ⊢
  obtain ⟨exit, s', fates'⟩ := ended
  cases exit with
  | ok a => exact hQ a s' hm
  | error e => exact hE e s' hm
  | crash => exact hK s' hm

end Rules

/-! ## What a program keeps -/

/-- Every run from a state of `I` that returns ends in `Q`, and every other in
a state of `I`. -/
def Leads (I : σ → Prop) (m : Prog σ ε α) (Q : α → σ → Prop) : Prop :=
  ∀ s, I s → m.wp Q (fun _ => I) I s

/-- Every run from a state of `I` ends in one, and returns what `R` holds of. -/
def Keeps (I : σ → Prop) (m : Prog σ ε α) (R : α → Prop) : Prop :=
  m.Leads I fun a s => R a ∧ I s

section Keeping

variable {I : σ → Prop} {m : Prog σ ε α} {f : α → Prog σ ε β} {Q Q' : α → σ → Prop}
  {S : β → σ → Prop} {R R' : α → Prop}

theorem Leads.mono (h : m.Leads I Q) (hQ : ∀ a s, Q a s → Q' a s) : m.Leads I Q' :=
  fun s hs => wp_mono (h s hs) hQ (fun _ _ he => he) fun _ hk => hk

theorem Keeps.mono (h : m.Keeps I R) (hR : ∀ a, R a → R' a) : m.Keeps I R' :=
  Leads.mono h fun a _ ha => ⟨hR a ha.1, ha.2⟩

theorem Leads.return {a : α} (h : ∀ s, I s → Q a s) : (pure a : Prog σ ε α).Leads I Q :=
  fun s hs => wp_return.mpr (h s hs)

theorem Keeps.return {a : α} (h : R a) : (pure a : Prog σ ε α).Keeps I R :=
  Leads.return fun _ hs => ⟨h, hs⟩

theorem Leads.throw (e : ε) : (throw e : Prog σ ε α).Leads I Q := fun _ hs => wp_throw.mpr hs

/-- **One program after another.** -/
theorem Leads.bind (hm : m.Keeps I R) (hf : ∀ a, R a → (f a).Leads I S) :
    (m >>= f).Leads I S :=
  fun s hs => wp_bind (wp_mono (hm s hs) (fun a s' ha => hf a ha.1 s' ha.2) (fun _ _ he => he)
    fun _ hk => hk)

theorem Leads.tryCatch {handler : ε → Prog σ ε α} (hm : m.Leads I Q)
    (hh : ∀ e, (handler e).Leads I Q) : (tryCatch m handler).Leads I Q :=
  fun s hs => wp_tryCatch (wp_mono (hm s hs) (fun _ _ hq => hq) (fun e s' he => hh e s' he)
    fun _ hk => hk)

theorem Keeps.get : (get : Prog σ ε σ).Keeps I I := fun _ hs => wp_get.mpr ⟨hs, hs⟩

theorem Keeps.modify {g : σ → σ} (h : ∀ s, I s → I (g s)) :
    (modify g : Prog σ ε Unit).Keeps I fun _ => True :=
  fun s hs => wp_modify.mpr ⟨trivial, h s hs⟩

theorem Keeps.effect {part : ℕ → σ → σ} {full : σ → σ} {e : ε}
    (hpart : ∀ n s, I s → I (part n s)) (hfull : ∀ s, I s → I (full s)) :
    (effect part full e).Keeps I fun _ => True :=
  fun s hs => wp_effect.mpr ⟨⟨trivial, hfull s hs⟩, fun n => hpart n s hs, fun n => hpart n s hs⟩

theorem Keeps.suppress {m : Prog σ ε Unit} (h : m.Keeps I fun _ => True) :
    (suppress m).Keeps I fun _ => True :=
  Leads.tryCatch h fun _ => Keeps.return trivial

/-- A program is one of two. -/
theorem Leads.ite {c : Prop} [Decidable c] {n : Prog σ ε α} (hm : c → m.Leads I Q)
    (hn : ¬ c → n.Leads I Q) : (if c then m else n).Leads I Q := by
  split
  · rename_i hc
    exact hm hc
  · rename_i hc
    exact hn hc

end Keeping

end Prog

end Crash
