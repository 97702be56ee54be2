import Mathlib.Data.List.Basic
import Mathlib.Tactic.Common
/-!
# Runs of a machine whose operations may fail

An operation either commits a next state or commits nothing; a run applies
operations in order and an operation that commits nothing leaves the state
as it was. What every committed step preserves holds after every run
(`run_induction`), and a run in two parts is a run from where the first
part ended (`run_append`). Loops, checks in a row, streams in blocks and
traces of events are runs of their own kinds.
-/

namespace Transition

variable {σ ι : Type*} (step : σ → ι → Option σ)

/-- One operation: its commit, or the state unchanged. -/
def next (s : σ) (op : ι) : σ := (step s op).getD s

/-- The operations one after the other. -/
def run (s : σ) (ops : List ι) : σ := ops.foldl (next step) s

@[simp] theorem run_nil (s : σ) : run step s [] = s := rfl

@[simp] theorem run_cons (s : σ) (op : ι) (ops : List ι) :
    run step s (op :: ops) = run step (next step s op) ops := rfl

theorem run_append (s : σ) (ops ops' : List ι) :
    run step s (ops ++ ops') = run step (run step s ops) ops' :=
  List.foldl_append

variable {step}

theorem next_of_some {s s' : σ} {op : ι} (h : step s op = some s') : next step s op = s' := by
  rw [next, h, Option.getD_some]

theorem next_of_none {s : σ} {op : ι} (h : step s op = none) : next step s op = s := by
  rw [next, h, Option.getD_none]

/-- **The invariant rule.** What each committed step of an allowed
operation preserves holds after every run of allowed operations. -/
theorem run_induction {P : σ → Prop} {allowed : ι → Prop}
    (hstep : ∀ s op s', allowed op → P s → step s op = some s' → P s') :
    ∀ (ops : List ι) (s : σ), (∀ op ∈ ops, allowed op) → P s → P (run step s ops) := by
  intro ops
  induction ops with
  | nil => intro s _ h; exact h
  | cons op ops ih =>
      intro s hall h
      refine ih _ (fun op' hop' => hall op' (List.mem_cons_of_mem _ hop')) ?_
      cases hs : step s op with
      | none => rw [next_of_none hs]; exact h
      | some s' =>
          rw [next_of_some hs]
          exact hstep s op s' (hall op List.mem_cons_self) h hs

/-- The invariant rule where every operation is allowed. -/
theorem run_invariant {P : σ → Prop} (hstep : ∀ s op s', P s → step s op = some s' → P s')
    (ops : List ι) (s : σ) (h : P s) : P (run step s ops) :=
  run_induction (fun s op s' (_ : True) hs hop => hstep s op s' hs hop) ops s
    (fun _ _ => trivial) h

/-- The invariant rule where the step may use what the state's past says:
the condition on an operation is read at the state it runs from. -/
theorem run_induction_of_guarded {P : σ → Prop} {G : σ → ι → Prop}
    (hstep : ∀ s op s', G s op → P s → step s op = some s' → P s') :
    ∀ (ops : List ι) (s : σ),
      (∀ pre op post, ops = pre ++ op :: post → G (run step s pre) op) →
      P s → P (run step s ops) := by
  intro ops
  induction ops with
  | nil => intro s _ h; exact h
  | cons op ops ih =>
      intro s hall h
      refine ih _ (fun pre op' post he => ?_) ?_
      · have := hall (op :: pre) op' post (by rw [he, List.cons_append])
        rwa [run_cons] at this
      · cases hs : step s op with
        | none => rw [next_of_none hs]; exact h
        | some s' =>
            rw [next_of_some hs]
            exact hstep s op s' (hall [] op ops rfl) h hs

/-- `G` allows each operation at the state it runs from. -/
def Guarded (step : σ → ι → Option σ) (G : σ → ι → Prop) : σ → List ι → Prop
  | _, [] => True
  | s, op :: ops => G s op ∧ Guarded step G (next step s op) ops

instance Guarded.decidable {G : σ → ι → Prop} [∀ s op, Decidable (G s op)] :
    ∀ (s : σ) (ops : List ι), Decidable (Guarded step G s ops)
  | _, [] => .isTrue trivial
  | s, op :: ops => @instDecidableAnd _ _ _ (Guarded.decidable (next step s op) ops)

/-- The invariant rule along a guarded run. -/
theorem Guarded.induction {P : σ → Prop} {G : σ → ι → Prop}
    (hstep : ∀ s op s', G s op → P s → step s op = some s' → P s') :
    ∀ (ops : List ι) (s : σ), Guarded step G s ops → P s → P (run step s ops) := by
  intro ops
  induction ops with
  | nil => intro s _ h; exact h
  | cons op ops ih =>
      intro s hguard h
      refine ih _ hguard.2 ?_
      cases hs : step s op with
      | none => rw [next_of_none hs]; exact h
      | some s' => rw [next_of_some hs]; exact hstep s op s' hguard.1 h hs

/-- A prefix of a guarded run is guarded, and so is what follows it. -/
theorem Guarded.append {G : σ → ι → Prop} {post : List ι} :
    ∀ {pre : List ι} {s : σ}, Guarded step G s (pre ++ post) →
      Guarded step G s pre ∧ Guarded step G (run step s pre) post := by
  intro pre
  induction pre with
  | nil => exact fun h => ⟨trivial, h⟩
  | cons op pre ih =>
      intro s h
      obtain ⟨hpre, hpost⟩ := ih h.2
      exact ⟨⟨h.1, hpre⟩, hpost⟩

theorem Guarded.and {G G' : σ → ι → Prop} :
    ∀ {ops : List ι} {s : σ}, Guarded step G s ops → Guarded step G' s ops →
      Guarded step (fun s op => G s op ∧ G' s op) s ops := by
  intro ops
  induction ops with
  | nil => exact fun _ _ => trivial
  | cons op ops ih => exact fun h h' => ⟨⟨h.1, h'.1⟩, ih h.2 h'.2⟩

/-- A guard read at each operation's own place in the run. -/
theorem guarded_iff {G : σ → ι → Prop} {ops : List ι} {s : σ} : Guarded step G s ops ↔
    ∀ pre op post, ops = pre ++ op :: post → G (run step s pre) op := by
  induction ops generalizing s with
  | nil =>
      refine iff_of_true trivial fun pre op post h => ?_
      exact absurd h.symm (List.append_ne_nil_of_right_ne_nil _ (List.cons_ne_nil _ _))
  | cons op ops ih =>
      rw [Guarded, ih]
      constructor
      · rintro ⟨hhead, hrest⟩ pre op' post h
        cases pre with
        | nil =>
            obtain ⟨rfl, -⟩ := List.cons.inj h
            exact hhead
        | cons op₀ pre =>
            obtain ⟨rfl, hops⟩ := List.cons.inj h
            exact hrest pre op' post hops
      · intro h
        exact ⟨h [] op ops rfl, fun pre op' post hops =>
          h (op :: pre) op' post (by rw [hops, List.cons_append])⟩

/-- A run followed by one operation that commits. -/
theorem run_concat {s s' : σ} {ops : List ι} {op : ι} (h : step (run step s ops) op = some s') :
    run step s (ops ++ [op]) = s' := by
  rw [run_append]
  exact next_of_some h

/-- **The exact condition on a run.** When every step `G` allows keeps
`P`, and every step it forbids breaks `P`, then `P` holds in every state a
run goes through if and only if `G` allows each of its operations
that commits. An invariant `I` may be used. -/
theorem forall_prefix_iff {I P : σ → Prop} {G : σ → ι → Prop}
    (hI : ∀ s op s', I s → step s op = some s' → I s')
    (hkeep : ∀ s op s', I s → P s → G s op → step s op = some s' → P s')
    (hbreak : ∀ s op s', I s → P s → ¬ G s op → step s op = some s' → ¬ P s')
    {s : σ} (hs : I s) (h : P s) (ops : List ι) :
    (∀ pre, pre <+: ops → P (run step s pre)) ↔
      ∀ pre op post, ops = pre ++ op :: post → (step (run step s pre) op).isSome = true →
        G (run step s pre) op := by
  constructor
  · intro hall pre op post hops hsome
    obtain ⟨s', hs'⟩ := Option.isSome_iff_exists.mp hsome
    by_contra hguard
    refine hbreak _ op s' (run_invariant hI pre s hs) (hall pre ⟨_, hops.symm⟩) hguard hs' ?_
    rw [← run_concat hs']
    exact hall _ ⟨post, by rw [hops, List.append_assoc]; rfl⟩
  · rintro hall pre ⟨rest, rfl⟩
    have hboth := run_induction_of_guarded
      (G := fun s op => (step s op).isSome = true → G s op)
      (P := fun s => I s ∧ P s)
      (fun s op s' hguard hs hstep => ⟨hI s op s' hs.1 hstep,
        hkeep s op s' hs.1 hs.2 (hguard (by rw [hstep]; rfl)) hstep⟩) pre s
      (fun pre' op post hpre => hall pre' op (post ++ rest) (by
        rw [hpre, List.append_assoc]; rfl)) ⟨hs, h⟩
    exact hboth.2

/-! ## Passes that may raise -/

/-- **A pass over a list goes through** exactly when it does at every
element. -/
theorem exists_mapM_ok {ε α β : Type*} {f : α → Except ε β} {l : List α} :
    (∃ out, l.mapM f = .ok out) ↔ ∀ a ∈ l, ∃ b, f a = .ok b := by
  induction l with
  | nil => exact ⟨fun _ _ h => absurd h List.not_mem_nil, fun _ => ⟨[], rfl⟩⟩
  | cons a l ih =>
    rw [List.forall_mem_cons, ← ih, List.mapM_cons]
    cases hf : f a with
    | error e =>
      refine ⟨?_, ?_⟩
      · rintro ⟨out, hout⟩
        cases hout
      · rintro ⟨⟨b, hb⟩, -⟩
        cases hb
    | ok b =>
      cases hrest : l.mapM f with
      | error e =>
        refine ⟨?_, ?_⟩
        · rintro ⟨out, hout⟩
          cases hout
        · rintro ⟨-, out, hout⟩
          cases hout
      | ok out => exact ⟨fun _ => ⟨⟨b, rfl⟩, out, rfl⟩, fun _ => ⟨b :: out, rfl⟩⟩

end Transition

/-! ## Loops that may raise

A turn of a loop goes on, ends it or raises. Where no loop goes on for ever,
one ends exactly when none of the states it meets makes its turn raise. -/

namespace Looping

variable {ε σ τ : Type*} (turn : σ → Except ε (σ ⊕ τ))

/-- The loop ends. -/
inductive Ends : σ → τ → Prop
  | done {s : σ} {t : τ} (h : turn s = .ok (.inr t)) : Ends s t
  | more {s s' : σ} {t : τ} (h : turn s = .ok (.inl s')) (hrest : Ends s' t) : Ends s t

/-- The loop meets a state. -/
inductive Meets : σ → σ → Prop
  | here (s : σ) : Meets s s
  | more {s s' s'' : σ} (h : turn s = .ok (.inl s')) (hrest : Meets s' s'') : Meets s s''

variable {turn}

/-- **The loop rule.** -/
theorem exists_ends_iff (hwf : WellFounded fun s' s => turn s = .ok (.inl s')) {s : σ} :
    (∃ t, Ends turn s t) ↔ ∀ s', Meets turn s s' → ∃ out, turn s' = .ok out := by
  constructor
  · rintro ⟨t, hends⟩ s' hmeets
    induction hmeets with
    | here s =>
      cases hends with
      | done h => exact ⟨_, h⟩
      | more h hrest => exact ⟨_, h⟩
    | more h hrest ih =>
      refine ih ?_
      cases hends with
      | done hdone => cases h.symm.trans hdone
      | more hmore hends =>
        obtain rfl := Sum.inl.inj (Except.ok.inj (h.symm.trans hmore))
        exact hends
  · induction s using hwf.induction with
    | _ s ih =>
      intro hall
      obtain ⟨out, hout⟩ := hall s (.here s)
      cases out with
      | inr t => exact ⟨t, .done hout⟩
      | inl s' =>
        obtain ⟨t, hends⟩ := ih s' hout fun s'' hmeets => hall s'' (.more hout hmeets)
        exact ⟨t, .more hout hends⟩

end Looping

/-! ## Checks in a row

A check gives a value or an error, and one after another they pass only when
each does. -/

namespace Checked

universe u v

variable {ε : Type u} {α β : Type v} {m : Except ε α} {f : α → Except ε β} {b : β}

@[simp] theorem ok_bind (a : α) (f : α → Except ε β) : (Except.ok a >>= f) = f a := rfl

theorem bind_eq_ok : (m >>= f) = .ok b ↔ ∃ a, m = .ok a ∧ f a = .ok b := by
  constructor
  · intro h
    cases m with
    | error e => cases h
    | ok a => exact ⟨a, rfl, h⟩
  · rintro ⟨a, rfl, h⟩
    exact h

end Checked

/-! ## Streams

A stream arrives in blocks. What a reader holds after some blocks is a
view of what arrived, so it does not depend on where one block ended and
the next began; a reader may also fail, and then has failed for good. -/

namespace Streaming

variable {α σ ε : Type*}

/-- **What is held after some blocks is the view of their items.** -/
theorem foldl_eq_view (feed : σ → List α → σ) (view : List α → σ)
    (h : ∀ xs ys, feed (view xs) ys = view (xs ++ ys)) (xs : List α) (blocks : List (List α)) :
    blocks.foldl feed (view xs) = view (xs ++ blocks.flatten) := by
  induction blocks generalizing xs with
  | nil => rw [List.foldl_nil, List.flatten_nil, List.append_nil]
  | cons block blocks ih =>
    rw [List.foldl_cons, h, ih, List.flatten_cons, List.append_assoc]

/-- Blocks fed to a reader that may fail. -/
def feedAll (feed : σ → List α → Except ε σ) : σ → List (List α) → Except ε σ
  | s, [] => .ok s
  | s, block :: blocks => (feed s block).bind fun s' => feedAll feed s' blocks

/-- **A reader that may fail.** What holds of the items fed is kept by a block,
or has failed for good. -/
theorem feedAll_spec {feed : σ → List α → Except ε σ} {Holds : List α → σ → Prop}
    {Fails : List α → ε → Prop}
    (hok : ∀ xs s ys s', Holds xs s → feed s ys = .ok s' → Holds (xs ++ ys) s')
    (herror : ∀ xs s ys e, Holds xs s → feed s ys = .error e → Fails (xs ++ ys) e)
    (hfailed : ∀ xs e, Fails xs e → ∀ ys, Fails (xs ++ ys) e)
    {xs : List α} {s : σ} (h : Holds xs s) (blocks : List (List α)) :
    (∀ s', feedAll feed s blocks = .ok s' → Holds (xs ++ blocks.flatten) s') ∧
      ∀ e, feedAll feed s blocks = .error e → Fails (xs ++ blocks.flatten) e := by
  induction blocks generalizing xs s with
  | nil =>
    rw [List.flatten_nil, List.append_nil, feedAll]
    exact ⟨fun s' hs => Except.ok.inj hs ▸ h, by rintro _ ⟨⟩⟩
  | cons block blocks ih =>
    rw [feedAll, List.flatten_cons, ← List.append_assoc]
    cases hfeed : feed s block with
    | ok s' => exact ih (hok xs s block s' h hfeed)
    | error e =>
      refine ⟨by rintro _ ⟨⟩, fun e' he => ?_⟩
      obtain rfl := Except.error.inj he
      exact hfailed _ e (herror xs s block e h hfeed) _

end Streaming

/-! ## Traces whose every event its past allows

A trace is lawful if each of its events is allowed by those before it. It is
built an event at a time, and a condition on the past alone is kept by what
follows. -/

namespace EventTrace

variable {ε : Type*} (allowed : List ε → ε → Prop)

/-- Each event is allowed by the events before it. -/
def Lawful (trace : List ε) : Prop :=
  ∀ pre e post, trace = pre ++ e :: post → allowed pre e

variable {allowed} {trace : List ε} {e : ε}

theorem Lawful.nil : Lawful allowed [] := by
  intro pre e post h
  cases pre <;> cases h

theorem Lawful.concat (h : Lawful allowed trace) (he : allowed trace e) :
    Lawful allowed (trace ++ [e]) := by
  intro pre x post hsplit
  rcases post.eq_nil_or_concat with rfl | ⟨front, last, rfl⟩
  · obtain ⟨rfl, hx⟩ := List.append_inj' hsplit rfl
    rw [← (List.cons.inj hx).1]
    exact he
  · rw [List.concat_eq_append, ← List.cons_append, ← List.append_assoc] at hsplit
    exact h pre x front (List.append_inj' hsplit rfl).1

/-- The last event of a kind, and what came of it: nothing of the kind
followed. -/
structure Last (kind : ε → Prop) (trace : List ε) (pre : List ε) (e : ε) : Prop where
  split : ∃ post, trace = pre ++ e :: post ∧ ∀ x ∈ post, ¬ kind x
  kind : kind e

variable {kind : ε → Prop} {pre : List ε}

theorem Last.concat (h : Last kind trace pre e) {x : ε} (hx : ¬ kind x) :
    Last kind (trace ++ [x]) pre e := by
  obtain ⟨post, rfl, hpost⟩ := h.split
  refine ⟨⟨post ++ [x], by simp, fun y hy => ?_⟩, h.kind⟩
  rcases List.mem_append.mp hy with hy | hy
  · exact hpost y hy
  · rw [List.mem_singleton.mp hy]
    exact hx

end EventTrace
