import Mathlib.Data.List.Chain
import Mathlib.Data.List.DropRight
import Mathlib.Tactic.Common
/-!
# Collapsing space

Every run of space becomes one blank, and none is left at either end. What is
left is tidy, and what is tidy is left as it is (`collapse_of_tidy`).
-/

namespace Spaces

variable {α : Type*} (space : α → Bool) (blank : α)

/-- Each run of space becomes one blank; `within` says that one was begun. -/
def squeeze : Bool → List α → List α
  | _, [] => []
  | within, c :: rest =>
      if space c then
        if within then squeeze true rest else blank :: squeeze true rest
      else c :: squeeze false rest

/-- No space at either end. -/
def strip (l : List α) : List α := (l.dropWhile space).rdropWhile space

def collapse (l : List α) : List α := strip space (squeeze space blank false l)

/-- No space but single blanks inside. -/
structure Tidy (l : List α) : Prop where
  blanks : ∀ c ∈ l, space c = true → c = blank
  single : l.IsChain fun a b => ¬ (space a = true ∧ space b = true)
  first : ∀ c ∈ l.head?, space c = false
  last : ∀ c ∈ l.getLast?, space c = false

variable {space blank} {l : List α}

theorem squeeze_chain (within : Bool) (l : List α) :
    (squeeze space blank within l).IsChain (fun a b => ¬ (space a = true ∧ space b = true)) ∧
      (within = true → ∀ c ∈ (squeeze space blank within l).head?, space c = false) := by
  induction l generalizing within with
  | nil => exact ⟨List.IsChain.nil, fun _ _ hnone => absurd hnone (Option.not_mem_none _)⟩
  | cons c rest ih =>
    rw [squeeze]
    split
    · split
      · rename_i hwithin
        subst hwithin
        exact ih true
      · rename_i hwithin
        refine ⟨List.isChain_cons.mpr ⟨fun d hd hboth => ?_, (ih true).1⟩,
          fun h => absurd h hwithin⟩
        rw [(ih true).2 rfl d hd] at hboth
        exact Bool.false_ne_true hboth.2
    · rename_i hc
      refine ⟨List.isChain_cons.mpr ⟨fun d _ hboth => hc hboth.1, (ih false).1⟩, fun _ d hd => ?_⟩
      obtain rfl := Option.some.inj hd
      exact Bool.eq_false_iff.mpr hc

theorem mem_squeeze {within : Bool} {c : α} (h : c ∈ squeeze space blank within l) :
    c = blank ∨ (c ∈ l ∧ space c = false) := by
  induction l generalizing within with
  | nil => exact absurd h List.not_mem_nil
  | cons d rest ih =>
    rw [squeeze] at h
    split at h
    · split at h
      · exact (ih h).imp_right fun hc => ⟨List.mem_cons_of_mem _ hc.1, hc.2⟩
      · rcases List.mem_cons.mp h with rfl | h
        · exact Or.inl rfl
        · exact (ih h).imp_right fun hc => ⟨List.mem_cons_of_mem _ hc.1, hc.2⟩
    · rename_i hd
      rcases List.mem_cons.mp h with rfl | h
      · exact Or.inr ⟨List.mem_cons_self, Bool.eq_false_iff.mpr hd⟩
      · exact (ih h).imp_right fun hc => ⟨List.mem_cons_of_mem _ hc.1, hc.2⟩

theorem strip_within (l : List α) : strip space l <:+: l :=
  have hstart := List.rdropWhile_prefix space (l.dropWhile space)
  hstart.isInfix.trans (List.dropWhile_suffix _).isInfix

theorem mem_collapse {c : α} (h : c ∈ collapse space blank l) :
    c = blank ∨ (c ∈ l ∧ space c = false) :=
  mem_squeeze ((strip_within _).subset h)

/-- **What is collapsed is tidy.** -/
theorem tidy_collapse (l : List α) :
    Tidy space blank (collapse space blank l) where
  blanks c hc hspace := by
    rcases mem_collapse hc with rfl | ⟨-, hnot⟩
    · rfl
    · rw [hnot] at hspace
      cases hspace
  single := List.IsChain.infix (squeeze_chain false l).1 (strip_within _)
  first c hc := by
    have hprefix : collapse space blank l <+:
        (squeeze space blank false l).dropWhile space := List.rdropWhile_prefix _ _
    obtain ⟨rest, hrest⟩ := hprefix
    have hhead := List.head?_dropWhile_not space (squeeze space blank false l)
    rw [← hrest] at hhead
    cases hcollapse : collapse space blank l with
    | nil =>
      rw [hcollapse] at hc
      cases hc
    | cons d others =>
      rw [hcollapse] at hc hhead
      obtain rfl := Option.some.inj hc
      simpa using hhead
  last c hc := by
    have hne : collapse space blank l ≠ [] := by
      intro hnil
      rw [hnil] at hc
      cases hc
    rw [List.getLast?_eq_some_getLast hne] at hc
    obtain rfl := Option.some.inj hc
    exact Bool.eq_false_iff.mpr (List.rdropWhile_last_not _ _ hne)

/-- Nothing is squeezed where all space is single blanks. -/
theorem squeeze_of_chain (within : Bool) (hblanks : ∀ c ∈ l, space c = true → c = blank)
    (hchain : l.IsChain fun a b => ¬ (space a = true ∧ space b = true))
    (hfirst : within = true → ∀ c ∈ l.head?, space c = false) :
    squeeze space blank within l = l := by
  induction l generalizing within with
  | nil => rfl
  | cons c rest ih =>
    obtain ⟨hnext, hrest⟩ := List.isChain_cons.mp hchain
    have hblanks' : ∀ d ∈ rest, space d = true → d = blank :=
      fun d hd => hblanks d (List.mem_cons_of_mem _ hd)
    rw [squeeze]
    split
    · rename_i hc
      split
      · rename_i hwithin
        rw [hfirst hwithin c rfl] at hc
        cases hc
      · have hblank := hblanks c List.mem_cons_self hc
        have hsqueeze := ih true hblanks' hrest fun _ d hd =>
          Bool.eq_false_iff.mpr fun hspace => hnext d hd ⟨hc, hspace⟩
        rw [hsqueeze, hblank]
    · exact congrArg (c :: ·) (ih false hblanks' hrest fun h => by cases h)

theorem strip_of_ends (hfirst : ∀ c ∈ l.head?, space c = false)
    (hlast : ∀ c ∈ l.getLast?, space c = false) : strip space l = l := by
  have hdrop : l.dropWhile space = l := by
    cases l with
    | nil => rfl
    | cons c rest => rw [List.dropWhile_cons_of_neg (by rw [hfirst c rfl]; exact Bool.false_ne_true)]
  rw [strip, hdrop, List.rdropWhile_eq_self_iff]
  intro hne hspace
  rw [hlast _ (List.getLast?_eq_some_getLast hne)] at hspace
  cases hspace

/-- **What is tidy is left as it is.** -/
theorem collapse_of_tidy (h : Tidy space blank l) : collapse space blank l = l := by
  have hsqueeze : squeeze space blank false l = l :=
    squeeze_of_chain false h.blanks h.single fun hfalse => absurd hfalse Bool.false_ne_true
  rw [collapse, hsqueeze, strip_of_ends h.first h.last]

/-- An end of what is tidy is tidy, where it does not begin with the blank. -/
theorem Tidy.suffix {rest : List α} (h : Tidy space blank l) (hsuffix : rest <:+ l)
    (hfirst : ∀ c ∈ rest.head?, c ≠ blank) : Tidy space blank rest where
  blanks c hc := h.blanks c (hsuffix.subset hc)
  single := h.single.suffix hsuffix
  first c hc := Bool.eq_false_iff.mpr fun hspace =>
    hfirst c hc (h.blanks c (hsuffix.subset (List.mem_of_mem_head? hc)) hspace)
  last c hc := by
    obtain ⟨front, rfl⟩ := hsuffix
    refine h.last c ?_
    have hne : rest ≠ [] := by
      rintro rfl
      cases hc
    rwa [List.getLast?_append_of_ne_nil _ hne]

/-- A word and a blank before what is tidy and says something. -/
theorem Tidy.word {word : List α} (h : Tidy space blank l) (hl : l ≠ []) (hword : word ≠ [])
    (hspace : ∀ c ∈ word, space c = false) : Tidy space blank (word ++ blank :: l) where
  blanks c hc hc' := by
    rcases List.mem_append.mp hc with hc | hc
    · rw [hspace c hc] at hc'
      cases hc'
    · rcases List.mem_cons.mp hc with rfl | hc
      · rfl
      · exact h.blanks c hc hc'
  single := by
    refine List.isChain_append.mpr ⟨?_, List.isChain_cons.mpr ⟨fun d hd hboth => ?_, h.single⟩, ?_⟩
    · refine List.Pairwise.isChain (List.Pairwise.imp_of_mem (R := fun _ _ => True) ?_ ?_)
      · intro a b ha _ _ hboth
        rw [hspace a ha] at hboth
        exact Bool.false_ne_true hboth.1
      · exact List.pairwise_of_forall fun _ _ => trivial
    · rw [h.first d hd] at hboth
      exact Bool.false_ne_true hboth.2
    · intro a ha b _ hboth
      rw [hspace a (List.mem_of_mem_getLast? ha)] at hboth
      exact Bool.false_ne_true hboth.1
  first c hc := by
    rw [List.head?_append_of_ne_nil _ hword] at hc
    exact hspace c (List.mem_of_mem_head? hc)
  last c hc := by
    rw [List.getLast?_append_of_ne_nil _ (List.cons_ne_nil _ _), List.getLast?_cons_of_ne_nil hl] at hc
    exact h.last c hc

end Spaces
