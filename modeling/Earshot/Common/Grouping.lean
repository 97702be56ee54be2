import Mathlib.Data.List.Induction
import Mathlib.Data.List.Nodup
import Earshot.Common.Table
/-!
# Grouping by a key, in order of first occurrence

A dictionary filled in one pass: each element updates the entry of its key,
which the first element of that key put at the end. Every key of the list has
one entry, made of that key's elements alone (`grouped_eq`).
-/

namespace Grouping

open Relational

variable {α β κ : Type*} [DecidableEq κ]

/-- `d.setdefault(k, init)`, and that entry's update in place. -/
def upsert (k : κ) (init : β) (f : β → β) : List (κ × β) → List (κ × β)
  | [] => [(k, f init)]
  | (k', b) :: rest => if k' = k then (k', f b) :: rest else (k', b) :: upsert k init f rest

/-- The dictionary a pass over `l` fills. -/
def grouped (key : α → κ) (init : β) (step : β → α → β) (l : List α) : List (κ × β) :=
  l.foldl (fun d a => upsert (key a) init (step · a) d) []

/-- `d.setdefault(key, []).append(a)` -/
def groupBy (key : α → κ) (l : List α) : List (κ × List α) :=
  grouped key [] (fun group a => group ++ [a]) l

/-- The keys, each where it first occurs. -/
def firstKeys (key : α → κ) (l : List α) : List κ :=
  l.foldl (fun ks a => if key a ∈ ks then ks else ks ++ [key a]) []

variable {key : α → κ} {init : β} {step : β → α → β} {l : List α} {k : κ} {a : α}

theorem firstKeys_concat : firstKeys key (l ++ [a]) =
    if key a ∈ firstKeys key l then firstKeys key l else firstKeys key l ++ [key a] := by
  rw [firstKeys, List.foldl_append]
  rfl

theorem mem_firstKeys : k ∈ firstKeys key l ↔ ∃ a ∈ l, key a = k := by
  induction l using List.reverseRecOn with
  | nil => exact ⟨fun h => absurd h List.not_mem_nil, fun ⟨_, ha, _⟩ => absurd ha List.not_mem_nil⟩
  | append_singleton l a ih =>
    have hconcat : (∃ b ∈ l ++ [a], key b = k) ↔ (∃ b ∈ l, key b = k) ∨ key a = k := by
      simp only [List.mem_append, List.mem_singleton, or_and_right, exists_or, exists_eq_left]
    rw [firstKeys_concat, hconcat, ← ih]
    by_cases hmem : key a ∈ firstKeys key l
    · rw [if_pos hmem]
      exact ⟨Or.inl, fun h => h.elim id fun h => h ▸ hmem⟩
    · rw [if_neg hmem, List.mem_append, List.mem_singleton]
      exact or_congr_right eq_comm

theorem nodup_firstKeys : (firstKeys key l).Nodup := by
  induction l using List.reverseRecOn with
  | nil => exact List.nodup_nil
  | append_singleton l a ih =>
    rw [firstKeys_concat]
    by_cases hmem : key a ∈ firstKeys key l
    · rwa [if_pos hmem]
    · rw [if_neg hmem]
      refine List.nodup_append.mpr ⟨ih, List.nodup_singleton _, fun k hk k' hk' heq => hmem ?_⟩
      rw [← List.mem_singleton.mp hk', ← heq]
      exact hk

/-- An upsert of a dictionary read as a function of its keys. -/
theorem upsert_map {f : β → β} {g : κ → β} : ∀ {ks : List κ}, ks.Nodup →
    upsert k init f (ks.map fun k => (k, g k)) =
      if k ∈ ks then ks.map fun k' => (k', if k' = k then f (g k') else g k')
      else (ks.map fun k => (k, g k)) ++ [(k, f init)]
  | [], _ => rfl
  | k' :: ks, h => by
    obtain ⟨hnot, hks⟩ := List.nodup_cons.mp h
    rw [List.map_cons, upsert]
    by_cases heq : k' = k
    · subst heq
      rw [if_pos rfl, if_pos List.mem_cons_self, List.map_cons, if_pos rfl]
      refine congrArg _ (List.map_congr_left fun k hk => ?_)
      rw [if_neg fun (heq : k = k') => hnot (heq ▸ hk)]
    · rw [if_neg heq, upsert_map hks]
      by_cases hmem : k ∈ ks
      · rw [if_pos hmem, if_pos (List.mem_cons_of_mem _ hmem), List.map_cons, if_neg heq]
      · rw [if_neg hmem, if_neg fun h => (List.mem_cons.mp h).elim (fun h => heq h.symm) hmem]
        rfl

/-- **One entry for each key**, of the elements with that key. -/
theorem grouped_eq : grouped key init step l =
    (firstKeys key l).map fun k => (k, (l.filter (key · = k)).foldl step init) := by
  induction l using List.reverseRecOn with
  | nil => rfl
  | append_singleton l a ih =>
    have hstep : grouped key init step (l ++ [a]) =
        upsert (key a) init (step · a) (grouped key init step l) := by
      rw [grouped, List.foldl_append]
      rfl
    have hfold : ∀ k, ((l ++ [a]).filter (key · = k)).foldl step init =
        if k = key a then step ((l.filter (key · = k)).foldl step init) a
        else (l.filter (key · = k)).foldl step init := by
      intro k
      rw [List.filter_append, List.foldl_append]
      by_cases heq : k = key a
      · rw [if_pos heq, List.filter_singleton, decide_eq_true heq.symm]
        rfl
      · rw [if_neg heq, List.filter_singleton, decide_eq_false fun h => heq h.symm]
        rfl
    rw [hstep, ih, upsert_map nodup_firstKeys, firstKeys_concat]
    by_cases hmem : key a ∈ firstKeys key l
    · rw [if_pos hmem, if_pos hmem]
      exact List.map_congr_left fun k _ => by rw [hfold]
    · rw [if_neg hmem, if_neg hmem, List.map_append]
      have hnone : l.filter (key · = key a) = [] := List.filter_eq_nil_iff.mpr fun b hb hkey =>
        hmem (mem_firstKeys.mpr ⟨b, hb, of_decide_eq_true hkey⟩)
      refine congrArg₂ _ (List.map_congr_left fun k hk => ?_) ?_
      · rw [hfold, if_neg fun (heq : k = key a) => hmem (heq ▸ hk)]
      · rw [List.map_singleton, hfold, if_pos rfl, hnone]
        rfl

theorem foldl_append_singleton : ∀ (l init : List α),
    l.foldl (fun group a => group ++ [a]) init = init ++ l
  | [], init => (List.append_nil init).symm
  | a :: l, init => by
    rw [List.foldl_cons, foldl_append_singleton l, List.append_assoc]
    rfl

theorem groupBy_eq : groupBy key l =
    (firstKeys key l).map fun k => (k, l.filter (key · = k)) := by
  rw [groupBy, grouped_eq]
  refine List.map_congr_left fun k _ => congrArg _ ?_
  rw [foldl_append_singleton, List.nil_append]

theorem key_of_mem_grouped {entry : κ × β} (h : entry ∈ grouped key init step l) :
    ∃ a ∈ l, key a = entry.1 := by
  rw [grouped_eq] at h
  obtain ⟨k, hk, rfl⟩ := List.mem_map.mp h
  exact mem_firstKeys.mp hk

theorem mem_groupBy {group : κ × List α} (h : group ∈ groupBy key l) :
    ∃ a ∈ l, key a = group.1 ∧ group.2 = l.filter (key · = group.1) := by
  rw [groupBy_eq] at h
  obtain ⟨k, hk, rfl⟩ := List.mem_map.mp h
  obtain ⟨a, ha, hkey⟩ := mem_firstKeys.mp hk
  exact ⟨a, ha, hkey, rfl⟩

/-- The groups hold the list's elements. -/
theorem perm_groups : ((groupBy key l).flatMap (·.2)).Perm l := by
  rw [groupBy_eq, List.flatMap_map]
  refine .symm ((List.Perm.of_eq ?_).trans (perm_flatMap_groups (p := fun _ => true)
    nodup_firstKeys fun a ha => ⟨fun _ => mem_firstKeys.mpr ⟨a, ha, rfl⟩, fun _ => rfl⟩))
  rw [List.filter_true]

/-- **What a key's entry alone produces** is found where that entry is. -/
theorem filter_flatMap_grouped {γ : Type*} {f : κ × β → List γ} {p : γ → Bool}
    (h : ∀ k', ∀ c ∈ f (k', (l.filter (key · = k')).foldl step init), p c = true → k' = k) :
    ((grouped key init step l).flatMap f).filter p =
      if l.filter (key · = k) = [] then []
      else (f (k, (l.filter (key · = k)).foldl step init)).filter p := by
  have hkeys : ∀ (g : κ → β) {ks : List κ}, ks.Nodup →
      (∀ k', ∀ c ∈ f (k', g k'), p c = true → k' = k) →
      ((ks.map fun k => (k, g k)).flatMap f).filter p =
        if k ∈ ks then (f (k, g k)).filter p else [] := by
    intro g ks hks h
    induction ks with
    | nil => rfl
    | cons k' ks ih =>
      obtain ⟨hnot, hks⟩ := List.nodup_cons.mp hks
      rw [List.map_cons, List.flatMap_cons, List.filter_append, ih hks]
      by_cases heq : k' = k
      · subst heq
        rw [if_neg hnot, if_pos List.mem_cons_self, List.append_nil]
      · have hnone : (f (k', g k')).filter p = [] :=
          List.filter_eq_nil_iff.mpr fun c hc hp => heq (h _ c hc hp)
        rw [hnone, List.nil_append]
        refine if_congr ?_ rfl rfl
        exact ⟨List.mem_cons_of_mem _, fun hk =>
          (List.mem_cons.mp hk).resolve_left fun heq' => heq heq'.symm⟩
  have hempty : l.filter (key · = k) = [] ↔ ¬ k ∈ firstKeys key l := by
    rw [mem_firstKeys, List.filter_eq_nil_iff]
    simp only [decide_eq_true_eq, not_exists, not_and]
  rw [grouped_eq, hkeys _ nodup_firstKeys h, if_congr hempty rfl rfl, ite_not]

theorem filter_flatMap_groupBy {γ : Type*} {f : κ × List α → List γ} {p : γ → Bool}
    (h : ∀ k', ∀ c ∈ f (k', l.filter (key · = k')), p c = true → k' = k) :
    ((groupBy key l).flatMap f).filter p =
      if l.filter (key · = k) = [] then [] else (f (k, l.filter (key · = k))).filter p := by
  have hgroup : ∀ k, (l.filter (key · = k)).foldl (fun group a => group ++ [a]) [] =
      l.filter (key · = k) := by
    intro k
    rw [foldl_append_singleton, List.nil_append]
  rw [groupBy, filter_flatMap_grouped (k := k), hgroup]
  intro k' c
  rw [hgroup]
  exact h k' c

end Grouping
