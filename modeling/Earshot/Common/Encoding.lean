import Mathlib.Data.List.Basic
import Mathlib.Data.String.Basic
/-!
# Fields joined by a separator

Two fields joined by a separator that one of them does not contain are
told apart again, whatever the other contains: the first separator ends a
field that has none, and the last one starts a field that has none.
-/

namespace Encoding

variable {α : Type*} {sep : α} {a a' b b' : List α}

/-- The first separator ends a first field without one. -/
theorem append_cons_inj_of_left (ha : sep ∉ a) (ha' : sep ∉ a')
    (h : a ++ sep :: b = a' ++ sep :: b') : a = a' ∧ b = b' := by
  induction a generalizing a' with
  | nil =>
      cases a' with
      | nil => exact ⟨rfl, (List.cons.inj h).2⟩
      | cons y a' =>
          have hy : sep = y := (List.cons.inj h).1
          exact absurd (hy ▸ List.mem_cons_self) ha'
  | cons x a ih =>
      cases a' with
      | nil =>
          have hx : x = sep := (List.cons.inj h).1
          exact absurd (hx ▸ List.mem_cons_self) ha
      | cons y a' =>
          obtain ⟨hxy, htail⟩ := List.cons.inj h
          obtain ⟨haa, hbb⟩ := ih (fun hm => ha (List.mem_cons_of_mem _ hm))
            (fun hm => ha' (List.mem_cons_of_mem _ hm)) htail
          exact ⟨by rw [hxy, haa], hbb⟩

/-- The last separator starts a second field without one. -/
theorem append_cons_inj_of_right (hb : sep ∉ b) (hb' : sep ∉ b')
    (h : a ++ sep :: b = a' ++ sep :: b') : a = a' ∧ b = b' := by
  have hrev : b.reverse ++ sep :: a.reverse = b'.reverse ++ sep :: a'.reverse := by
    have := congrArg List.reverse h
    simpa using this
  obtain ⟨hbb, haa⟩ := append_cons_inj_of_left (by simpa using hb) (by simpa using hb') hrev
  exact ⟨List.reverse_injective haa, List.reverse_injective hbb⟩

/-! ## Strings -/

section Strings

variable {x x' y y' : String} {c : Char} {s : String}

theorem toList_joined (hs : s.toList = [c]) (x y : String) :
    (x ++ s ++ y).toList = x.toList ++ c :: y.toList := by
  simp [hs]

/-- Joined by a one-character separator the first field has none of. -/
theorem join_inj_of_left (hs : s.toList = [c]) (hx : c ∉ x.toList) (hx' : c ∉ x'.toList)
    (h : x ++ s ++ y = x' ++ s ++ y') : x = x' ∧ y = y' := by
  have hlist := congrArg String.toList h
  rw [toList_joined hs, toList_joined hs] at hlist
  obtain ⟨hxx, hyy⟩ := append_cons_inj_of_left hx hx' hlist
  exact ⟨String.toList_inj.mp hxx, String.toList_inj.mp hyy⟩

/-- Joined by a one-character separator the second field has none of. -/
theorem join_inj_of_right (hs : s.toList = [c]) (hy : c ∉ y.toList) (hy' : c ∉ y'.toList)
    (h : x ++ s ++ y = x' ++ s ++ y') : x = x' ∧ y = y' := by
  have hlist := congrArg String.toList h
  rw [toList_joined hs, toList_joined hs] at hlist
  obtain ⟨hxx, hyy⟩ := append_cons_inj_of_right hy hy' hlist
  exact ⟨String.toList_inj.mp hxx, String.toList_inj.mp hyy⟩

theorem append_left_inj_string (h : x ++ y = x ++ y') : y = y' := by
  have hlist := congrArg String.toList h
  rw [String.toList_append, String.toList_append] at hlist
  exact String.toList_inj.mp (List.append_cancel_left hlist)

/-! ## Numbers -/

/-- A decimal number has digits only. -/
theorem notMem_toString (hc : c.isDigit = false) (n : ℕ) : c ∉ (toString n).toList := by
  intro hmem
  have hdigits : (toString n).toList = Nat.toDigits 10 n := Nat.toList_repr
  rw [hdigits] at hmem
  have hdigit := Nat.isDigit_of_mem_toDigits (by decide) (by decide) hmem
  rw [hc] at hdigit
  cases hdigit

theorem toString_inj {m n : ℕ} (h : toString m = toString n) : m = n := by
  have hdigits : Nat.toDigits 10 m = Nat.toDigits 10 n := by
    rw [← Nat.toList_repr, ← Nat.toList_repr]
    exact congrArg String.toList h
  rw [← Nat.ofDigitChars_ten_toDigits (n := m), hdigits, Nat.ofDigitChars_ten_toDigits]

end Strings

end Encoding
