import Earshot.Uploads.Parsing
/-!
# Rows and newlines

A body's rows are the same with any of the three newlines, so how its newlines
are written says nothing (`decodedLines_rewritten`), and rows that are joined
again split where they were joined.
-/

namespace Earshot.Uploads

variable {rows : List Text} {row text body : Text} {c : Char}

/-! ## Splitting -/

def isNewline (c : Char) : Bool := c = '\n' ∨ c = '\r'

theorem consRow_ne_nil (c : Char) (rows : List Text) : consRow c rows ≠ [] := by
  cases rows <;> exact List.cons_ne_nil _ _

theorem length_consRow (hrows : rows ≠ []) : (consRow c rows).length = rows.length := by
  cases rows with
  | nil => exact absurd rfl hrows
  | cons row rows => rfl

theorem splitRows_ne_nil (text : Text) : splitRows text ≠ [] := by
  unfold splitRows
  split
  · exact List.cons_ne_nil _ _
  · exact List.cons_ne_nil _ _
  · exact List.cons_ne_nil _ _
  · exact List.cons_ne_nil _ _
  · exact consRow_ne_nil _ _

/-- A carriage return ends a row, before anything but a line feed. -/
theorem splitRows_cr (h : text.head? ≠ some '\n') :
    splitRows ('\r' :: text) = [] :: splitRows text := by
  rw [splitRows]
  rintro rest rfl
  exact h rfl

theorem splitRows_cons (h : isNewline c = false) :
    splitRows (c :: text) = consRow c (splitRows text) := by
  rw [splitRows]
  · rintro rest rfl
    exact absurd h (by decide)
  · rintro rfl
    exact absurd h (by decide)
  · rintro rfl
    exact absurd h (by decide)

theorem countCrlf_cons (h : c = '\r' → text.head? ≠ some '\n') :
    countCrlf (c :: text) = countCrlf text := by
  rw [countCrlf]
  rintro rest rfl rfl
  exact h rfl rfl

/-- The lines that are counted are the rows. -/
theorem length_splitRows_add (text : Text) :
    (splitRows text).length + countCrlf text =
      text.countP (· = '\n') + text.countP (· = '\r') + 1 := by
  fun_induction splitRows text with
  | case1 => rfl
  | case2 rest ih =>
    simp only [List.length_cons, countCrlf, List.countP_cons]
    simp
    omega
  | case3 rest hrest ih =>
    have hhead : rest.head? ≠ some '\n' := by
      intro hhead
      obtain ⟨others, rfl⟩ := List.head?_eq_some_iff.mp hhead
      exact hrest others rfl
    simp only [List.length_cons, countCrlf_cons fun _ => hhead, List.countP_cons]
    simp
    omega
  | case4 rest ih =>
    have hhead : '\n' = '\r' → rest.head? ≠ some '\n' := fun h => absurd h (by decide)
    simp only [List.length_cons, countCrlf_cons hhead, List.countP_cons]
    simp
    omega
  | case5 c rest hcrlf hcr hlf ih =>
    rw [length_consRow (splitRows_ne_nil rest), countCrlf_cons fun h => absurd h hcr]
    simp only [List.countP_cons, decide_eq_true_eq, if_neg hcr, if_neg hlf]
    exact ih

theorem length_splitRows (text : Text) : (splitRows text).length = sourceLines text := by
  have h := length_splitRows_add text
  have hpos : 0 < (splitRows text).length := List.length_pos_of_ne_nil (splitRows_ne_nil text)
  unfold sourceLines
  omega

/-! ## Newlines -/

/-- A text whose lone line feeds are each written as a carriage return, with a
line feed after it where `crlf` says so. -/
def rewritten (crlf : ℕ → Bool) : ℕ → Text → Text
  | _, [] => []
  | n, '\r' :: '\n' :: rest => '\r' :: '\n' :: rewritten crlf n rest
  | n, '\n' :: rest =>
      if crlf n then '\r' :: '\n' :: rewritten crlf (n + 1) rest
      else '\r' :: rewritten crlf (n + 1) rest
  | n, c :: rest => c :: rewritten crlf n rest

theorem head?_rewritten (crlf : ℕ → Bool) (n : ℕ) (text : Text) :
    (rewritten crlf n text).head? ≠ some '\n' := by
  fun_cases rewritten crlf n text with
  | case1 => exact nofun
  | case2 => exact fun h => absurd (Option.some.inj h) (by decide)
  | case3 => exact fun h => absurd (Option.some.inj h) (by decide)
  | case4 => exact fun h => absurd (Option.some.inj h) (by decide)
  | case5 _ c rest hcrlf hlf => exact fun h => hlf (Option.some.inj h)

/-- **Newlines that are written otherwise split the same rows.** -/
theorem splitRows_rewritten (crlf : ℕ → Bool) (n : ℕ) (text : Text) :
    splitRows (rewritten crlf n text) = splitRows text := by
  fun_induction rewritten crlf n text with
  | case1 => rfl
  | case2 n rest ih => rw [splitRows, splitRows, ih]
  | case3 n rest _ ih => rw [splitRows, splitRows, ih]
  | case4 n rest _ ih =>
    rw [splitRows_cr (head?_rewritten _ _ _), ih]
    exact (splitRows.eq_4 rest).symm
  | case5 n c rest hcrlf hlf ih =>
    by_cases hc : c = '\r'
    · subst hc
      rw [splitRows_cr (head?_rewritten _ _ _), splitRows_cr, ih]
      intro hhead
      cases rest with
      | nil => cases hhead
      | cons d rest =>
        obtain rfl := Option.some.inj hhead
        exact hcrlf rest rfl rfl
    · have hnewline : isNewline c = false := by
        simp only [isNewline, decide_eq_false_iff_not, not_or]
        exact ⟨hlf, hc⟩
      rw [splitRows_cons hnewline, splitRows_cons hnewline, ih]

theorem removeBom_cons (c : Char) (text : Text) :
    removeBom (c :: text) = if c = '\ufeff' then text else c :: text := by
  simp only [removeBom, List.head?_cons, Option.some.injEq, List.drop_succ_cons, List.drop_zero]

theorem removeBom_rewritten (crlf : ℕ → Bool) (n : ℕ) (body : Text) :
    removeBom (rewritten crlf n body) = rewritten crlf n (removeBom body) := by
  fun_cases rewritten crlf n body with
  | case1 => rfl
  | case2 => rfl
  | case3 _ rest hcrlf =>
    rw [removeBom_cons '\n', if_neg (by decide), rewritten, if_pos hcrlf]
    rfl
  | case4 _ rest hcrlf =>
    rw [removeBom_cons '\n', if_neg (by decide), rewritten, if_neg hcrlf]
    rfl
  | case5 _ c rest hcrlf hlf =>
    rw [removeBom_cons, removeBom_cons]
    split
    · rfl
    · rw [rewritten]
      · exact hcrlf
      · exact hlf

/-- What is decoded is told by the rows. -/
theorem decodedLines_congr {body' : Text}
    (h : splitRows (removeBom body') = splitRows (removeBom body)) :
    decodedLines body' = decodedLines body := by
  simp only [decodedLines, ← length_splitRows, h]

theorem decodedLines_rewritten (crlf : ℕ → Bool) (n : ℕ) (body : Text) :
    decodedLines (rewritten crlf n body) = decodedLines body :=
  decodedLines_congr (by rw [removeBom_rewritten, splitRows_rewritten])

/-! ## What is decoded -/

theorem controlRow_eq_none :
    controlRow rows = none ↔ ∀ row ∈ rows, ∀ c ∈ row, isControl c = false := by
  unfold controlRow
  rw [Option.map_eq_none_iff, List.findIdx?_eq_none_iff]
  exact forall₂_congr fun row _ => List.any_eq_false.trans
    (forall₂_congr fun c _ => Bool.eq_false_iff.symm)

/-- The rows are those of the body, few enough and without a control
character. -/
theorem decodedLines_eq_ok : decodedLines body = .ok rows ↔
    rows = splitRows (removeBom body) ∧ rows.length ≤ MAX_TRANSCRIPT_SOURCE_LINES ∧
      ∀ row ∈ rows, ∀ c ∈ row, isControl c = false := by
  simp only [decodedLines, ← length_splitRows]
  constructor
  · intro h
    split at h
    · cases h
    · rename_i hlength
      split at h
      · cases h
      · rename_i hcontrol
        obtain rfl := Except.ok.inj h
        exact ⟨rfl, Nat.le_of_not_lt hlength, controlRow_eq_none.mp hcontrol⟩
  · rintro ⟨rfl, hlength, hcontrol⟩
    rw [if_neg (Nat.not_lt.mpr hlength), controlRow_eq_none.mpr hcontrol]

/-! ## Joining -/

/-- A body of rows. -/
def joined (rows : List Text) : Text := List.intercalate ['\n'] rows

theorem splitRows_append (hrow : ∀ c ∈ row, isNewline c = false) (text : Text) :
    splitRows (row ++ '\n' :: text) = row :: splitRows text := by
  induction row with
  | nil => rw [List.nil_append, splitRows]
  | cons c row ih =>
    rw [List.cons_append, splitRows_cons (hrow c List.mem_cons_self),
      ih fun d hd => hrow d (List.mem_cons_of_mem _ hd)]
    rfl

theorem splitRows_of_row (hrow : ∀ c ∈ row, isNewline c = false) : splitRows row = [row] := by
  induction row with
  | nil => rfl
  | cons c row ih =>
    rw [splitRows_cons (hrow c List.mem_cons_self),
      ih fun d hd => hrow d (List.mem_cons_of_mem _ hd)]
    rfl

/-- **Rows that are joined split where they were joined.** -/
theorem splitRows_joined (hne : rows ≠ []) (hrows : ∀ row ∈ rows, ∀ c ∈ row, isNewline c = false) :
    splitRows (joined rows) = rows := by
  unfold joined
  induction rows with
  | nil => exact absurd rfl hne
  | cons row rows ih =>
    cases rows with
    | nil =>
      rw [List.intercalate_singleton]
      exact splitRows_of_row (hrows row List.mem_cons_self)
    | cons next rest =>
      rw [List.intercalate_cons_cons, List.append_assoc, List.singleton_append,
        splitRows_append (hrows row List.mem_cons_self),
        ih (List.cons_ne_nil _ _) fun other hother => hrows other (List.mem_cons_of_mem _ hother)]

end Earshot.Uploads
