import GraphqlClient.Text.Indent

/-!
# Lines of joined texts

Cutting undoes joining when no piece holds the separator, and indentation moves each of the joined
lines by itself.
-/

namespace GraphqlClient.Text

/-- A text is cut as lists are. -/
theorem splitOn_eq (sep : Char) (text : List Char) : splitOn sep text = text.splitOn sep := by
  induction text with
  | nil => rfl
  | cons c cs ih =>
    have hcons : (c :: cs).splitOn sep =
        if (c == sep) = true then [] :: cs.splitOn sep else (cs.splitOn sep).modifyHead (c :: ·) := by
      simp only [List.splitOn_eq_splitOnP]
      exact List.splitOnP_cons_eq_if_modifyHead c cs
    have hpieces : cs.splitOn sep ≠ [] := ih ▸ splitOn_ne_nil sep cs
    rw [hcons, splitOn, ih]
    by_cases hc : c = sep
    · rw [if_pos hc, if_pos (by simp [hc])]
    · rw [if_neg hc, if_neg (by simp [hc])]
      cases hcs : cs.splitOn sep with
      | nil => exact absurd hcs hpieces
      | cons piece pieces => rfl

/-- Cutting a joined text gives the pieces back. -/
theorem splitOn_intercalate {sep : Char} {pieces : List (List Char)} (hne : pieces ≠ [])
    (h : ∀ piece ∈ pieces, sep ∉ piece) : splitOn sep ([sep].intercalate pieces) = pieces := by
  rw [splitOn_eq]
  exact List.splitOn_intercalate sep h hne

/-- Pieces do not hold the separator. -/
theorem notMem_of_mem_splitOn {sep : Char} {text piece : List Char}
    (h : piece ∈ splitOn sep text) : sep ∉ piece := by
  induction text generalizing piece with
  | nil => simp_all [splitOn]
  | cons c cs ih =>
    rw [splitOn] at h
    split at h
    · rcases List.mem_cons.mp h with rfl | h
      · exact List.not_mem_nil
      · exact ih h
    · next hc =>
      split at h
      · rw [List.mem_singleton.mp h, List.mem_singleton]
        exact Ne.symm hc
      · next first others hpieces =>
        rw [hpieces] at ih
        obtain ⟨hfirst, hothers⟩ := List.forall_mem_cons.mp fun _ => ih
        rcases List.mem_cons.mp h with rfl | h
        · exact List.not_mem_cons_of_ne_of_not_mem (Ne.symm hc) hfirst
        · exact hothers piece h

/-- Joining commutes with a change of the characters. -/
theorem map_intercalate (f : Char → Char) (sep : List Char) (pieces : List (List Char)) :
    (sep.intercalate pieces).map f = (sep.map f).intercalate (pieces.map (List.map f)) := by
  induction pieces with
  | nil => rfl
  | cons piece pieces ih =>
    cases pieces with
    | nil => simp
    | cons next pieces =>
      rw [List.intercalate_cons_cons, List.map_append, List.map_append, ih]
      simp only [List.map_cons, List.intercalate_cons_cons]

/-- Pieces are joined in two goes with a separator between them. -/
theorem intercalate_append {sep : List Char} {xs ys : List (List Char)} (hx : xs ≠ [])
    (hy : ys ≠ []) :
    sep.intercalate (xs ++ ys) = sep.intercalate xs ++ sep ++ sep.intercalate ys := by
  induction xs with
  | nil => exact absurd rfl hx
  | cons x xs ih =>
    cases xs with
    | nil => simp [List.intercalate_cons_of_ne_nil hy]
    | cons next xs =>
      rw [List.cons_append, List.cons_append, List.intercalate_cons_cons,
        List.intercalate_cons_cons, ← List.cons_append, ih (by simp)]
      simp only [List.append_assoc]

/-- A text is cut on both sides of a separator by itself. -/
theorem splitOn_append_cons (sep : Char) (front rest : List Char) :
    splitOn sep (front ++ sep :: rest) = splitOn sep front ++ splitOn sep rest := by
  have hjoin : [sep].intercalate (splitOn sep front ++ splitOn sep rest) = front ++ sep :: rest := by
    rw [intercalate_append (splitOn_ne_nil sep front) (splitOn_ne_nil sep rest),
      intercalate_splitOn, intercalate_splitOn, List.append_assoc, List.singleton_append]
  rw [← hjoin]
  refine splitOn_intercalate (by simp [splitOn_ne_nil]) fun piece hpiece => ?_
  exact (List.mem_append.mp hpiece).elim notMem_of_mem_splitOn notMem_of_mem_splitOn

end GraphqlClient.Text
