import Mathlib.Data.List.Basic
import GraphqlClient.Text.Indent

/-!
# Characters of joined and indented texts

Joining pieces brings in no characters but those of the separator, and cutting a text brings in
none at all. So indentation adds blanks and newlines only.
-/

namespace GraphqlClient.Text

/-- What a joined text holds comes from the separator or from a piece. -/
theorem mem_of_mem_intercalate {α : Type} {sep : List α} {pieces : List (List α)} {c : α}
    (h : c ∈ sep.intercalate pieces) : c ∈ sep ∨ ∃ piece ∈ pieces, c ∈ piece := by
  induction pieces with
  | nil => simp at h
  | cons piece pieces ih =>
    cases pieces with
    | nil => exact .inr ⟨piece, List.mem_singleton_self _, by simpa using h⟩
    | cons next pieces =>
      rw [List.intercalate_cons_cons, List.mem_append, List.mem_append] at h
      rcases h with (h | h) | h
      · exact .inr ⟨piece, List.mem_cons_self, h⟩
      · exact .inl h
      · exact (ih h).imp id fun ⟨other, hother, hc⟩ => ⟨other, List.mem_cons_of_mem _ hother, hc⟩

/-- A joined text holds what its pieces hold. -/
theorem mem_intercalate_of_mem {sep : List Char} {pieces : List (List Char)} {piece : List Char}
    (hpiece : piece ∈ pieces) {c : Char} (hc : c ∈ piece) : c ∈ sep.intercalate pieces := by
  induction pieces with
  | nil => cases hpiece
  | cons first pieces ih =>
    cases pieces with
    | nil =>
      rw [List.mem_singleton.mp hpiece] at hc
      simpa using hc
    | cons next pieces =>
      rw [List.intercalate_cons_cons, List.mem_append, List.mem_append]
      rcases List.mem_cons.mp hpiece with rfl | hrest
      · exact .inl (.inl hc)
      · exact .inr (ih hrest)

/-- A piece of a text holds characters of the text. -/
theorem mem_of_mem_splitOn {sep : Char} {text piece : List Char} (hpiece : piece ∈ splitOn sep text)
    {c : Char} (hc : c ∈ piece) : c ∈ text := by
  rw [← intercalate_splitOn sep text]
  exact mem_intercalate_of_mem hpiece hc

/-- Indentation adds blanks and newlines. -/
theorem mem_of_mem_indentLines {levels : Nat} {text : List Char} {c : Char}
    (h : c ∈ indentLines levels text) : c = '\n' ∨ c = ' ' ∨ c ∈ text := by
  rcases mem_of_mem_intercalate h with h | ⟨line, hline, h⟩
  · exact .inl (List.mem_singleton.mp h)
  · obtain ⟨piece, hpiece, rfl⟩ := List.mem_map.mp hline
    rcases List.mem_append.mp h with h | h
    · exact .inr (.inl (List.eq_of_mem_replicate h))
    · exact .inr (.inr (mem_of_mem_splitOn hpiece h))

/-- What neither the separator nor a piece holds is not in the joined text. -/
theorem notMem_intercalate {separator : String} {texts : List String} {c : Char}
    (hseparator : c ∉ separator.toList) (h : ∀ text ∈ texts, c ∉ text.toList) :
    c ∉ (separator.intercalate texts).toList := by
  rw [String.toList_intercalate]
  intro hmem
  rcases mem_of_mem_intercalate hmem with hmem | ⟨piece, hpiece, hmem⟩
  · exact hseparator hmem
  · obtain ⟨text, htext, rfl⟩ := List.mem_map.mp hpiece
    exact h text htext hmem

/-- What a text does not hold is not in the indented text, if it is not added. -/
theorem notMem_indent {levels : Nat} {text : String} {c : Char} (hnewline : c ≠ '\n')
    (hblank : c ≠ ' ') (h : c ∉ text.toList) : c ∉ (indent levels text).toList := by
  rw [indent, String.toList_ofList]
  intro hmem
  rcases mem_of_mem_indentLines hmem with hmem | hmem | hmem
  · exact hnewline hmem
  · exact hblank hmem
  · exact h hmem

end GraphqlClient.Text
