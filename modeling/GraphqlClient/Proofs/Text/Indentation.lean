import Mathlib.Data.List.Basic
import GraphqlClient.Proofs.Text.Lines

/-!
# Levels of indentation

Indentation moves the lines of a text one by one. So a text keeps its lines, levels add up, and a
text is got back by taking the blanks off every line, wherever its newlines stand.
-/

namespace GraphqlClient.Text

/-- The lines of a text; behind a last newline there is an empty one. -/
def lines (text : String) : List (List Char) := text.toList.splitOn '\n'

/-- Take a number of blanks off every line of a text, if every line starts with them. -/
def outdent (blanks : Nat) (text : String) : Option String := do
  let rests ← (lines text).mapM (·.dropPrefix? (List.replicate blanks ' '))
  return String.ofList (['\n'].intercalate rests)

/-- Lines are free of newlines. -/
theorem newline_notMem_lines {text : String} {line : List Char} (h : line ∈ lines text) :
    '\n' ∉ line := by
  rw [lines, ← splitOn_eq] at h
  exact notMem_of_mem_splitOn h

/-- A text is its lines with newlines between them. -/
theorem intercalate_lines (text : String) : ['\n'].intercalate (lines text) = text.toList :=
  List.intercalate_splitOn '\n'

/-- Texts with the same lines are the same. -/
theorem lines_injective : Function.Injective lines := by
  intro a b h
  rw [← String.toList_inj, ← intercalate_lines, h, intercalate_lines]

/-- Lines that are joined are the lines of the joined text. -/
theorem lines_intercalate {rows : List (List Char)} (hne : rows ≠ [])
    (h : ∀ row ∈ rows, '\n' ∉ row) : lines (String.ofList (['\n'].intercalate rows)) = rows := by
  rw [lines, String.toList_ofList, List.splitOn_intercalate '\n' h hne]

/-- The lines of an indented text are those of the text, each of them indented. -/
theorem lines_indent (levels : Nat) (text : String) :
    lines (indent levels text) = (lines text).map (indentation levels ++ ·) := by
  have hnewline : ∀ row ∈ (lines text).map (indentation levels ++ ·), '\n' ∉ row := by
    intro row hrow
    obtain ⟨line, hline, rfl⟩ := List.mem_map.mp hrow
    simp [indentation, newline_notMem_lines hline]
  have hne : (lines text).map (indentation levels ++ ·) ≠ [] := by simp [lines]
  rw [indent, indentLines, splitOn_eq]
  exact lines_intercalate hne hnewline

/-- The blanks of some levels and those of more levels. -/
theorem indentation_append (m n : Nat) : indentation m ++ indentation n = indentation (m + n) := by
  rw [indentation, indentation, List.replicate_append_replicate, ← Nat.mul_add, indentation]

/-- Indentation by some levels and then by more is indentation by all of them. -/
theorem indent_indent (m n : Nat) (text : String) :
    indent n (indent m text) = indent (m + n) text := by
  apply lines_injective
  rw [lines_indent, lines_indent, lines_indent, List.map_map]
  refine List.map_congr_left fun line _ => ?_
  rw [Function.comp_apply, ← List.append_assoc, indentation_append, Nat.add_comm n m]

/-- A prefix can be dropped from all of some texts if they are what it is put before. -/
theorem mapM_dropPrefix?_eq_some_iff {fixed : List Char} {texts rests : List (List Char)} :
    texts.mapM (·.dropPrefix? fixed) = some rests ↔ texts = rests.map (fixed ++ ·) := by
  induction texts generalizing rests with
  | nil => cases rests <;> simp
  | cons text texts ih =>
    rw [List.mapM_cons]
    cases rests with
    | nil => simp [Option.bind_eq_some_iff]
    | cons rest rests => simp [Option.bind_eq_some_iff, ih, List.dropPrefix?_eq_some_iff]

/-- The blanks of some levels can be taken off a text if it is one that is indented by them. -/
theorem outdent_eq_some_iff {levels : Nat} {indented text : String} :
    outdent (2 * levels) indented = some text ↔ indented = indent levels text := by
  rw [outdent, Option.bind_eq_bind, Option.bind_eq_some_iff]
  constructor
  · rintro ⟨rests, hrests, htext⟩
    have hlines : lines indented = rests.map (indentation levels ++ ·) :=
      mapM_dropPrefix?_eq_some_iff.mp hrests
    have hne : rests ≠ [] := fun h => by simp [lines, h] at hlines
    have hnewline : ∀ rest ∈ rests, '\n' ∉ rest := fun rest hrest hmem =>
      newline_notMem_lines (hlines ▸ List.mem_map_of_mem hrest) (List.mem_append_right _ hmem)
    apply lines_injective
    rw [lines_indent, ← Option.some.inj htext, lines_intercalate hne hnewline, hlines]
  · rintro rfl
    refine ⟨lines text, mapM_dropPrefix?_eq_some_iff.mpr (lines_indent levels text), ?_⟩
    rw [intercalate_lines, String.ofList_toList]
    rfl

/-- Indentation keeps the number of lines. It is undone by taking two blanks a level off every line,
and by that only the text itself is got back. Levels add up. -/
theorem indent_reversible_additive (m n : Nat) (text : String) :
    (lines (indent n text)).length = (lines text).length ∧
    (∀ indented, outdent (2 * n) indented = some text ↔ indented = indent n text) ∧
    indent n (indent m text) = indent (m + n) text :=
  ⟨by rw [lines_indent, List.length_map], fun _ => outdent_eq_some_iff, indent_indent m n text⟩

end GraphqlClient.Text
