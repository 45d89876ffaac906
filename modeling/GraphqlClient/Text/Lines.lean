/-!
# Lines of a text

Two ways to cut a text into lines. `splitOn` cuts at every separator, so that joining the pieces
gives the text back. `rows` counts a carriage return before the newline as part of the line end
and has no row after a final newline.
-/

namespace GraphqlClient.Text

/-- The pieces between occurrences of a separator; there is always at least one. -/
def splitOn (sep : Char) : List Char → List (List Char)
  | [] => [[]]
  | c :: cs =>
    if c = sep then [] :: splitOn sep cs
    else match splitOn sep cs with
      | [] => [[c]]
      | piece :: pieces => (c :: piece) :: pieces

/-- Drop one carriage return at the end of a line. -/
def dropReturn (line : List Char) : List Char :=
  if line.getLast? = some '\r' then line.dropLast else line

/-- Give up the carriage returns before newlines, and a last piece that is empty. -/
def closeRows : List (List Char) → List (List Char)
  | [] => []
  | [last] => if last.isEmpty then [] else [last]
  | line :: next :: lines => dropReturn line :: closeRows (next :: lines)

/-- The rows of a text, each ended by a newline, by a carriage return and a newline, or by the end. -/
def rows (text : List Char) : List (List Char) :=
  closeRows (splitOn '\n' text)

/-- A text without separators is one piece. -/
theorem splitOn_eq_singleton (sep : Char) (text : List Char) (h : sep ∉ text) :
    splitOn sep text = [text] := by
  induction text with
  | nil => rfl
  | cons c cs ih =>
    simp only [List.mem_cons, not_or] at h
    simp [splitOn, Ne.symm h.1, ih h.2]

/-- There is always a piece. -/
theorem splitOn_ne_nil (sep : Char) (text : List Char) : splitOn sep text ≠ [] := by
  cases text with
  | nil => simp [splitOn]
  | cons c cs =>
    simp only [splitOn]
    split
    · simp
    · split <;> simp

/-- Joining the pieces with the separator gives the text back. -/
theorem intercalate_splitOn (sep : Char) (text : List Char) :
    [sep].intercalate (splitOn sep text) = text := by
  induction text with
  | nil => rfl
  | cons c cs ih =>
    simp only [splitOn]
    split
    · next h =>
      cases hp : splitOn sep cs with
      | nil => exact absurd hp (splitOn_ne_nil sep cs)
      | cons piece pieces =>
        rw [hp] at ih
        simp [List.intercalate_cons_cons, ih, h]
    · cases hp : splitOn sep cs with
      | nil => exact absurd hp (splitOn_ne_nil sep cs)
      | cons piece pieces =>
        rw [hp] at ih
        cases pieces with
        | nil => simpa using ih
        | cons second rest => simpa [List.intercalate_cons_cons] using ih

end GraphqlClient.Text
