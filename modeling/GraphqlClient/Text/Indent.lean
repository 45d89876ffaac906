import GraphqlClient.Text.Lines

/-!
# Indentation

Every line of a text, the empty ones too, moved right by two blanks a level.
-/

namespace GraphqlClient.Text

/-- The blanks of a number of levels. -/
def indentation (levels : Nat) : List Char := List.replicate (2 * levels) ' '

/-- A text with every line indented. -/
def indentLines (levels : Nat) (text : List Char) : List Char :=
  ['\n'].intercalate ((splitOn '\n' text).map (indentation levels ++ ·))

/-- A string with every line indented. -/
def indent (levels : Nat) (text : String) : String :=
  String.ofList (indentLines levels text.toList)

end GraphqlClient.Text
