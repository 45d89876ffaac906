import GraphqlClient.Text.Blank

/-!
# Template literals

The text of a template literal: backslashes, backticks and the openings of holes are escaped, so
that the literal denotes the text again.
-/

namespace GraphqlClient.Template

/-- A text as it stands inside a template literal. -/
def escape : List Char → List Char
  | [] => []
  | '\\' :: cs => '\\' :: '\\' :: escape cs
  | '\x60' :: cs => '\\' :: '\x60' :: escape cs
  | '$' :: '\x7b' :: cs => '\\' :: '$' :: '\x7b' :: escape cs
  | c :: cs => c :: escape cs

/-- A hole that holds an identifier. -/
def hole (identifier : String) : String := "$\x7b" ++ identifier ++ "\x7d"

end GraphqlClient.Template
