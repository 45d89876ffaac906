import GraphqlClient.Declaration.Basic
import GraphqlClient.Proofs.Declaration.Escape

/-!
# Statements

How a declaration is spelled, told from outside: by replacements over the whole definition and by one
line for each constant that stands in a hole.
-/

namespace GraphqlClient

/-- A definition as it stands in a template: without blanks at its end, and with backslashes, then
backticks, and last the openings of holes replaced. -/
def writtenDefinition (definition : String) : String :=
  String.ofList <| Template.replace ['$', '{'] ['\\', '$', '{'] <|
    Template.replace ['\x60'] ['\\', '\x60'] <|
      Template.replace ['\\'] ['\\', '\\'] (Text.trimEnd definition.toList)

/-- The statement that declares a constant: a tagged template with a definition, followed by a line
with a hole for each constant that is interpolated. -/
def statement (constant definition : String) (interpolated : List String) : String :=
  "export const " ++ constant ++ " = gql`\n" ++ writtenDefinition definition ++
    String.join (interpolated.map fun other => "\n" ++ ("$\x7b" ++ other ++ "\x7d")) ++ "`;"

/-- The text of a declaration is the statement that declares its constant. -/
theorem Declaration.text_eq_statement (d : Declaration) :
    d.text = statement d.constant d.definition d.interpolated := by
  have hbody : d.body = writtenDefinition d.definition :=
    congrArg String.ofList (Template.escape_eq_replace _)
  exact congrArg
    (fun body => "export const " ++ d.constant ++ " = gql`\n" ++ body ++ d.holes ++ "`;") hbody

/-- A statement with all that is escaped in its definition, and with one hole. -/
example : statement "A" "\x60\\$\x7b \n" ["B"] =
    "export const A = gql`\n\\`\\\\\\$\x7b\n$\x7bB\x7d`;" := by
  decide +kernel

end GraphqlClient
