import GraphqlClient.Declaration.Template

/-!
# Declarations

A constant that holds a printed definition as a tagged template, followed by the constants of the
fragments that the definition spreads.
-/

namespace GraphqlClient

/-- The declaration of a constant. -/
structure Declaration where
  constant : String
  definition : String
  interpolated : List String
  deriving DecidableEq, Repr, Inhabited

namespace Declaration

/-- The definition without blanks at its end, escaped. -/
def body (d : Declaration) : String :=
  String.ofList (Template.escape (Text.trimEnd d.definition.toList))

/-- The holes, each on a line of its own. -/
def holes (d : Declaration) : String :=
  String.join (d.interpolated.map fun constant => "\n" ++ Template.hole constant)

/-- The statement that declares the constant. -/
def text (d : Declaration) : String :=
  "export const " ++ d.constant ++ " = gql`\n" ++ d.body ++ d.holes ++ "`;"

end Declaration

end GraphqlClient
