import GraphqlClient.Document.Reader
import GraphqlClient.Text.Quoted

/-!
# Source documents

A document with the path of the file it came from, if it came from one, and the places in it that
messages name.
-/

namespace GraphqlClient

/-- A place in a file, or in a text that has no file. -/
structure Location where
  file : Option String
  position : Position
  deriving DecidableEq, Repr, Inhabited

/-- The text `path:line:column`. -/
def Location.text (l : Location) : String :=
  l.file.getD "<document>" ++ ":" ++ l.position.text

/-- A document and its file. -/
structure SourceDocument where
  document : Document
  file : Option String
  deriving Inhabited, Repr

/-- What is said of a query text that cannot be read past a position. -/
def queryFault (p : Position) : String := "query parse error: Parse error at " ++ p.text

/-- A text that is no document. -/
structure DocumentError where
  file : Option String
  position : Position
  deriving DecidableEq, Repr

/-- The wording of an error in a document. -/
def DocumentError.message (e : DocumentError) : String :=
  let file := match e.file with
    | none => "None"
    | some path => "Some(" ++ Text.quoted path ++ ")"
  "Error parsing executable document (file: " ++ file ++ "): " ++ queryFault e.position

/-- Read the text of a file. -/
def SourceDocument.ofText (file : Option String) (text : String) :
    Except DocumentError SourceDocument :=
  match Document.ofText text with
  | .ok document => .ok ⟨document, file⟩
  | .error position => .error ⟨file, position⟩

/-- The variables that a text defines where it stands after the name of a query. -/
def variablesOfText (text : String) : Except Position (List VariableDefinition) := do
  match ← Document.ofText ("query Q" ++ text ++ " \x7b a \x7d") with
  | .operation o :: _ => return o.variableDefinitions
  | _ => return []

end GraphqlClient
