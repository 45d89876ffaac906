import GraphqlClient.Sdk.Method
import GraphqlClient.Text.Indent

/-!
# The client factory

The function `getSdk`, with one method for each recorded operation. A factory is rendered at most
once: the first rendering, be it a text or an error, is kept and given again.
-/

namespace GraphqlClient

/-- The methods of some operations, or the first operation that has none. -/
def methods : List OperationRecord → Except UnsupportedOperation (List String)
  | [] => .ok []
  | r :: rs => do
    let first ← r.method
    let others ← methods rs
    return first :: others

/-- The text of the function that makes a client of some operations. -/
def factoryText (records : List OperationRecord) : Except UnsupportedOperation String := do
  let texts ← methods records
  return "export function getSdk(client: ApolloClient<any>) \x7b\n" ++
    "  return \x7b\n" ++
    ",\n".intercalate (texts.map (Text.indent 2)) ++ "\n" ++
    "  \x7d;\n" ++
    "\x7d"

/-- Recorded operations, and their rendering if there was one. -/
structure Factory where
  records : List OperationRecord
  rendered : Option (Except UnsupportedOperation String)

namespace Factory

/-- A factory that was not rendered. -/
def ofRecords (records : List OperationRecord) : Factory := ⟨records, none⟩

/-- The rendering, and the factory that keeps it. -/
def render (f : Factory) : Except UnsupportedOperation String × Factory :=
  match f.rendered with
  | some text => (text, f)
  | none => (factoryText f.records, { f with rendered := some (factoryText f.records) })

end Factory

end GraphqlClient
