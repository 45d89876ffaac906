import GraphqlClient.Document.Source
import GraphqlClient.Naming.Identifier

/-!
# Operation records

A named operation with what the generated client needs to know of it, and the record of one under
the identifiers generated for it.
-/

namespace GraphqlClient

/-- A named operation; one that no document defines has no location. -/
structure NamedOperation where
  kind : OperationKind
  name : String
  variableDefinitions : List VariableDefinition
  location : Option Location
  deriving Inhabited, Repr, BEq

/-- A named operation and its identifiers. -/
structure OperationRecord where
  operation : NamedOperation
  names : OperationNames
  deriving Inhabited, Repr, BEq

/-- The named operation that an operation of a file is, unless it is anonymous. -/
def Operation.named? (file : Option String) (o : Operation) : Option NamedOperation :=
  o.name.map fun name => ⟨o.kind, name, o.variableDefinitions, some ⟨file, o.position⟩⟩

/-- The record of an operation under some settings. -/
def NamedOperation.record (s : Settings) (o : NamedOperation) : OperationRecord :=
  ⟨o, Naming.operationNames s o.kind o.name⟩

end GraphqlClient
