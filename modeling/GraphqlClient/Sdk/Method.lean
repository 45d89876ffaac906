import GraphqlClient.Sdk.Operation

/-!
# Client methods

The method of the generated client that runs an operation. Queries and mutations have one;
subscriptions cannot be run by a method.
-/

namespace GraphqlClient

/-- An operation that no method can run. -/
structure UnsupportedOperation where
  kind : OperationKind
  name : String
  deriving DecidableEq, Repr, Inhabited

/-- The wording of an operation that is not supported. -/
def UnsupportedOperation.message (u : UnsupportedOperation) : String :=
  "unsupported operation: " ++ u.kind.keyword ++ " (operation `" ++ u.name ++ "`)"

/-- The client's method that an operation is handed to. -/
inductive ClientVerb where
  | query
  | mutate
  deriving DecidableEq, Repr, Inhabited

namespace ClientVerb

/-- The verb as it is called. -/
def text : ClientVerb → String
  | .query => "query"
  | .mutate => "mutate"

/-- The verb for an operation of a kind. -/
def ofOperation (kind : OperationKind) (name : String) : Except UnsupportedOperation ClientVerb :=
  match kind with
  | .query => .ok .query
  | .mutation => .ok .mutate
  | .subscription => .error ⟨kind, name⟩

end ClientVerb

namespace OperationRecord

/-- The mark of a parameter that may be left out. -/
def optionalMark (r : OperationRecord) : String :=
  if areOptional r.operation.variableDefinitions then "?" else ""

/-- The line that keeps queries from being answered by a cache. -/
def fetchPolicy (r : OperationRecord) : String :=
  if r.operation.kind = .query then "\n    fetchPolicy: 'network-only'," else ""

/-- The text of the method that runs the operation. -/
def method (r : OperationRecord) : Except UnsupportedOperation String := do
  let verb ← ClientVerb.ofOperation r.operation.kind r.operation.name
  let types := r.names.resultType ++ ", " ++ r.names.variablesType
  return r.operation.name ++ "(variables" ++ r.optionalMark ++ ": " ++ r.names.variablesType ++
    "): Promise<FetchResult<" ++ r.names.resultType ++ ">> \x7b\n" ++
    "  return client." ++ verb.text ++ "<" ++ types ++ ">(\x7b\n" ++
    "    " ++ r.names.operationType ++ ": " ++ r.names.document ++ ",\n" ++
    "    variables," ++ r.fetchPolicy ++ "\n" ++
    "  \x7d);\n" ++
    "\x7d"

end OperationRecord

end GraphqlClient
