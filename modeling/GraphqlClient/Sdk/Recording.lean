import GraphqlClient.Sdk.Factory
import GraphqlClient.Sdk.Imports

/-!
# Recordings

Operations are recorded one by one, by hand or in the course of a visit, until the recording is
finished and becomes a factory.
-/

namespace GraphqlClient

/-- The operations recorded so far, in order. -/
structure Recording where
  records : List OperationRecord

namespace Recording

/-- Nothing is recorded. -/
def empty : Recording := ⟨[]⟩

/-- Record an operation after the others. -/
def record (r : Recording) (operation : OperationRecord) : Recording :=
  ⟨r.records ++ [operation]⟩

/-- Record an operation that a visit comes to; it adds no text of its own. -/
def build (r : Recording) (operation : OperationRecord) : Option String × Recording :=
  (none, r.record operation)

/-- The import statements that a recording asks for. -/
def imports (_ : Recording) : List String := clientImports

/-- The factory of the recorded operations. -/
def finish (r : Recording) : Factory := .ofRecords r.records

end Recording

end GraphqlClient
