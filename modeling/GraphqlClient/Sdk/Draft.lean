import GraphqlClient.Sdk.Catalogue
import GraphqlClient.Sdk.Recording

/-!
# Drafts

A client in the making: documents are visited one after the other, and the declarations and
records of their named operations are kept in visit order.
-/

namespace GraphqlClient

/-- The declarations and records of the documents visited so far. -/
structure Draft where
  catalogue : Catalogue
  recording : Recording
  declarations : List Declaration

namespace Draft

/-- No document was visited. -/
def ofCatalogue (catalogue : Catalogue) : Draft := ⟨catalogue, .empty, []⟩

/-- Take in an operation and its declaration. -/
def add (d : Draft) (declared : OperationRecord × Declaration) : Draft :=
  { d with
    recording := (d.recording.build declared.1).2
    declarations := d.declarations ++ [declared.2] }

/-- Visit a document. -/
def visit (d : Draft) (s : SourceDocument) : Warned Draft :=
  let visited := d.catalogue.visit s
  ⟨visited.value.foldl add d, visited.warnings⟩

/-- Visit documents in order. -/
def visitAll (d : Draft) : List SourceDocument → Warned Draft
  | [] => ⟨d, []⟩
  | s :: ss =>
    let first := d.visit s
    let others := first.value.visitAll ss
    ⟨others.value, first.warnings ++ others.warnings⟩

/-- The operations recorded so far. -/
def operations (d : Draft) : List OperationRecord := d.recording.records

/-- The import statements of the draft's file. -/
def imports (d : Draft) : List String := d.catalogue.imports d.recording.imports

/-- The factory of the recorded operations. -/
def finish (d : Draft) : Factory := d.recording.finish

end Draft

end GraphqlClient
