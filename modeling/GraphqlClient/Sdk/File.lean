import GraphqlClient.Sdk.Draft

/-!
# Generated files

The whole file for some documents: imports, the declarations of fragments and operations, and the
client factory, as blocks with an empty line between them and a newline at the end.
-/

namespace GraphqlClient

/-- Why no file can be generated. -/
inductive GenerationError where
  | duplicateFragment (duplicate : DuplicateFragment)
  | unsupportedOperation (operation : UnsupportedOperation)
  deriving DecidableEq, Repr

/-- The wording of a failed generation. -/
def GenerationError.message : GenerationError → String
  | .duplicateFragment duplicate => duplicate.message
  | .unsupportedOperation operation => operation.message

/-- Blocks of text, an empty line between them and a newline at the end. -/
def joinBlocks (blocks : List String) : String := "\n\n".intercalate blocks ++ "\n"

/-- The draft of some documents, from which all fragments are loaded first. -/
def Draft.ofDocuments (settings : Settings) (documents : List SourceDocument) :
    Except DuplicateFragment (Warned Draft) := do
  let fragments ← FragmentSet.ofList (documents.flatMap SourceDocument.fragments)
  return (Draft.ofCatalogue ⟨settings, fragments⟩).visitAll documents

/-- The file of a finished draft. -/
def Draft.file (d : Draft) (fragments : List Declaration) : Except UnsupportedOperation String := do
  let factory ← d.finish.render.1
  return joinBlocks
    ("\n".intercalate d.imports :: fragments.map Declaration.text ++
      d.declarations.map Declaration.text ++ [factory])

/-- The file for some documents, and the warnings on the way. -/
def generateFile (settings : Settings) (documents : List SourceDocument) :
    Warned (Except GenerationError String) :=
  match Draft.ofDocuments settings documents with
  | .error duplicate => ⟨.error (.duplicateFragment duplicate), []⟩
  | .ok draft =>
    let fragments := draft.value.catalogue.fragmentDeclarations
    ⟨(draft.value.file fragments.value).mapError .unsupportedOperation,
      draft.warnings ++ fragments.warnings⟩

end GraphqlClient
