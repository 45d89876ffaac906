import GraphqlClient.Proofs.Sdk.Failure

/-!
# Parts of a generated file

The import statements, the declarations of fragments, those of operations and the methods of the
factory, as the draft of some documents gives them. A generation fails when one of the parts is
missing and else puts them together.
-/

namespace GraphqlClient

/-- The texts of which a generated file is made. -/
structure FileParts where
  imports : List String
  fragments : List String
  operations : List String
  methods : List String

/-- The function that makes a client with some methods. -/
def factoryOf (methods : List String) : String :=
  "export function getSdk(client: ApolloClient<any>) \x7b\n" ++
    "  return \x7b\n" ++
    ",\n".intercalate (methods.map (Text.indent 2)) ++ "\n" ++
    "  \x7d;\n" ++
    "\x7d"

/-- The file that is made of some parts. -/
def FileParts.text (p : FileParts) : String :=
  joinBlocks ("\n".intercalate p.imports :: p.fragments ++ p.operations ++ [factoryOf p.methods])

/-- The parts of the file of a draft. -/
def Draft.parts (d : Draft) : Except UnsupportedOperation FileParts := do
  let methods ← methods d.operations
  return ⟨d.imports, d.catalogue.fragmentDeclarations.value.map Declaration.text,
    d.declarations.map Declaration.text, methods⟩

/-- The parts of the file for some documents. -/
def generateParts (settings : Settings) (documents : List SourceDocument) :
    Except GenerationError FileParts :=
  match Draft.ofDocuments settings documents with
  | .error duplicate => .error (.duplicateFragment duplicate)
  | .ok draft => draft.value.parts.mapError .unsupportedOperation

/-- The file of a draft is made of its parts. -/
theorem Draft.file_eq_parts (d : Draft) :
    d.file d.catalogue.fragmentDeclarations.value = d.parts.map FileParts.text := by
  have hrender : d.finish.render.1 = (methods d.operations).map factoryOf := by
    change (methods d.operations >>= _) = _
    cases methods d.operations <;> rfl
  rw [file, hrender, parts]
  cases methods d.operations <;> rfl

/-- A generated file is made of its parts, and without them there is none. -/
theorem generateFile_eq_parts (settings : Settings) (documents : List SourceDocument) :
    (generateFile settings documents).value =
      (generateParts settings documents).map FileParts.text := by
  rw [generateFile, generateParts]
  cases Draft.ofDocuments settings documents with
  | error duplicate => rfl
  | ok draft =>
    change (draft.value.file _).mapError _ = (draft.value.parts.mapError _).map _
    rw [draft.value.file_eq_parts]
    cases draft.value.parts <;> rfl

/-- The parts of a file for operations all of which have methods. -/
def Catalogue.parts (c : Catalogue) (documents : List SourceDocument) : FileParts where
  imports := c.imports clientImports
  fragments := c.fragments.ordered.map fun f => (c.declareFragment f).value.text
  operations := (namedOperations documents).map fun o => (c.declareOperation o).value.text
  methods := (namedOperations documents).map fun o => (o.1.record c.settings).summary.text

/-- The parts for documents whose fragments load and whose operations have methods. -/
theorem generateParts_eq_ok {settings : Settings} {documents : List SourceDocument}
    {fragments : FragmentSet} (hitems : fragments.items = loadedFragments documents)
    (hkinds : ∀ o ∈ namedOperations documents, o.1.kind ≠ .subscription) :
    generateParts settings documents =
      .ok ((Catalogue.mk settings fragments).parts documents) := by
  have hmethods : methods (operationRecords settings documents) =
      .ok ((operationRecords settings documents).map fun r => r.summary.text) :=
    methods_eq (List.forall_mem_map.mpr hkinds)
  obtain ⟨warnings, hdraft⟩ :=
    Draft.ofDocuments_value settings (FragmentSet.ofList_eq_ok_iff.mpr hitems)
  rw [generateParts, hdraft]
  change (methods (operationRecords settings documents) >>= _).mapError _ = _
  rw [hmethods, operationRecords, List.map_map]
  refine congrArg Except.ok ?_
  rw [Catalogue.fragmentDeclarations_value, Catalogue.operationDeclarations, List.map_map,
    List.map_map]
  rfl

/-- There are parts when fragment names are distinct and there is no named subscription, and then
they are those of the catalogue that has the fragments. -/
theorem generateParts_eq_ok_iff {settings : Settings} {documents : List SourceDocument}
    {p : FileParts} :
    generateParts settings documents = .ok p ↔
      ∃ fragments : FragmentSet, fragments.items = loadedFragments documents ∧
        (∀ o ∈ namedOperations documents, o.1.kind ≠ .subscription) ∧
        (Catalogue.mk settings fragments).parts documents = p := by
  constructor
  · intro h
    have htext : (generateFile settings documents).value = .ok p.text := by
      rw [generateFile_eq_parts, h]
      rfl
    obtain ⟨hnames, hkinds⟩ := generateFile_isOk_iff.mp ⟨_, htext⟩
    have hparts : generateParts settings documents =
        .ok ((Catalogue.mk settings ⟨_, hnames⟩).parts documents) := generateParts_eq_ok rfl hkinds
    exact ⟨⟨_, hnames⟩, rfl, hkinds, Except.ok.inj (hparts.symm.trans h)⟩
  · rintro ⟨fragments, hitems, hkinds, rfl⟩
    exact generateParts_eq_ok hitems hkinds

/-- A generated file is the text of its parts. -/
theorem generateFile_eq_ok_iff_parts {settings : Settings} {documents : List SourceDocument}
    {text : String} :
    (generateFile settings documents).value = .ok text ↔
      ∃ p, generateParts settings documents = .ok p ∧ p.text = text := by
  rw [generateFile_eq_parts, map_eq_ok_iff]

end GraphqlClient
