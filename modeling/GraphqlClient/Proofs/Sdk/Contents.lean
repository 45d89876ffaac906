import Mathlib.Data.List.Basic
import GraphqlClient.Proofs.Fragments.Load
import GraphqlClient.Sdk.File

/-!
# Contents of a generated file

What a generation makes of its documents, said at once for all of them: the fragments and the named
operations of the documents in order, the declaration of each, and the blocks of the file. A file is
generated exactly when fragment names are distinct and the factory can be rendered.
-/

namespace GraphqlClient

/-- The named operations of a document, each as it is recorded and as it is written. -/
def SourceDocument.namedOperations (s : SourceDocument) : List (NamedOperation × Operation) :=
  s.document.filterMap fun
    | .operation o => (o.named? s.file).map (·, o)
    | _ => none

/-- The fragments of some documents, in order. -/
def loadedFragments (documents : List SourceDocument) : List LoadedFragment :=
  documents.flatMap SourceDocument.fragments

/-- The named operations of some documents, in order. -/
def namedOperations (documents : List SourceDocument) : List (NamedOperation × Operation) :=
  documents.flatMap SourceDocument.namedOperations

/-- The records of the named operations of some documents. -/
def operationRecords (settings : Settings) (documents : List SourceDocument) :
    List OperationRecord :=
  (namedOperations documents).map fun o => o.1.record settings

namespace Catalogue

/-- The declaration of a named operation. -/
def declareOperation (c : Catalogue) (o : NamedOperation × Operation) : Warned Declaration :=
  c.declare (o.1.record c.settings).names.document o.2.print (directSpreads o.2.selections)

/-- The declarations of the named operations of some documents. -/
def operationDeclarations (c : Catalogue) (documents : List SourceDocument) : List Declaration :=
  (namedOperations documents).map fun o => (c.declareOperation o).value

/-- The blocks of the file for some documents. -/
def blocks (c : Catalogue) (documents : List SourceDocument) (factory : String) : List String :=
  "\n".intercalate (c.imports clientImports) :: c.fragmentDeclarations.value.map Declaration.text ++
    (c.operationDeclarations documents).map Declaration.text ++ [factory]

/-- Sets in which the same of some names are loaded give the same declaration of what spreads these
names. -/
theorem declare_congr {settings : Settings} {loaded others : FragmentSet}
    (constant definition : String) {spreads : List String}
    (h : ∀ name ∈ spreads, loaded.contains name = others.contains name) :
    ((Catalogue.mk settings loaded).declare constant definition spreads).value =
      ((Catalogue.mk settings others).declare constant definition spreads).value := by
  rw [declare, declare, interpolated, interpolated, List.filter_congr h]

/-- The fragment declarations are those of the fragments in dependency order. -/
theorem fragmentDeclarations_value (c : Catalogue) :
    c.fragmentDeclarations.value = c.fragments.ordered.map fun f => (c.declareFragment f).value := by
  rw [fragmentDeclarations, List.map_map]
  rfl

/-- A visit declares the named operations of a document and nothing else. -/
theorem visit_value (c : Catalogue) (s : SourceDocument) :
    (c.visit s).value =
      s.namedOperations.map fun o => (o.1.record c.settings, (c.declareOperation o).value) := by
  rw [visit, outcomes, List.filterMap_map, SourceDocument.namedOperations, List.map_filterMap]
  refine List.filterMap_congr fun definition _ => ?_
  cases definition with
  | shorthand selections => rfl
  | fragment fragment => rfl
  | operation o =>
    simp only [Function.comp_apply, outcome]
    cases o.named? s.file <;> rfl

end Catalogue

namespace Draft

/-- Taking in operations appends their records and declarations. -/
theorem foldl_add (d : Draft) (declared : List (OperationRecord × Declaration)) :
    declared.foldl add d =
      ⟨d.catalogue, ⟨d.recording.records ++ declared.map Prod.fst⟩,
        d.declarations ++ declared.map Prod.snd⟩ := by
  induction declared generalizing d with
  | nil => simp
  | cons first others ih => simp [ih, add, Recording.build, Recording.record]

/-- Visiting documents appends the records and declarations of their named operations. -/
theorem visitAll_value (d : Draft) (documents : List SourceDocument) :
    (d.visitAll documents).value =
      ⟨d.catalogue, ⟨d.recording.records ++ operationRecords d.catalogue.settings documents⟩,
        d.declarations ++ d.catalogue.operationDeclarations documents⟩ := by
  induction documents generalizing d with
  | nil => simp [visitAll, operationRecords, Catalogue.operationDeclarations, namedOperations]
  | cons s documents ih =>
    rw [visitAll, ih, visit, foldl_add, Catalogue.visit_value]
    simp [operationRecords, Catalogue.operationDeclarations, namedOperations, Function.comp_def]

end Draft

/-- The draft of some documents, once their fragments are loaded. -/
theorem Draft.ofDocuments_value (settings : Settings) {documents : List SourceDocument}
    {fragments : FragmentSet} (h : FragmentSet.ofList (loadedFragments documents) = .ok fragments) :
    ∃ warnings, Draft.ofDocuments settings documents =
      .ok ⟨⟨⟨settings, fragments⟩, ⟨operationRecords settings documents⟩,
        (Catalogue.mk settings fragments).operationDeclarations documents⟩, warnings⟩ := by
  have hvalue := (ofCatalogue ⟨settings, fragments⟩).visitAll_value documents
  simp only [ofCatalogue, Recording.empty, List.nil_append] at hvalue
  refine ⟨((ofCatalogue ⟨settings, fragments⟩).visitAll documents).warnings, ?_⟩
  rw [loadedFragments] at h
  rw [ofDocuments, h, ← hvalue]
  rfl

/-- The file of a draft has the blocks of its documents. -/
theorem Draft.file_value (settings : Settings) (documents : List SourceDocument)
    (fragments : FragmentSet) :
    Draft.file ⟨⟨settings, fragments⟩, ⟨operationRecords settings documents⟩,
        (Catalogue.mk settings fragments).operationDeclarations documents⟩
        (Catalogue.mk settings fragments).fragmentDeclarations.value =
      (factoryText (operationRecords settings documents)).map fun factory =>
        joinBlocks ((Catalogue.mk settings fragments).blocks documents factory) := by
  change (factoryText (operationRecords settings documents) >>= _) = _
  cases factoryText (operationRecords settings documents) <;> rfl

/-- The outcome of a generation: a fragment of a taken name decides first, then an operation that
has no method. -/
theorem generateFile_value (settings : Settings) (documents : List SourceDocument) :
    (generateFile settings documents).value =
      match FragmentSet.ofList (loadedFragments documents) with
      | .error duplicate => .error (.duplicateFragment duplicate)
      | .ok fragments =>
        ((factoryText (operationRecords settings documents)).map fun factory =>
          joinBlocks ((Catalogue.mk settings fragments).blocks documents factory)).mapError
            .unsupportedOperation := by
  cases h : FragmentSet.ofList (loadedFragments documents) with
  | error duplicate =>
    have hdraft : Draft.ofDocuments settings documents = .error duplicate := by
      rw [loadedFragments] at h
      rw [Draft.ofDocuments, h]
      rfl
    rw [generateFile, hdraft]
  | ok fragments =>
    obtain ⟨warnings, hdraft⟩ := Draft.ofDocuments_value settings h
    rw [generateFile, hdraft]
    exact congrArg (Except.mapError GenerationError.unsupportedOperation)
      (Draft.file_value settings documents fragments)

/-- A file is generated exactly when fragment names are distinct and every operation has a method,
and then it has the blocks that the documents lead to. -/
theorem generateFile_eq_ok_iff {settings : Settings} {documents : List SourceDocument}
    {text : String} :
    (generateFile settings documents).value = .ok text ↔
      ∃ fragments factory, fragments.items = loadedFragments documents ∧
        factoryText (operationRecords settings documents) = .ok factory ∧
        joinBlocks ((Catalogue.mk settings fragments).blocks documents factory) = text := by
  rw [generateFile_value]
  constructor
  · intro h
    cases hs : FragmentSet.ofList (loadedFragments documents) with
    | error duplicate => simp [hs] at h
    | ok fragments =>
      rw [hs] at h
      cases hf : factoryText (operationRecords settings documents) with
      | error unsupported =>
        rw [hf] at h
        cases h
      | ok factory =>
        rw [hf] at h
        exact ⟨fragments, factory, FragmentSet.ofList_eq_ok_iff.mp hs, rfl, Except.ok.inj h⟩
  · rintro ⟨fragments, factory, hitems, hf, rfl⟩
    rw [FragmentSet.ofList_eq_ok_iff.mpr hitems, hf]
    rfl

end GraphqlClient
