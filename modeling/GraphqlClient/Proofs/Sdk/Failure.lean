import GraphqlClient.Proofs.Fragments.Repeat
import GraphqlClient.Proofs.Sdk.Contents
import GraphqlClient.Proofs.Sdk.Readable

/-!
# Failing generations

A generation fails at the first fragment whose name was there before, or else at the first named
subscription, or else not at all. Operations without names have no part in it.
-/

namespace GraphqlClient

/-- A subscription has no method. -/
theorem OperationRecord.method_eq_error {r : OperationRecord}
    (h : r.operation.kind = .subscription) :
    r.method = .error ⟨.subscription, r.operation.name⟩ := by
  rw [method, h]
  rfl

/-- The methods of some operations are missing because of the first subscription among them. -/
theorem methods_eq_error_iff {records : List OperationRecord} {u : UnsupportedOperation} :
    methods records = .error u ↔
      ∃ r, records.find? (fun r => r.operation.kind = .subscription) = some r ∧
        u = ⟨.subscription, r.operation.name⟩ := by
  induction records with
  | nil => simp [methods]
  | cons r rs ih =>
    by_cases hr : r.operation.kind = .subscription
    · have herror : methods (r :: rs) = .error ⟨.subscription, r.operation.name⟩ := by
        rw [methods, r.method_eq_error hr]
        rfl
      rw [herror, List.find?_cons_of_pos (by simpa using hr)]
      simp [eq_comm]
    · have hrest : methods (r :: rs) = .error u ↔ methods rs = .error u := by
        rw [methods, OperationRecord.method_eq hr]
        cases methods rs <;> simp [bind, Except.bind, pure, Except.pure]
      rw [hrest, ih, List.find?_cons_of_neg (by simpa using hr)]

/-- A factory is missing because of the first subscription. -/
theorem factoryText_eq_error_iff {records : List OperationRecord} {u : UnsupportedOperation} :
    factoryText records = .error u ↔
      ∃ r, records.find? (fun r => r.operation.kind = .subscription) = some r ∧
        u = ⟨.subscription, r.operation.name⟩ := by
  rw [← methods_eq_error_iff, factoryText]
  cases methods records <;> simp [bind, Except.bind, pure, Except.pure]

/-- There is a factory when there is no subscription. -/
theorem factoryText_isOk_iff {records : List OperationRecord} :
    (∃ factory, factoryText records = .ok factory) ↔
      ∀ r ∈ records, r.operation.kind ≠ .subscription := by
  constructor
  · rintro ⟨factory, hfactory⟩ r hr hkind
    cases hfind : records.find? (fun r => r.operation.kind = .subscription) with
    | none => exact List.find?_eq_none.mp hfind r hr (decide_eq_true hkind)
    | some first =>
      exact nomatch hfactory.symm.trans (factoryText_eq_error_iff.mpr ⟨first, hfind, rfl⟩)
  · intro h
    rw [factoryText, methods_eq h]
    exact ⟨_, rfl⟩

/-- The records of some operations have the kinds and names of these. -/
theorem find?_operationRecords (settings : Settings) (documents : List SourceDocument) :
    (operationRecords settings documents).find? (fun r => r.operation.kind = .subscription) =
      ((namedOperations documents).find? fun o => o.1.kind = .subscription).map fun o =>
        o.1.record settings := by
  rw [operationRecords, List.find?_map]
  rfl

/-- A fragment of a taken name stops a generation before anything else does. -/
theorem generateFile_eq_duplicate_iff {settings : Settings} {documents : List SourceDocument}
    {duplicate : DuplicateFragment} :
    (generateFile settings documents).value = .error (.duplicateFragment duplicate) ↔
      FragmentSet.ofList (loadedFragments documents) = .error duplicate := by
  rw [generateFile_value]
  cases FragmentSet.ofList (loadedFragments documents) with
  | error e => simp
  | ok set =>
    cases factoryText (operationRecords settings documents) <;> simp [Except.map, Except.mapError]

/-- A missing factory stops a generation whose fragments could be loaded. -/
theorem generateFile_eq_unsupported_iff {settings : Settings} {documents : List SourceDocument}
    {u : UnsupportedOperation} :
    (generateFile settings documents).value = .error (.unsupportedOperation u) ↔
      (∃ set, FragmentSet.ofList (loadedFragments documents) = .ok set) ∧
        factoryText (operationRecords settings documents) = .error u := by
  rw [generateFile_value]
  cases FragmentSet.ofList (loadedFragments documents) with
  | error e => simp
  | ok set =>
    cases factoryText (operationRecords settings documents) <;> simp [Except.map, Except.mapError]

/-- Nothing else stops a generation. -/
theorem generateFile_isOk_iff {settings : Settings} {documents : List SourceDocument} :
    (∃ text, (generateFile settings documents).value = .ok text) ↔
      ((loadedFragments documents).map LoadedFragment.name).Nodup ∧
        ∀ o ∈ namedOperations documents, o.1.kind ≠ .subscription := by
  have hrecords : (∀ o ∈ namedOperations documents, o.1.kind ≠ .subscription) ↔
      ∃ factory, factoryText (operationRecords settings documents) = .ok factory := by
    rw [factoryText_isOk_iff, operationRecords, List.forall_mem_map]
    rfl
  rw [← FragmentSet.ofList_isOk_iff, hrecords, generateFile_value]
  cases FragmentSet.ofList (loadedFragments documents) with
  | error e => simp
  | ok set =>
    cases factoryText (operationRecords settings documents) <;> simp [Except.map, Except.mapError]

/-- Whether a definition is an operation without a name. -/
def Definition.isAnonymous : Definition → Bool
  | .shorthand _ => true
  | .operation o => o.name.isNone
  | .fragment _ => false

/-- A document without its anonymous operations. -/
def SourceDocument.withoutAnonymous (s : SourceDocument) : SourceDocument :=
  ⟨s.document.filter (! ·.isAnonymous), s.file⟩

/-- Anonymous operations are no fragments. -/
theorem SourceDocument.fragments_withoutAnonymous (s : SourceDocument) :
    s.withoutAnonymous.fragments = s.fragments := by
  rw [fragments, fragments, Document.fragments, Document.fragments, withoutAnonymous,
    List.filterMap_filter]
  refine congrArg _ (List.filterMap_congr fun definition _ => ?_)
  cases definition with
  | shorthand selections => rfl
  | operation o => cases hname : o.name <;> simp [Definition.isAnonymous, hname]
  | fragment fragment => rfl

/-- Anonymous operations are no named operations. -/
theorem SourceDocument.namedOperations_withoutAnonymous (s : SourceDocument) :
    s.withoutAnonymous.namedOperations = s.namedOperations := by
  rw [namedOperations, namedOperations, withoutAnonymous, List.filterMap_filter]
  refine List.filterMap_congr fun definition _ => ?_
  cases definition with
  | shorthand selections => rfl
  | operation o =>
    cases hname : o.name <;> simp [Definition.isAnonymous, Operation.named?, hname]
  | fragment fragment => rfl

/-- Documents keep their fragments when they lose their anonymous operations. -/
theorem loadedFragments_withoutAnonymous (documents : List SourceDocument) :
    loadedFragments (documents.map SourceDocument.withoutAnonymous) = loadedFragments documents := by
  rw [loadedFragments, List.flatMap_map]
  exact List.flatMap_congr fun s _ => s.fragments_withoutAnonymous

/-- Documents keep their named operations when they lose their anonymous ones. -/
theorem namedOperations_withoutAnonymous (documents : List SourceDocument) :
    namedOperations (documents.map SourceDocument.withoutAnonymous) = namedOperations documents := by
  rw [namedOperations, List.flatMap_map]
  exact List.flatMap_congr fun s _ => s.namedOperations_withoutAnonymous

/-- How a generation comes out. It fails with a fragment exactly when fragment names are repeated,
and then with the first one whose name was there before; it fails with an operation exactly when
fragment names are distinct and there are named subscriptions, and then with the first of these; and
otherwise it gives a text. Anonymous operations change nothing of this. -/
theorem generateFile_outcome (settings : Settings) (documents : List SourceDocument) :
    (∀ duplicate, (generateFile settings documents).value = .error (.duplicateFragment duplicate) ↔
      ∃ i j f g, FirstRepeat (loadedFragments documents) i j f g ∧
        duplicate = ⟨g.name, f.location, g.location⟩) ∧
    ((∃ duplicate, (generateFile settings documents).value =
        .error (.duplicateFragment duplicate)) ↔
      ¬ ((loadedFragments documents).map LoadedFragment.name).Nodup) ∧
    (∀ u, (generateFile settings documents).value = .error (.unsupportedOperation u) ↔
      ((loadedFragments documents).map LoadedFragment.name).Nodup ∧
        ∃ o, (namedOperations documents).find? (fun o => o.1.kind = .subscription) = some o ∧
          u = ⟨.subscription, o.1.name⟩) ∧
    ((∃ text, (generateFile settings documents).value = .ok text) ↔
      ((loadedFragments documents).map LoadedFragment.name).Nodup ∧
        ∀ o ∈ namedOperations documents, o.1.kind ≠ .subscription) ∧
    (generateFile settings (documents.map SourceDocument.withoutAnonymous)).value =
      (generateFile settings documents).value := by
  refine ⟨fun duplicate => ?repeated, ?distinct, fun u => ?subscription, generateFile_isOk_iff,
    ?anonymous⟩
  case repeated => rw [generateFile_eq_duplicate_iff, FragmentSet.ofList_eq_error_iff]
  case distinct =>
    rw [← FragmentSet.ofList_isOk_iff]
    simp only [generateFile_eq_duplicate_iff]
    cases FragmentSet.ofList (loadedFragments documents) <;> simp
  case subscription =>
    rw [generateFile_eq_unsupported_iff, FragmentSet.ofList_isOk_iff, factoryText_eq_error_iff,
      find?_operationRecords]
    simp [NamedOperation.record]
  case anonymous =>
    simp only [generateFile_value, operationRecords, Catalogue.blocks,
      Catalogue.operationDeclarations, loadedFragments_withoutAnonymous,
      namedOperations_withoutAnonymous]

end GraphqlClient
