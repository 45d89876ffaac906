import GraphqlClient.Proofs.Fragments.Walk
import GraphqlClient.Proofs.Sdk.Failure

/-!
# Definitions and the files they are written in

How definitions are laid out over files does not matter: where files begin and end, which paths they
have, how fragments and operations alternate and where anonymous operations stand. Fragments are
gathered before any operation is visited, and the files and places of definitions come into nothing
but error messages. So documents with the same fragments and the same named operations, each in the
same order, have the same outcome.
-/

namespace GraphqlClient

/-- A fragment wherever it is written. -/
def Fragment.unplaced (f : Fragment) : Fragment := { f with position := .start }

/-- An operation wherever it is written. -/
def Operation.unplaced (o : Operation) : Operation := { o with position := .start }

/-- The fragment definitions of some documents in order, wherever they are written. -/
def fragmentDefinitions (documents : List SourceDocument) : List Fragment :=
  (loadedFragments documents).map fun f => f.fragment.unplaced

/-- The definitions of the named operations of some documents in order, wherever they are written. -/
def operationDefinitions (documents : List SourceDocument) : List Operation :=
  (namedOperations documents).map fun o => o.2.unplaced

/-- A loaded fragment without file and place. -/
def LoadedFragment.unplaced (f : LoadedFragment) : LoadedFragment := ⟨f.fragment.unplaced, none⟩

/-- A named operation without file and place. -/
def NamedOperation.unplaced (o : NamedOperation) : NamedOperation :=
  { o with location := some ⟨none, .start⟩ }

/-- The record of an operation without file and place. -/
def OperationRecord.unplaced (r : OperationRecord) : OperationRecord :=
  { r with operation := r.operation.unplaced }

/-- The fragments of some documents are given by their definitions up to files and places. -/
theorem map_unplaced_loadedFragments (documents : List SourceDocument) :
    (loadedFragments documents).map LoadedFragment.unplaced =
      (fragmentDefinitions documents).map (⟨·, none⟩) := by
  rw [fragmentDefinitions, List.map_map]
  rfl

/-- A named operation is one that is written in some file. -/
theorem exists_named?_of_mem_namedOperations {documents : List SourceDocument}
    {o : NamedOperation × Operation} (h : o ∈ namedOperations documents) :
    ∃ file, o.2.named? file = some o.1 := by
  obtain ⟨s, _, hs⟩ := List.mem_flatMap.mp h
  obtain ⟨definition, _, heq⟩ := List.mem_filterMap.mp hs
  cases definition with
  | shorthand selections => cases heq
  | fragment f => cases heq
  | operation written =>
    obtain ⟨named, hnamed, rfl⟩ := Option.map_eq_some_iff.mp heq
    exact ⟨s.file, hnamed⟩

/-- The named operations of some documents are given by their definitions up to files and places. -/
theorem map_unplaced_namedOperations (documents : List SourceDocument) :
    (namedOperations documents).map (fun o => (o.1.unplaced, o.2.unplaced)) =
      (operationDefinitions documents).filterMap fun o => (o.named? none).map (·, o) := by
  rw [operationDefinitions, List.filterMap_map, ← List.filterMap_eq_map]
  refine List.filterMap_congr fun o ho => ?_
  obtain ⟨file, hnamed⟩ := exists_named?_of_mem_namedOperations ho
  obtain ⟨name, hname, hrecorded⟩ := Option.map_eq_some_iff.mp hnamed
  simp [← hrecorded, Operation.named?, Operation.unplaced, NamedOperation.unplaced, hname]

/-- No method tells where its operation is written. -/
theorem methods_map_unplaced (records : List OperationRecord) :
    methods (records.map OperationRecord.unplaced) = methods records := by
  induction records with
  | nil => rfl
  | cons r rs ih =>
    have hmethod : r.unplaced.method = r.method := rfl
    rw [List.map_cons, methods, methods, hmethod, ih]

/-- The fragment definitions of some documents give the names of their fragments. -/
theorem map_name_loadedFragments (documents : List SourceDocument) :
    (loadedFragments documents).map LoadedFragment.name =
      (fragmentDefinitions documents).map Fragment.name := by
  rw [fragmentDefinitions, List.map_map]
  rfl

/-- Which names are loaded is a matter of the names of the fragments. -/
theorem FragmentSet.contains_of_names {loaded others : FragmentSet}
    (h : loaded.items.map LoadedFragment.name = others.items.map LoadedFragment.name)
    (name : String) : loaded.contains name = others.contains name := by
  have hany : ∀ set : FragmentSet,
      set.contains name = (set.items.map LoadedFragment.name).any (· = name) := by
    intro set
    rw [contains, List.any_map]
    rfl
  rw [hany, hany, h]

section Same

variable {documents others : List SourceDocument}

/-- What does not depend on the places of operations is the same for the same definitions. -/
theorem map_namedOperations_congr {α : Type} {g : NamedOperation × Operation → α}
    (hg : ∀ o, g (o.1.unplaced, o.2.unplaced) = g o)
    (h : operationDefinitions documents = operationDefinitions others) :
    (namedOperations documents).map g = (namedOperations others).map g := by
  have hmap : ∀ ds : List SourceDocument, (namedOperations ds).map g =
      ((operationDefinitions ds).filterMap fun o => (o.named? none).map (·, o)).map g := by
    intro ds
    rw [← map_unplaced_namedOperations, List.map_map]
    exact List.map_congr_left fun o _ => (hg o).symm
  rw [hmap, hmap, h]

/-- The same operation definitions have the same factory, or none for the same reason. -/
theorem factoryText_congr (settings : Settings)
    (h : operationDefinitions documents = operationDefinitions others) :
    factoryText (operationRecords settings documents) =
      factoryText (operationRecords settings others) := by
  have hrecords : (operationRecords settings documents).map OperationRecord.unplaced =
      (operationRecords settings others).map OperationRecord.unplaced := by
    rw [operationRecords, operationRecords, List.map_map, List.map_map]
    exact map_namedOperations_congr (fun o => rfl) h
  rw [factoryText, factoryText, ← methods_map_unplaced, hrecords, methods_map_unplaced]

/-- The same definitions make the same blocks. -/
theorem Catalogue.blocks_congr (settings : Settings) {loaded loaded' : FragmentSet}
    (hloaded : loaded.items = loadedFragments documents)
    (hloaded' : loaded'.items = loadedFragments others)
    (hfragments : fragmentDefinitions documents = fragmentDefinitions others)
    (hoperations : operationDefinitions documents = operationDefinitions others)
    (factory : String) :
    (Catalogue.mk settings loaded).blocks documents factory =
      (Catalogue.mk settings loaded').blocks others factory := by
  have hnames : loaded.items.map LoadedFragment.name = loaded'.items.map LoadedFragment.name := by
    rw [hloaded, hloaded', map_name_loadedFragments, map_name_loadedFragments, hfragments]
  have hordered : loaded.ordered.map LoadedFragment.unplaced =
      loaded'.ordered.map LoadedFragment.unplaced := by
    have hname : ∀ f : LoadedFragment, f.unplaced.name = f.name := fun f => rfl
    have hspreads : ∀ f : LoadedFragment, f.unplaced.spreads = f.spreads := fun f => rfl
    refine FragmentSet.ordered_map hname hspreads ?_
    rw [hloaded, hloaded', map_unplaced_loadedFragments, map_unplaced_loadedFragments, hfragments]
  have hdeclare : ∀ constant definition spreads,
      ((Catalogue.mk settings loaded).declare constant definition spreads).value =
        ((Catalogue.mk settings loaded').declare constant definition spreads).value :=
    fun constant definition spreads =>
      declare_congr constant definition fun name _ => FragmentSet.contains_of_names hnames name
  have hfragment : (Catalogue.mk settings loaded).fragmentDeclarations.value =
      (Catalogue.mk settings loaded').fragmentDeclarations.value := by
    let declared := fun f => ((Catalogue.mk settings loaded').declareFragment f).value
    -- A fragment is declared as it is without file and place.
    have hunplaced : ∀ fs : List LoadedFragment,
        fs.map declared = (fs.map LoadedFragment.unplaced).map declared := by
      intro fs
      rw [List.map_map]
      rfl
    calc (Catalogue.mk settings loaded).fragmentDeclarations.value
      _ = loaded.ordered.map declared := by
        rw [fragmentDeclarations_value]
        exact List.map_congr_left fun f _ => hdeclare _ _ _
      _ = (loaded'.ordered.map LoadedFragment.unplaced).map declared := by
        rw [hunplaced, hordered]
      _ = (Catalogue.mk settings loaded').fragmentDeclarations.value := by
        rw [← hunplaced, fragmentDeclarations_value]
  have hoperation : (Catalogue.mk settings loaded).operationDeclarations documents =
      (Catalogue.mk settings loaded').operationDeclarations others := by
    simp only [operationDeclarations, declareOperation, hdeclare]
    exact map_namedOperations_congr (fun o => rfl) hoperations
  rw [blocks, blocks, hfragment, hoperation]
  rfl

/-- The same definitions load, or fail to load with the same name. -/
theorem ofList_loadedFragments_congr
    (hfragments : fragmentDefinitions documents = fragmentDefinitions others) :
    (∃ loaded loaded', FragmentSet.ofList (loadedFragments documents) = .ok loaded ∧
        FragmentSet.ofList (loadedFragments others) = .ok loaded') ∨
      ∃ d d', FragmentSet.ofList (loadedFragments documents) = .error d ∧
        FragmentSet.ofList (loadedFragments others) = .error d' ∧ d.name = d'.name := by
  have hnames : (loadedFragments documents).map LoadedFragment.name =
      (loadedFragments others).map LoadedFragment.name := by
    rw [map_name_loadedFragments, map_name_loadedFragments, hfragments]
  cases h : FragmentSet.ofList (loadedFragments documents) with
  | error d =>
    obtain ⟨d', hd', hname⟩ := FragmentSet.ofList_eq_error_of_names hnames h
    exact Or.inr ⟨d, d', rfl, hd', hname⟩
  | ok loaded =>
    have hdistinct := FragmentSet.ofList_isOk_iff.mp ⟨loaded, h⟩
    obtain ⟨loaded', hloaded'⟩ := FragmentSet.ofList_isOk_iff.mpr (hnames ▸ hdistinct)
    exact Or.inl ⟨loaded, loaded', rfl, hloaded'⟩

end Same

/-- Outcomes of generations that are the same but for the locations of repeated fragments. -/
inductive SameOutcome : Except GenerationError String → Except GenerationError String → Prop
  | text (text : String) : SameOutcome (.ok text) (.ok text)
  | duplicate {d d' : DuplicateFragment} (h : d.name = d'.name) :
      SameOutcome (.error (.duplicateFragment d)) (.error (.duplicateFragment d'))
  | unsupported (u : UnsupportedOperation) :
      SameOutcome (.error (.unsupportedOperation u)) (.error (.unsupportedOperation u))

/-- Documents with the same fragments in order and the same named operations in order generate the
same text, or fail with the same error up to its locations, however the definitions are laid out. -/
theorem generateFile_layout (settings : Settings) {documents others : List SourceDocument}
    (hfragments : fragmentDefinitions documents = fragmentDefinitions others)
    (hoperations : operationDefinitions documents = operationDefinitions others) :
    SameOutcome (generateFile settings documents).value (generateFile settings others).value := by
  rw [generateFile_value, generateFile_value, factoryText_congr settings hoperations]
  rcases ofList_loadedFragments_congr hfragments with
    ⟨loaded, loaded', hloaded, hloaded'⟩ | ⟨d, d', hd, hd', hname⟩
  · have hblocks := Catalogue.blocks_congr settings (FragmentSet.ofList_eq_ok_iff.mp hloaded)
      (FragmentSet.ofList_eq_ok_iff.mp hloaded') hfragments hoperations
    rw [hloaded, hloaded']
    simp only [hblocks]
    cases factoryText (operationRecords settings others) with
    | error u => exact .unsupported u
    | ok factory => exact .text _
  · rw [hd, hd']
    exact .duplicate hname

/-- A file with everything in it, the query before the fragments. -/
def wholeFile : SourceDocument :=
  ⟨[.shorthand [.field none "id" [] [] []],
    .operation ⟨.query, some "Find", [], [], [.spread "A" []], ⟨1, 8⟩⟩,
    .fragment ⟨"A", "Node", [], [.spread "B" []], ⟨2, 1⟩⟩,
    .fragment ⟨"B", "Node", [], [.spread "A" []], ⟨3, 1⟩⟩], some "all.graphql"⟩

/-- The same definitions in three files, the query behind the fragments. -/
def splitFiles : List SourceDocument :=
  [⟨[.fragment ⟨"A", "Node", [], [.spread "B" []], ⟨4, 3⟩⟩], none⟩,
    ⟨[.operation ⟨.subscription, none, [], [], [.spread "A" []], ⟨1, 1⟩⟩,
      .fragment ⟨"B", "Node", [], [.spread "A" []], ⟨7, 1⟩⟩], some "b.graphql"⟩,
    ⟨[.operation ⟨.query, some "Find", [], [], [.spread "A" []], ⟨1, 1⟩⟩], some "find.graphql"⟩]

/-- One file and its three parts generate the same. -/
theorem generateFile_layout_split :
    fragmentDefinitions [wholeFile] = fragmentDefinitions splitFiles ∧
      operationDefinitions [wholeFile] = operationDefinitions splitFiles ∧
      (∃ text, (generateFile ({} : Options).settings [wholeFile]).value = .ok text) ∧
      SameOutcome (generateFile ({} : Options).settings [wholeFile]).value
        (generateFile ({} : Options).settings splitFiles).value := by
  have hfragments : fragmentDefinitions [wholeFile] = fragmentDefinitions splitFiles := rfl
  have hoperations : operationDefinitions [wholeFile] = operationDefinitions splitFiles := rfl
  exact ⟨hfragments, hoperations, generateFile_isOk_iff.mpr ⟨by decide, by decide⟩,
    generateFile_layout ({} : Options).settings hfragments hoperations⟩

end GraphqlClient
