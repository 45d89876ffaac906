import GraphqlClient.Proofs.Naming.Casing
import GraphqlClient.Proofs.Sdk.Failure
import GraphqlClient.Proofs.Sdk.SelfContained
import GraphqlClient.Proofs.Sdk.Templates

/-!
# Constants of a generated file

With the default affixes a fragment's constant is never that of an operation. So constants repeat
only where two operations or two fragments have names that are converted to one, and then these
names have one spelling.
-/

namespace GraphqlClient

/-- Constants are named without prefixes and with the default suffixes. -/
structure Settings.DefaultAffixes (s : Settings) : Prop where
  documentPrefix : s.documentVariablePrefix = ""
  documentSuffix : s.documentVariableSuffix = "Document"
  fragmentPrefix : s.fragmentVariablePrefix = ""
  fragmentSuffix : s.fragmentVariableSuffix = "FragmentDoc"

namespace Naming

/-- Different texts stay different between the same affixes. -/
theorem affixed_injective (before after : String) :
    Function.Injective fun text : String => before ++ text ++ after := by
  intro text text' h
  exact (String.append_right_inj before).mp ((String.append_left_inj after).mp h)

/-- A fragment's constant with the default suffix ends in another letter than an operation's. -/
theorem fragmentVariable_ne_document {s : Settings} (h : s.DefaultAffixes) (fragment : String)
    (kind : OperationKind) (operation : String) :
    fragmentVariable s fragment ≠ (operationNames s kind operation).document := by
  intro heq
  have hlast := congrArg (fun text : String => text.toList.getLast?) heq
  simp [fragmentVariable, operationNames, h.documentSuffix, h.fragmentSuffix,
    String.toList_append, List.getLast?_append] at hlast

/-- Names of different spellings are converted to different names. -/
theorem nodup_convert_of_spelling (s : Settings) {names : List String}
    (hnames : ∀ name ∈ names, NameCharacters name.toList)
    (hspelling : (names.map (spelling s)).Nodup) : (names.map (convert s)).Nodup := by
  have hkept : names.map (spelling s) = (names.map (convert s)).map (spelling s) := by
    rw [List.map_map]
    exact List.map_congr_left fun name hname => (spelling_convert s (hnames name hname)).symm
  rw [hkept] at hspelling
  exact hspelling.of_map

end Naming

/-- The converted names of the fragments of some documents. -/
def convertedFragments (s : Settings) (documents : List SourceDocument) : List String :=
  (loadedFragments documents).map fun f => Naming.convert s f.name

/-- The converted names of the named operations of some documents. -/
def convertedOperations (s : Settings) (documents : List SourceDocument) : List String :=
  (namedOperations documents).map fun o => Naming.convert s o.1.name

/-- Constants are distinct when those of fragments and those of operations are. -/
theorem nodup_declaredConstants_iff {s : Settings} (h : s.DefaultAffixes)
    (documents : List SourceDocument) :
    (declaredConstants s documents).Nodup ↔
      (convertedFragments s documents).Nodup ∧ (convertedOperations s documents).Nodup := by
  have hfragments : (loadedFragments documents).map (fun f => Naming.fragmentVariable s f.name) =
      (convertedFragments s documents).map fun text =>
        s.fragmentVariablePrefix ++ text ++ s.fragmentVariableSuffix := by
    rw [convertedFragments, List.map_map]
    rfl
  have hoperations : (namedOperations documents).map (fun o =>
        (Naming.operationNames s o.1.kind o.1.name).document) =
      (convertedOperations s documents).map fun text =>
        s.documentVariablePrefix ++ text ++ s.documentVariableSuffix := by
    rw [convertedOperations, List.map_map]
    rfl
  have hapart : ∀ a ∈ (loadedFragments documents).map (fun f =>
        Naming.fragmentVariable s f.name), ∀ b ∈ (namedOperations documents).map (fun o =>
          (Naming.operationNames s o.1.kind o.1.name).document), a ≠ b := by
    simp only [List.forall_mem_map]
    exact fun f _ o _ => Naming.fragmentVariable_ne_document h f.name o.1.kind o.1.name
  rw [declaredConstants, List.nodup_append, and_iff_left hapart, hfragments, hoperations,
    List.nodup_map_iff (Naming.affixed_injective _ _),
    List.nodup_map_iff (Naming.affixed_injective _ _)]

namespace Catalogue

variable (c : Catalogue)

/-- The constants of a file, in the order in which they are declared. -/
def constants (documents : List SourceDocument) : List String :=
  (c.declarations documents).map Declaration.constant

/-- The file declares the constants that are due for the documents. -/
theorem constants_perm_declared {documents : List SourceDocument}
    (hitems : c.fragments.items = loadedFragments documents) :
    (c.constants documents).Perm (declaredConstants c.settings documents) := by
  have hsources : c.constants documents =
      (c.fragmentSources ++ (namedOperations documents).map c.operationSource).map
        DeclarationSource.constant := by
    rw [constants, declarations, fragmentDeclarations_eq_map, operationDeclarations_eq_map,
      ← List.map_append, List.map_map]
    rfl
  rw [hsources]
  exact c.constants_perm hitems

end Catalogue

/-- The constants of a generated file. With the default affixes no fragment has the constant of an
operation, and constants are distinct exactly when no two operations and no two fragments have names
that are converted to one. So they are distinct when distinct names of operations are kept, and
otherwise when names are spelled apart: under Pascal case when they differ in more than case and, if
underscores are transformed, in more than case and underscores. -/
theorem generateFile_constants {s : Settings} {documents : List SourceDocument} {text : String}
    (haffixes : s.DefaultAffixes)
    (hparsed : ∀ d ∈ documents, ∃ source, SourceDocument.ofText d.file source = .ok d)
    (hnames : ((namedOperations documents).map fun o => o.1.name).Nodup)
    (hok : (generateFile s documents).value = .ok text) :
    ∃ fragments factory, fragments.items = loadedFragments documents ∧
      joinBlocks ("\n".intercalate ((Catalogue.mk s fragments).imports clientImports) ::
        ((Catalogue.mk s fragments).declarations documents).map Declaration.text ++ [factory]) =
          text ∧
      (∀ f ∈ loadedFragments documents, ∀ o ∈ namedOperations documents,
        Naming.fragmentVariable s f.name ≠
          (Naming.operationNames s o.1.kind o.1.name).document) ∧
      (((Catalogue.mk s fragments).constants documents).Nodup ↔
        (convertedFragments s documents).Nodup ∧ (convertedOperations s documents).Nodup) ∧
      (s.namingConvention = .keep → ((Catalogue.mk s fragments).constants documents).Nodup) ∧
      (((loadedFragments documents).map fun f => Naming.spelling s f.name).Nodup →
        ((namedOperations documents).map fun o => Naming.spelling s o.1.name).Nodup →
          ((Catalogue.mk s fragments).constants documents).Nodup) := by
  obtain ⟨fragments, factory, hitems, -, htext⟩ := generateFile_eq_ok_iff.mp hok
  have hnamed : ∀ d ∈ documents, ∀ definition ∈ d.document, definition.Named := by
    intro d hd
    obtain ⟨source, hsource⟩ := hparsed d hd
    exact SourceDocument.named_of_ofText hsource
  have hiff : ((Catalogue.mk s fragments).constants documents).Nodup ↔
      (convertedFragments s documents).Nodup ∧ (convertedOperations s documents).Nodup := by
    rw [((Catalogue.mk s fragments).constants_perm_declared hitems).nodup_iff]
    exact nodup_declaredConstants_iff haffixes documents
  have hspelled : (((loadedFragments documents).map LoadedFragment.name).map
      (Naming.spelling s)).Nodup →
      (((namedOperations documents).map fun o => o.1.name).map (Naming.spelling s)).Nodup →
        ((Catalogue.mk s fragments).constants documents).Nodup := by
    intro hf ho
    have hcf := Naming.nodup_convert_of_spelling s
      (List.forall_mem_map.mpr (nameCharacters_of_mem_loadedFragments hnamed)) hf
    have hco := Naming.nodup_convert_of_spelling s
      (List.forall_mem_map.mpr (nameCharacters_of_mem_namedOperations hnamed)) ho
    rw [List.map_map] at hcf hco
    exact hiff.mpr ⟨hcf, hco⟩
  refine ⟨fragments, factory, hitems, ?text, ?apart, hiff, ?kept, ?spelled⟩
  case text =>
    rw [← htext, Catalogue.blocks, Catalogue.declarations, List.map_append]
    rfl
  case apart =>
    exact fun f _ o _ => Naming.fragmentVariable_ne_document haffixes f.name o.1.kind o.1.name
  case kept =>
    intro hkeep
    have hspelling : Naming.spelling s = String.toList := by
      funext name
      rw [Naming.spelling, hkeep]
    have hinjective : Function.Injective (Naming.spelling s) := by
      rw [hspelling]
      exact fun _ _ => String.toList_injective
    exact hspelled ((hitems ▸ fragments.distinct).map hinjective) (hnames.map hinjective)
  case spelled =>
    rw [List.map_map, List.map_map] at hspelled
    exact hspelled

/-- Two queries of a fragment, with names that differ in more than case. -/
def apartDocuments : List SourceDocument :=
  (SourceDocument.ofText (some "queries.graphql")
    ("query getUser \x7b ...user \x7d query get_User \x7b ...user \x7d " ++
      "fragment user on User \x7b id \x7d")).toOption.toList

/-- The constants of names that are spelled apart are distinct. -/
theorem generateFile_constants_apart :
    ({} : Options).settings.DefaultAffixes ∧
      (∀ d ∈ apartDocuments, ∃ source, SourceDocument.ofText d.file source = .ok d) ∧
      ((namedOperations apartDocuments).map fun o => o.1.name) = ["getUser", "get_User"] ∧
      ∃ text, (generateFile ({} : Options).settings apartDocuments).value = .ok text ∧
        ∃ fragments : FragmentSet, fragments.items = loadedFragments apartDocuments ∧
          ((Catalogue.mk ({} : Options).settings fragments).constants apartDocuments).Nodup := by
  have haffixes : ({} : Options).settings.DefaultAffixes := ⟨rfl, rfl, rfl, rfl⟩
  have hparsed : ∀ d ∈ apartDocuments, ∃ source, SourceDocument.ofText d.file source = .ok d :=
    fun d hd => ⟨_, SourceDocument.ofText_of_mem_toOption hd⟩
  have hnames : ((namedOperations apartDocuments).map fun o => o.1.name) =
      ["getUser", "get_User"] := by decide +kernel
  have hok : ∃ text, (generateFile ({} : Options).settings apartDocuments).value = .ok text :=
    generateFile_isOk_iff.mpr ⟨by decide +kernel, by decide +kernel⟩
  obtain ⟨text, htext⟩ := hok
  obtain ⟨fragments, _, hitems, _, _, _, _, hspelled⟩ :=
    generateFile_constants haffixes hparsed (hnames ▸ by decide) htext
  exact ⟨haffixes, hparsed, hnames, text, htext, fragments, hitems,
    hspelled (by decide +kernel) (by decide +kernel)⟩

/-- Two queries with names that differ in case. -/
def casedDocuments : List SourceDocument :=
  (SourceDocument.ofText none
    "query getUser \x7b id \x7d query GetUser \x7b id \x7d").toOption.toList

/-- Names that differ in case are distinct, and yet Pascal case makes one constant of them. -/
theorem constants_repeated_cased :
    ({} : Options).settings.DefaultAffixes ∧
      (∀ d ∈ casedDocuments, ∃ source, SourceDocument.ofText d.file source = .ok d) ∧
      ((namedOperations casedDocuments).map fun o => o.1.name) = ["getUser", "GetUser"] ∧
      ∃ text fragments factory,
        (generateFile ({} : Options).settings casedDocuments).value = .ok text ∧
          fragments.items = loadedFragments casedDocuments ∧
          joinBlocks ((Catalogue.mk ({} : Options).settings fragments).blocks casedDocuments factory) =
            text ∧
          ¬ ((Catalogue.mk ({} : Options).settings fragments).constants casedDocuments).Nodup := by
  have hrepeated : ¬ (declaredConstants ({} : Options).settings casedDocuments).Nodup := by
    decide +kernel
  have hok : ∃ text, (generateFile ({} : Options).settings casedDocuments).value = .ok text :=
    generateFile_isOk_iff.mpr ⟨by decide +kernel, by decide +kernel⟩
  obtain ⟨text, htext⟩ := hok
  obtain ⟨fragments, factory, hitems, -, hblocks⟩ := generateFile_eq_ok_iff.mp htext
  have hperm := (Catalogue.mk ({} : Options).settings fragments).constants_perm_declared hitems
  exact ⟨⟨rfl, rfl, rfl, rfl⟩, fun d hd => ⟨_, SourceDocument.ofText_of_mem_toOption hd⟩,
    by decide +kernel, text, fragments, factory, htext, hitems, hblocks,
    fun hnodup => hrepeated (hperm.nodup_iff.mp hnodup)⟩

end GraphqlClient
