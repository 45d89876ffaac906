import GraphqlClient.Proofs.Declaration.Interpolation
import GraphqlClient.Proofs.Declaration.Scanner
import GraphqlClient.Proofs.Document.Names
import GraphqlClient.Proofs.Fragments.Walk
import GraphqlClient.Proofs.Sdk.Code
import GraphqlClient.Proofs.Sdk.Contents

/-!
# Templates of a generated file

A generated file is scanned from code to code, and what is found on the way is one template for
each declaration. Whatever a definition holds, its template stands for the printed definition and
the constants of the fragments that it spreads.
-/

namespace GraphqlClient

open Template (Scans Scanner)

/-- Fragments of documents that were read have names of name characters. -/
theorem nameCharacters_of_mem_loadedFragments {documents : List SourceDocument}
    (hnamed : ∀ s ∈ documents, ∀ d ∈ s.document, d.Named) :
    ∀ f ∈ loadedFragments documents, Naming.NameCharacters f.name.toList := by
  intro f hf
  obtain ⟨s, hs, hf⟩ := List.mem_flatMap.mp hf
  obtain ⟨fragment, hfragment, rfl⟩ := List.mem_map.mp hf
  obtain ⟨definition, hdefinition, heq⟩ := List.mem_filterMap.mp hfragment
  have hname := hnamed s hs definition hdefinition
  cases definition with
  | shorthand selections => cases heq
  | operation o => cases heq
  | fragment g =>
    cases heq
    exact hname.isNameRest

/-- Named operations of documents that were read have names of name characters. -/
theorem nameCharacters_of_mem_namedOperations {documents : List SourceDocument}
    (hnamed : ∀ s ∈ documents, ∀ d ∈ s.document, d.Named) :
    ∀ o ∈ namedOperations documents, Naming.NameCharacters o.1.name.toList := by
  intro o ho
  obtain ⟨s, hs, ho⟩ := List.mem_flatMap.mp ho
  obtain ⟨definition, hdefinition, heq⟩ := List.mem_filterMap.mp ho
  have hname := hnamed s hs definition hdefinition
  cases definition with
  | shorthand selections => cases heq
  | fragment g => cases heq
  | operation written =>
    obtain ⟨named, hrecorded, rfl⟩ := Option.map_eq_some_iff.mp heq
    obtain ⟨name, htext, rfl⟩ := Option.map_eq_some_iff.mp hrecorded
    exact (hname name htext).isNameRest

/-- Constants that a scanner reads as they are: in code that of a declaration, in holes those that
it interpolates. -/
def Declaration.PlainConstants (d : Declaration) : Prop :=
  IsPlain d.constant ∧ ∀ constant ∈ d.interpolated, IsPlain constant

/-- The template of a declaration. -/
def Declaration.template (d : Declaration) : List Template.Piece :=
  Template.denoted d.definition d.interpolated

/-- The texts of declarations with plain constants hold their templates. -/
theorem forall₂_scans {declarations : List Declaration}
    (h : ∀ d ∈ declarations, d.PlainConstants) :
    List.Forall₂ Scans (declarations.map Declaration.text)
      (declarations.map fun d => [d.template]) := by
  rw [List.forall₂_map_left_iff, List.forall₂_map_right_iff, List.forall₂_same]
  intro d hd
  obtain ⟨hconstant, hinterpolated⟩ := h d hd
  exact Template.scans_declaration d hconstant.1 fun constant hmem => (hinterpolated constant hmem).2

/-- A template that stands for a definition with some selections: a newline, the definition without
blanks at its end, and a newline and a hole with the constant of each loaded fragment that is
spread. -/
def Denotes (settings : Settings) (loaded : List LoadedFragment) (definition : String)
    (selections : List Selection) (template : List Template.Piece) : Prop :=
  ∃ fs : List LoadedFragment, fs.Nodup ∧ (∀ f, f ∈ fs ↔ f ∈ loaded ∧ SpreadIn f.name selections) ∧
    template = Template.denoted definition (fs.map fun f => Naming.fragmentVariable settings f.name)

namespace Catalogue

variable (c : Catalogue)

/-- The template of a declaration stands for what is declared. -/
theorem denotes_declare (constant definition : String) (selections : List Selection) :
    Denotes c.settings c.fragments.items definition selections
      (c.declare constant definition (directSpreads selections)).value.template := by
  refine ⟨c.fragments.spreadBy selections, c.fragments.nodup_spreadBy selections,
    fun f => FragmentSet.mem_spreadBy, ?_⟩
  rw [Declaration.template, declare, c.interpolated_directSpreads]

/-- Where affixes and names are plain, declarations have plain constants. -/
theorem plainConstants_declare (haffixes : ∀ affix ∈ c.settings.affixes, IsPlain affix)
    (hnames : ∀ f ∈ c.fragments.items, Naming.NameCharacters f.name.toList) {constant : String}
    (hconstant : IsPlain constant) (definition : String) (selections : List Selection) :
    (c.declare constant definition (directSpreads selections)).value.PlainConstants := by
  refine ⟨hconstant, ?_⟩
  rw [declare, c.interpolated_directSpreads]
  intro interpolated hmem
  obtain ⟨f, hf, rfl⟩ := List.mem_map.mp hmem
  exact isPlain_fragmentVariable haffixes (hnames f (FragmentSet.mem_spreadBy.mp hf).1)

/-- The declarations of a file, in the order in which they stand in it. -/
def declarations (documents : List SourceDocument) : List Declaration :=
  c.fragmentDeclarations.value ++ c.operationDeclarations documents

/-- Where affixes and names are plain, all declarations of a file have plain constants. -/
theorem plainConstants_of_mem_declarations {documents : List SourceDocument}
    (haffixes : ∀ affix ∈ c.settings.affixes, IsPlain affix)
    (hfragments : ∀ f ∈ c.fragments.items, Naming.NameCharacters f.name.toList)
    (hoperations : ∀ o ∈ namedOperations documents, Naming.NameCharacters o.1.name.toList) :
    ∀ d ∈ c.declarations documents, d.PlainConstants := by
  intro d hd
  rcases List.mem_append.mp hd with hd | hd
  · rw [fragmentDeclarations_value] at hd
    obtain ⟨f, hf, rfl⟩ := List.mem_map.mp hd
    have hname := hfragments f (c.fragments.ordered_perm.mem_iff.mp hf)
    exact c.plainConstants_declare haffixes hfragments (isPlain_fragmentVariable haffixes hname) _ _
  · obtain ⟨o, ho, rfl⟩ := List.mem_map.mp hd
    have hdocument := isPlain_of_mem_texts haffixes (hoperations o ho)
      (o.1.record c.settings).names.document (by simp [OperationRecord.texts])
    exact c.plainConstants_declare haffixes hfragments hdocument _ _

/-- The blocks of a file are scanned to the templates of its declarations. -/
theorem scans_blocks {documents : List SourceDocument} {factory : String}
    (himports : '\x60' ∉ ("\n".intercalate (c.imports clientImports)).toList)
    (hdeclarations : ∀ d ∈ c.declarations documents, d.PlainConstants)
    (hfactory : '\x60' ∉ factory.toList) :
    Scans (joinBlocks (c.blocks documents factory))
      ((c.declarations documents).map Declaration.template) := by
  have hblocks : List.Forall₂ Scans (c.blocks documents factory)
      ([] :: (c.declarations documents).map (fun d => [d.template]) ++ [[]]) := by
    have hall := List.rel_append (forall₂_scans hdeclarations)
      (.cons (.of_code hfactory) .nil)
    rw [declarations, List.map_append] at hall
    exact .cons (.of_code himports) hall
  have hfound : (c.declarations documents).map Declaration.template =
      ([] :: (c.declarations documents).map (fun d : Declaration => [d.template]) ++
        [[]]).flatten := by
    rw [List.map_eq_flatMap, List.flatMap_def]
    simp
  have hseparator : '\x60' ∉ "\n\n".toList := by decide
  have hend : Scans "\n" [] := .of_code (by decide)
  have hjoined := (Scans.intercalate hseparator hblocks).append hend
  rw [List.append_nil, ← hfound] at hjoined
  exact hjoined

end Catalogue

/-- A generated file is scanned from code to code. What is found is one template for each fragment,
in the order of the fragment declarations, and then one for each named operation. -/
theorem generateFile_templates (o : Options) {documents : List SourceDocument} {text : String}
    (hparsed : ∀ s ∈ documents, ∃ source, SourceDocument.ofText s.file source = .ok s)
    (haffixes : ∀ affix ∈ o.settings.affixes, IsPlain affix)
    (himport : ∀ source, o.gqlImport = some source → '\x60' ∉ source.toList)
    (hok : (generateFile o.settings documents).value = .ok text) :
    ∃ fragments : FragmentSet, fragments.items = loadedFragments documents ∧
      fragments.ordered.Perm (loadedFragments documents) ∧
      (Catalogue.mk o.settings fragments).fragmentDeclarations.value =
        fragments.ordered.map (fun f =>
          ((Catalogue.mk o.settings fragments).declareFragment f).value) ∧
      ∃ ofFragments ofOperations,
        Scanner.start.run text.toList = ⟨.code, [], ofFragments ++ ofOperations⟩ ∧
        List.Forall₂ (fun f => Denotes o.settings (loadedFragments documents) f.fragment.print
          f.fragment.selections) fragments.ordered ofFragments ∧
        List.Forall₂ (fun named => Denotes o.settings (loadedFragments documents) named.2.print
          named.2.selections) (namedOperations documents) ofOperations := by
  obtain ⟨fragments, factory, hitems, hfactory, rfl⟩ := generateFile_eq_ok_iff.mp hok
  have hnamed : ∀ s ∈ documents, ∀ d ∈ s.document, d.Named := by
    intro s hs
    obtain ⟨source, hsource⟩ := hparsed s hs
    exact SourceDocument.named_of_ofText hsource
  have hfragments := nameCharacters_of_mem_loadedFragments hnamed
  have hoperations := nameCharacters_of_mem_namedOperations hnamed
  rw [← hitems] at hfragments ⊢
  let c : Catalogue := ⟨o.settings, fragments⟩
  have himports : '\x60' ∉ ("\n".intercalate (c.imports clientImports)).toList := by
    refine Catalogue.backtick_notMem_imports (GqlImport.backtick_notMem_ofSource ?_)
    cases hsource : o.gqlImport with
    | none => decide
    | some source => exact himport source hsource
  have hmethods : '\x60' ∉ factory.toList := by
    refine backtick_notMem_factoryText hfactory fun r hr t ht => ?_
    obtain ⟨named, hmem, rfl⟩ := List.mem_map.mp hr
    exact (isPlain_of_mem_texts haffixes (hoperations named hmem) t ht).1
  have hscans := c.scans_blocks himports
    (c.plainConstants_of_mem_declarations haffixes hfragments hoperations) hmethods
  refine ⟨fragments, rfl, fragments.ordered_perm, c.fragmentDeclarations_value,
    c.fragmentDeclarations.value.map Declaration.template,
    (c.operationDeclarations documents).map Declaration.template, ?_, ?_, ?_⟩
  · rw [← List.map_append]
    exact hscans []
  · rw [c.fragmentDeclarations_value, List.map_map, List.forall₂_map_right_iff, List.forall₂_same]
    exact fun f _ => c.denotes_declare _ _ _
  · rw [Catalogue.operationDeclarations, List.map_map, List.forall₂_map_right_iff, List.forall₂_same]
    exact fun named _ => c.denotes_declare _ _ _

/-- What a text is read as names the file that it was read from. -/
theorem SourceDocument.ofText_of_mem_toOption {file : Option String} {text : String}
    {s : SourceDocument} (h : s ∈ (SourceDocument.ofText file text).toOption.toList) :
    SourceDocument.ofText s.file text = .ok s := by
  cases hdocument : Document.ofText text with
  | error position => simp [ofText, hdocument, Except.toOption] at h
  | ok document =>
    simp only [ofText, hdocument, Except.toOption, Option.toList_some, List.mem_singleton] at h
    rw [h, ofText, hdocument]

/-- A query with a loaded and an unknown spread, and with all that is escaped in a string of it. -/
def markedDocuments : List SourceDocument :=
  (SourceDocument.ofText none
    ("query Find($text: String = \"\x60 $\x7b a \x7d \\\\\x60\") \x7b ...A ...Missing \x7d " ++
      "fragment A on Node \x7b id \x7d")).toOption.toList

/-- The file of a query and a fragment has two templates, whatever the query holds. -/
theorem generateFile_templates_marked :
    (loadedFragments markedDocuments).length = 1 ∧ (namedOperations markedDocuments).length = 1 ∧
      ∃ text, (generateFile ({} : Options).settings markedDocuments).value = .ok text ∧
        ∃ fragments : FragmentSet, fragments.items = loadedFragments markedDocuments ∧
          fragments.ordered.Perm (loadedFragments markedDocuments) ∧
          (Catalogue.mk ({} : Options).settings fragments).fragmentDeclarations.value =
            fragments.ordered.map (fun f =>
              ((Catalogue.mk ({} : Options).settings fragments).declareFragment f).value) ∧
          ∃ ofFragments ofOperations,
            Scanner.start.run text.toList = ⟨.code, [], ofFragments ++ ofOperations⟩ ∧
            List.Forall₂ (fun f => Denotes ({} : Options).settings (loadedFragments markedDocuments)
              f.fragment.print f.fragment.selections) fragments.ordered ofFragments ∧
            List.Forall₂ (fun named =>
              Denotes ({} : Options).settings (loadedFragments markedDocuments) named.2.print
                named.2.selections) (namedOperations markedDocuments) ofOperations := by
  have hparsed : ∀ s ∈ markedDocuments, ∃ source, SourceDocument.ofText s.file source = .ok s :=
    fun s hs => ⟨_, SourceDocument.ofText_of_mem_toOption hs⟩
  have hsucceeds : (generateFile ({} : Options).settings markedDocuments).value.toBool = true := by
    decide +kernel
  cases htext : (generateFile ({} : Options).settings markedDocuments).value with
  | error e =>
    rw [htext] at hsucceeds
    cases hsucceeds
  | ok text =>
    exact ⟨by decide +kernel, by decide +kernel, text, rfl,
      generateFile_templates ({} : Options) hparsed (by decide) (by simp) htext⟩

end GraphqlClient
