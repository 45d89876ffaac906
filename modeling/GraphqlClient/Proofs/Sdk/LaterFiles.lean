import GraphqlClient.Proofs.Sdk.FragmentOrder
import GraphqlClient.Proofs.Sdk.Parts

/-!
# Files that come later

Files behind others leave what these generate as it was, and add to its end, as long as nothing in
the earlier files spreads a fragment of the later ones. The fragments of the later files may spread
those of the earlier ones: all of these are placed before the first of the later ones is entered.
-/

namespace GraphqlClient

/-- Parts each of which other parts begin with. -/
structure FileParts.IsPrefix (p q : FileParts) : Prop where
  imports : p.imports = q.imports
  fragments : p.fragments <+: q.fragments
  operations : p.operations <+: q.operations
  methods : p.methods <+: q.methods

/-- The fragments of later files come behind those of earlier ones. -/
theorem loadedFragments_append (documents later : List SourceDocument) :
    loadedFragments (documents ++ later) = loadedFragments documents ++ loadedFragments later :=
  List.flatMap_append

/-- The named operations of later files come behind those of earlier ones. -/
theorem namedOperations_append (documents later : List SourceDocument) :
    namedOperations (documents ++ later) = namedOperations documents ++ namedOperations later :=
  List.flatMap_append

/-- Further fragments of other names do not change whether a name is loaded. -/
theorem FragmentSet.contains_eq_of_append {loaded all : FragmentSet} {later : List LoadedFragment}
    (hitems : all.items = loaded.items ++ later) {name : String} (hname : ∀ g ∈ later, g.name ≠ name) :
    loaded.contains name = all.contains name := by
  have hlater : later.any (·.name = name) = false := by simpa using hname
  rw [contains, contains, hitems, List.any_append, hlater, Bool.or_false]

namespace Catalogue

variable {settings : Settings} {loaded all : FragmentSet} {later : List LoadedFragment}

/-- Further fragments do not change the declaration of what spreads none of them. -/
theorem declare_eq_of_append (hitems : all.items = loaded.items ++ later)
    (constant definition : String) {selections : List Selection}
    (hspreads : ∀ g ∈ later, ¬ SpreadIn g.name selections) :
    ((Catalogue.mk settings loaded).declare constant definition (directSpreads selections)).value =
      ((Catalogue.mk settings all).declare constant definition (directSpreads selections)).value := by
  refine declare_congr _ _ fun name hname => FragmentSet.contains_eq_of_append hitems ?_
  rintro g hg rfl
  exact hspreads g hg ((mem_directSpreads _ _).mp hname)

/-- The parts for some documents begin those for more documents whose fragments they do not
spread. -/
theorem parts_isPrefix {documents more : List SourceDocument}
    (hitems : all.items = loaded.items ++ later)
    (hfragments : ∀ f ∈ loaded.items, ∀ g ∈ later, ¬ SpreadIn g.name f.fragment.selections)
    (hoperations : ∀ o ∈ namedOperations documents, ∀ g ∈ later, ¬ SpreadIn g.name o.2.selections) :
    ((Catalogue.mk settings loaded).parts documents).IsPrefix
      ((Catalogue.mk settings all).parts (documents ++ more)) := by
  refine ⟨rfl, ?fragments, ?operations, ?methods⟩
  case fragments =>
    have hdeclared : loaded.ordered.map (fun f =>
          ((Catalogue.mk settings loaded).declareFragment f).value.text) =
        loaded.ordered.map fun f => ((Catalogue.mk settings all).declareFragment f).value.text := by
      refine List.map_congr_left fun f hf => congrArg Declaration.text ?_
      exact declare_eq_of_append hitems _ _ (hfragments f (loaded.ordered_perm.mem_iff.mp hf))
    rw [parts, parts, hdeclared]
    refine List.IsPrefix.map _ (FragmentSet.ordered_prefix hitems fun f hf g hg hspread => ?_)
    exact hfragments f hf g hg ((f.mem_spreads _).mp hspread)
  case operations =>
    have hdeclared : (namedOperations documents).map (fun o =>
          ((Catalogue.mk settings loaded).declareOperation o).value.text) =
        (namedOperations documents).map fun o =>
          ((Catalogue.mk settings all).declareOperation o).value.text := by
      refine List.map_congr_left fun o ho => congrArg Declaration.text ?_
      exact declare_eq_of_append hitems _ _ (hoperations o ho)
    rw [parts, parts, hdeclared, namedOperations_append, List.map_append]
    exact List.prefix_append _ _
  case methods =>
    simp only [parts, namedOperations_append, List.map_append]
    exact List.prefix_append _ _

end Catalogue

/-- Where later files complete a generated file, and no fragment and no named operation before them
spreads a fragment of theirs, the files before them generate a file as well. It has the same imports,
and what it declares and its methods are what the whole file begins its declarations and methods
with. -/
theorem generateFile_isPrefix (settings : Settings) {documents later : List SourceDocument}
    {text : String} (hok : (generateFile settings (documents ++ later)).value = .ok text)
    (hfragments : ∀ f ∈ loadedFragments documents, ∀ g ∈ loadedFragments later,
      ¬ SpreadIn g.name f.fragment.selections)
    (hoperations : ∀ o ∈ namedOperations documents, ∀ g ∈ loadedFragments later,
      ¬ SpreadIn g.name o.2.selections) :
    ∃ p q, (generateFile settings documents).value = .ok p.text ∧
      generateParts settings documents = .ok p ∧
      generateParts settings (documents ++ later) = .ok q ∧ q.text = text ∧ p.IsPrefix q := by
  obtain ⟨q, hq, hqtext⟩ := generateFile_eq_ok_iff_parts.mp hok
  obtain ⟨all, hall, hkinds, rfl⟩ := generateParts_eq_ok_iff.mp hq
  rw [namedOperations_append, List.forall_mem_append] at hkinds
  rw [loadedFragments_append] at hall
  have hnames : ((loadedFragments documents).map LoadedFragment.name).Nodup := by
    have hdistinct := all.distinct
    rw [hall, List.map_append] at hdistinct
    exact (List.nodup_append.mp hdistinct).1
  have hp : generateParts settings documents =
      .ok ((Catalogue.mk settings ⟨_, hnames⟩).parts documents) :=
    generateParts_eq_ok rfl hkinds.1
  exact ⟨_, _, generateFile_eq_ok_iff_parts.mpr ⟨_, hp, rfl⟩, hp, hq, hqtext,
    Catalogue.parts_isPrefix hall hfragments hoperations⟩

/-- A query of a fragment that spreads a name without fragment. -/
def earlierFile : SourceDocument :=
  ⟨[.operation ⟨.query, some "First", [], [], [.spread "B" []], .start⟩,
    .fragment (LoadedFragment.spreading "B" ["Missing"]).fragment], some "b.graphql"⟩

/-- Fragments in a cycle that spread the earlier one, and a query of them. -/
def laterFile : SourceDocument :=
  ⟨[.fragment (LoadedFragment.spreading "A" ["C", "B"]).fragment,
    .fragment (LoadedFragment.spreading "C" ["A"]).fragment,
    .operation ⟨.query, some "Second", [], [], [.spread "A" []], .start⟩], some "a.graphql"⟩

/-- A file behind another one may spread its fragment without moving it. -/
theorem generateFile_isPrefix_spread_back :
    ∃ text, (generateFile ({} : Options).settings ([earlierFile] ++ [laterFile])).value = .ok text ∧
      (∀ f ∈ loadedFragments [earlierFile], ∀ g ∈ loadedFragments [laterFile],
        ¬ SpreadIn g.name f.fragment.selections) ∧
      (∀ o ∈ namedOperations [earlierFile], ∀ g ∈ loadedFragments [laterFile],
        ¬ SpreadIn g.name o.2.selections) ∧
      ∃ p q, (generateFile ({} : Options).settings [earlierFile]).value = .ok p.text ∧
        generateParts ({} : Options).settings [earlierFile] = .ok p ∧
        generateParts ({} : Options).settings ([earlierFile] ++ [laterFile]) = .ok q ∧
        q.text = text ∧ p.IsPrefix q := by
  have hfragments : ∀ f ∈ loadedFragments [earlierFile], ∀ g ∈ loadedFragments [laterFile],
      ¬ SpreadIn g.name f.fragment.selections := by
    simp only [← mem_directSpreads]
    decide
  have hoperations : ∀ o ∈ namedOperations [earlierFile], ∀ g ∈ loadedFragments [laterFile],
      ¬ SpreadIn g.name o.2.selections := by
    simp only [← mem_directSpreads]
    decide
  obtain ⟨text, htext⟩ : ∃ text,
      (generateFile ({} : Options).settings ([earlierFile] ++ [laterFile])).value = .ok text :=
    generateFile_isOk_iff.mpr ⟨by decide, by decide⟩
  exact ⟨text, htext, hfragments, hoperations,
    generateFile_isPrefix ({} : Options).settings htext hfragments hoperations⟩

end GraphqlClient
