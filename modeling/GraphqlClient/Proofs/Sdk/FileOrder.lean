import GraphqlClient.Proofs.Sdk.FragmentOrder
import GraphqlClient.Proofs.Sdk.Parts

/-!
# The order of files

Files in another order lead to the same imports, declarations and methods, of which the last two may
come in another order. The order of the files decides where the walk along spreads starts and where
it cuts cycles, but what a declaration interpolates depends on the loaded names alone.
-/

namespace GraphqlClient

/-- Files in another order hold the same fragments. -/
theorem loadedFragments_perm {documents others : List SourceDocument}
    (h : documents.Perm others) : (loadedFragments documents).Perm (loadedFragments others) :=
  h.flatMap_right _

/-- Files in another order hold the same named operations. -/
theorem namedOperations_perm {documents others : List SourceDocument}
    (h : documents.Perm others) : (namedOperations documents).Perm (namedOperations others) :=
  h.flatMap_right _

/-- Which names are loaded does not depend on the order of the fragments. -/
theorem FragmentSet.contains_perm {loaded others : FragmentSet} (h : loaded.items.Perm others.items)
    (name : String) : loaded.contains name = others.contains name :=
  h.any_eq

/-- Fragments in another order are put into an order of the same fragments. -/
theorem FragmentSet.ordered_perm_ordered {loaded others : FragmentSet}
    (h : loaded.items.Perm others.items) : loaded.ordered.Perm others.ordered :=
  loaded.ordered_perm.trans (h.trans others.ordered_perm.symm)

/-- Parts with the same imports, and with the same declarations and methods up to their order. -/
structure FileParts.Reorders (p q : FileParts) : Prop where
  imports : p.imports = q.imports
  fragments : p.fragments.Perm q.fragments
  operations : p.operations.Perm q.operations
  methods : p.methods.Perm q.methods

/-- Fragments and operations in another order have the same parts in another order. -/
theorem Catalogue.parts_reorders (settings : Settings) {loaded others : FragmentSet}
    {documents others' : List SourceDocument} (hitems : loaded.items.Perm others.items)
    (hoperations : (namedOperations documents).Perm (namedOperations others')) :
    ((Catalogue.mk settings loaded).parts documents).Reorders
      ((Catalogue.mk settings others).parts others') := by
  have hcontains : ∀ name, loaded.contains name = others.contains name :=
    FragmentSet.contains_perm hitems
  have hfragment : ∀ f : LoadedFragment,
      ((Catalogue.mk settings loaded).declareFragment f).value =
        ((Catalogue.mk settings others).declareFragment f).value :=
    fun f => declare_congr _ _ fun name _ => hcontains name
  have hoperation : ∀ o : NamedOperation × Operation,
      ((Catalogue.mk settings loaded).declareOperation o).value =
        ((Catalogue.mk settings others).declareOperation o).value :=
    fun o => declare_congr _ _ fun name _ => hcontains name
  refine ⟨rfl, ?_, ?_, hoperations.map _⟩
  · simp only [parts, hfragment]
    exact (FragmentSet.ordered_perm_ordered hitems).map _
  · simp only [parts, hoperation]
    exact hoperations.map _

/-- Files in another order generate a file exactly when they do in the first one. The two files have
the same imports, and the same declarations and methods up to their order, also where fragments
spread each other in cycles. -/
theorem generateFile_perm (settings : Settings) {documents others : List SourceDocument}
    (h : documents.Perm others) :
    ((∃ text, (generateFile settings documents).value = .ok text) ↔
      ∃ text, (generateFile settings others).value = .ok text) ∧
    ∀ text text', (generateFile settings documents).value = .ok text →
      (generateFile settings others).value = .ok text' →
        ∃ p q, generateParts settings documents = .ok p ∧ p.text = text ∧
          generateParts settings others = .ok q ∧ q.text = text' ∧ p.Reorders q := by
  have hfragments := loadedFragments_perm h
  have hoperations := namedOperations_perm h
  constructor
  · rw [generateFile_isOk_iff, generateFile_isOk_iff, (hfragments.map _).nodup_iff]
    simp only [hoperations.mem_iff]
  · intro text text' htext htext'
    obtain ⟨p, hp, hptext⟩ := generateFile_eq_ok_iff_parts.mp htext
    obtain ⟨q, hq, hqtext⟩ := generateFile_eq_ok_iff_parts.mp htext'
    refine ⟨p, q, hp, hptext, hq, hqtext, ?_⟩
    obtain ⟨loaded, hloaded, _, rfl⟩ := generateParts_eq_ok_iff.mp hp
    obtain ⟨loaded', hloaded', _, rfl⟩ := generateParts_eq_ok_iff.mp hq
    exact Catalogue.parts_reorders settings (hloaded ▸ hloaded' ▸ hfragments) hoperations

/-- A query and a fragment that spreads one of another file. -/
def nodeFile : SourceDocument :=
  ⟨[.operation ⟨.query, some "Node", [], [], [.spread "A" []], .start⟩,
    .fragment (LoadedFragment.spreading "A" ["B"]).fragment], some "node.graphql"⟩

/-- A fragment that spreads the one of the first file back, and a mutation. -/
def linkFile : SourceDocument :=
  ⟨[.fragment (LoadedFragment.spreading "B" ["A", "Missing"]).fragment,
    .operation ⟨.mutation, some "link", [], [], [.spread "B" []], .start⟩], some "link.graphql"⟩

/-- Two files whose fragments spread each other can change places. -/
theorem generateFile_perm_cyclic :
    [nodeFile, linkFile].Perm [linkFile, nodeFile] ∧
      ∃ text text', (generateFile ({} : Options).settings [nodeFile, linkFile]).value = .ok text ∧
        (generateFile ({} : Options).settings [linkFile, nodeFile]).value = .ok text' ∧
        ∃ p q, generateParts ({} : Options).settings [nodeFile, linkFile] = .ok p ∧ p.text = text ∧
          generateParts ({} : Options).settings [linkFile, nodeFile] = .ok q ∧ q.text = text' ∧
          p.Reorders q := by
  have hperm : [nodeFile, linkFile].Perm [linkFile, nodeFile] := .swap _ _ _
  obtain ⟨hiff, hparts⟩ := generateFile_perm ({} : Options).settings hperm
  obtain ⟨text, htext⟩ : ∃ text,
      (generateFile ({} : Options).settings [nodeFile, linkFile]).value = .ok text :=
    generateFile_isOk_iff.mpr ⟨by decide, by decide⟩
  obtain ⟨text', htext'⟩ := hiff.mp ⟨text, htext⟩
  exact ⟨hperm, text, text', htext, htext', hparts text text' htext htext'⟩

end GraphqlClient
