import GraphqlClient.Proofs.Declaration.Evaluation
import GraphqlClient.Proofs.Sdk.FragmentOrder

/-!
# Self-contained documents

When fragments do not spread themselves, directly or through others, and no constant is declared
twice, the declarations whose statements stand in a generated file can be evaluated from top to
bottom. Then every operation's constant holds its own definition and those of the fragments that it
needs, no more and no fewer.
-/

namespace GraphqlClient

/-- The constants that are declared for some documents. -/
def declaredConstants (settings : Settings) (documents : List SourceDocument) : List String :=
  (loadedFragments documents).map (fun f => Naming.fragmentVariable settings f.name) ++
    (namedOperations documents).map fun o =>
      (Naming.operationNames settings o.1.kind o.1.name).document

/-- A fragment that comes before another one in a list without repetition comes before the cut at
that one. -/
theorem mem_of_pair_sublist {f g : LoadedFragment} {before after : List LoadedFragment}
    (h : [g, f].Sublist (before ++ f :: after)) (hnodup : (before ++ f :: after).Nodup) :
    g ∈ before := by
  obtain ⟨head, tail, heq, hg, hf⟩ := List.cons_sublist_iff.mp h
  have hsplit : (head ++ tail).Nodup := heq ▸ hnodup
  have hfhead : f ∉ head := fun hmem =>
    (List.nodup_append.mp hsplit).2.2 f hmem f (List.singleton_sublist.mp hf) rfl
  rcases List.append_eq_append_iff.mp heq with ⟨middle, rfl, htail⟩ | ⟨middle, rfl, _⟩
  · cases middle with
    | nil => simpa using hg
    | cons x middle =>
      obtain ⟨rfl, _⟩ := List.cons.inj htail
      simp at hfhead
  · exact List.mem_append_left _ hg

namespace Catalogue

variable (c : Catalogue)

/-- The source of a named operation's declaration. -/
def operationSource (o : NamedOperation × Operation) : DeclarationSource :=
  ⟨(Naming.operationNames c.settings o.1.kind o.1.name).document, o.2.print, o.2.selections⟩

/-- The sources of the fragment declarations, in declaration order. -/
def fragmentSources : List DeclarationSource := c.fragments.ordered.map c.fragmentSource

/-- Fragments are declared as their sources. -/
theorem fragmentDeclarations_eq_map :
    c.fragmentDeclarations.value = c.fragmentSources.map c.declareSource := by
  rw [fragmentDeclarations_value, fragmentSources, List.map_map]
  rfl

/-- Named operations are declared as their sources. -/
theorem operationDeclarations_eq_map (documents : List SourceDocument) :
    c.operationDeclarations documents =
      ((namedOperations documents).map c.operationSource).map c.declareSource := by
  rw [operationDeclarations, List.map_map]
  rfl

/-- Every loaded fragment has its source among those of the fragments. -/
theorem fragmentSource_mem {g : LoadedFragment} (hg : g ∈ c.fragments.items) :
    c.fragmentSource g ∈ c.fragmentSources :=
  List.mem_map_of_mem (c.fragments.ordered_perm.mem_iff.mpr hg)

/-- Without cycles, what a fragment spreads has its source before that of the fragment. -/
theorem fragmentSources_first
    (hacyclic : ∀ f ∈ c.fragments.items,
      ¬ ReachedFrom c.fragments.items f.fragment.selections f)
    (left : List DeclarationSource) (s : DeclarationSource) (right : List DeclarationSource)
    (hsplit : c.fragmentSources = left ++ s :: right) (g : LoadedFragment)
    (hg : g ∈ c.fragments.items) (hspread : SpreadIn g.name s.selections) :
    c.fragmentSource g ∈ left := by
  obtain ⟨before, rest, horder, rfl, hrest⟩ := List.map_eq_append_iff.mp hsplit
  obtain ⟨f, after, rfl, rfl, _⟩ := List.map_eq_cons_iff.mp hrest
  have hperm := c.fragments.ordered_perm
  rw [horder] at hperm
  have hf : f ∈ c.fragments.items := hperm.mem_iff.mp (by simp)
  have hback : ¬ ReachedFrom c.fragments.items g.fragment.selections f := fun hback =>
    hacyclic f hf ((ReachedFrom.direct hg hspread).trans hback)
  have hfirst := c.fragments.sublist_ordered hf hg hspread hback
  rw [horder] at hfirst
  have hnodup := hperm.nodup_iff.mpr (List.Nodup.of_map _ c.fragments.distinct)
  exact List.mem_map_of_mem (mem_of_pair_sublist hfirst hnodup)

/-- The sources have the constants that are declared for the documents. -/
theorem constants_perm {documents : List SourceDocument}
    (hitems : c.fragments.items = loadedFragments documents) :
    ((c.fragmentSources ++ (namedOperations documents).map c.operationSource).map
      DeclarationSource.constant).Perm (declaredConstants c.settings documents) := by
  rw [List.map_append, fragmentSources, List.map_map, List.map_map, declaredConstants, ← hitems]
  exact (c.fragments.ordered_perm.map _).append_right _

/-- Without cycles and with distinct constants, all declarations evaluate as they should. -/
theorem evaluate_declarations {documents : List SourceDocument}
    (hitems : c.fragments.items = loadedFragments documents)
    (hacyclic : ∀ f ∈ c.fragments.items,
      ¬ ReachedFrom c.fragments.items f.fragment.selections f)
    (hconstants : (declaredConstants c.settings documents).Nodup) :
    ∃ bindings,
      evaluate [] (c.fragmentDeclarations.value ++ c.operationDeclarations documents) =
        some bindings ∧
      ∀ o ∈ namedOperations documents, (c.operationSource o).BoundIn c.fragments.items bindings := by
  have hnodup := (c.constants_perm hitems).nodup_iff.mpr hconstants
  have hfragments : (([] ++ c.fragmentSources).map DeclarationSource.constant).Nodup := by
    rw [List.map_append] at hnodup
    exact (List.nodup_append.mp hnodup).1
  obtain ⟨middle, hmiddle, hbound⟩ := c.evaluate_sources (b := []) hfragments (by simp)
    (c.fragmentSources_first hacyclic)
  obtain ⟨bindings, heval, hall⟩ := c.evaluate_sources (b := middle) hnodup hbound
    fun left s right _ g hg _ => List.mem_append_left _ (c.fragmentSource_mem hg)
  refine ⟨bindings, ?_, fun o ho => hall _ (List.mem_append_right _ (List.mem_map_of_mem ho))⟩
  rw [fragmentDeclarations_eq_map, operationDeclarations_eq_map, evaluate_append, hmiddle]
  exact heval

end Catalogue

/-- The file of a catalogue has the statements of its declarations between the import statements and
the factory. -/
theorem Catalogue.blocks_eq_statements (c : Catalogue) (documents : List SourceDocument)
    (factory : String) :
    c.blocks documents factory = "\n".intercalate (c.imports clientImports) ::
      (c.fragmentDeclarations.value ++ c.operationDeclarations documents).map
        (fun d => statement d.constant d.definition d.interpolated) ++ [factory] := by
  have htexts : Declaration.text = fun d => statement d.constant d.definition d.interpolated :=
    funext Declaration.text_eq_statement
  rw [blocks, htexts, List.map_append, List.cons_append]

/-- A generated file consists of import statements, the statements of some declarations, and a
factory. The declarations evaluate from top to bottom, and the value of each named operation is its
own definition followed by those of exactly the loaded fragments that are reached from it. -/
theorem generateFile_self_contained {settings : Settings} {documents : List SourceDocument}
    {text : String} (hok : (generateFile settings documents).value = .ok text)
    (hacyclic : ∀ f ∈ loadedFragments documents,
      ¬ ReachedFrom (loadedFragments documents) f.fragment.selections f)
    (hconstants : (declaredConstants settings documents).Nodup) :
    ∃ fragments declarations factory bindings, fragments.items = loadedFragments documents ∧
      declarations = (Catalogue.mk settings fragments).fragmentDeclarations.value ++
        (Catalogue.mk settings fragments).operationDeclarations documents ∧
      factoryText (operationRecords settings documents) = .ok factory ∧
      text = "\n\n".intercalate
        ("\n".intercalate ((Catalogue.mk settings fragments).imports clientImports) ::
          declarations.map (fun d => statement d.constant d.definition d.interpolated) ++
            [factory]) ++ "\n" ∧
      evaluate [] declarations = some bindings ∧
      ∀ o ∈ namedOperations documents, ∃ fs : List LoadedFragment,
        bindings.lookup (Naming.operationNames settings o.1.kind o.1.name).document =
            some (o.2.print :: fs.map (·.fragment.print)) ∧
          ∀ f, f ∈ fs ↔ ReachedFrom (loadedFragments documents) o.2.selections f := by
  obtain ⟨fragments, factory, hitems, hfactory, htext⟩ := generateFile_eq_ok_iff.mp hok
  rw [← hitems] at hacyclic ⊢
  obtain ⟨bindings, heval, hbound⟩ :=
    (Catalogue.mk settings fragments).evaluate_declarations hitems hacyclic hconstants
  rw [Catalogue.blocks_eq_statements] at htext
  exact ⟨fragments, _, factory, bindings, rfl, rfl, hfactory, htext.symm, heval, hbound⟩

/-- A rank that falls along spreads rules out cycles. -/
theorem not_reachedFrom_of_rank {loaded : List LoadedFragment} (rank : LoadedFragment → Nat)
    (hrank : ∀ f ∈ loaded, ∀ g ∈ loaded, g.name ∈ f.spreads → rank g < rank f) :
    ∀ f ∈ loaded, ¬ ReachedFrom loaded f.fragment.selections f := by
  intro f hf hcycle
  have hfall : ∀ g, ReachedFrom loaded f.fragment.selections g → rank g < rank f := by
    intro g hg
    induction hg with
    | @direct g hg hs => exact hrank f hf g hg ((f.mem_spreads _).mpr hs)
    | @through h g hreach hg hs ih =>
      have hstep : rank g < rank h :=
        hrank h hreach.mem_loaded g hg ((h.mem_spreads _).mpr hs)
      exact Nat.lt_trans hstep ih
  exact Nat.lt_irrefl _ (hfall f hcycle)

/-- A query of one file whose fragments stand in another, where the first spreads two that spread
the last. -/
def diamondDocuments : List SourceDocument :=
  [⟨[.operation ⟨.query, some "Find", [], [], [.spread "A" []], .start⟩], some "query.graphql"⟩,
    ⟨[("A", ["B", "C"]), ("B", ["D"]), ("C", ["D"]), ("D", [])].map fun (name, spreads) =>
      .fragment (LoadedFragment.spreading name spreads).fragment, some "fragments.graphql"⟩]

/-- The query's constant holds the last fragment although the query does not spread it itself. -/
theorem generateFile_self_contained_diamond :
    ∃ text, (generateFile ({} : Options).settings diamondDocuments).value = .ok text ∧
      ∃ fragments declarations factory bindings, fragments.items = loadedFragments diamondDocuments ∧
        declarations =
          (Catalogue.mk ({} : Options).settings fragments).fragmentDeclarations.value ++
            (Catalogue.mk ({} : Options).settings fragments).operationDeclarations
              diamondDocuments ∧
        factoryText (operationRecords ({} : Options).settings diamondDocuments) = .ok factory ∧
        text = "\n\n".intercalate
          ("\n".intercalate
              ((Catalogue.mk ({} : Options).settings fragments).imports clientImports) ::
            declarations.map (fun d => statement d.constant d.definition d.interpolated) ++
              [factory]) ++ "\n" ∧
        evaluate [] declarations = some bindings ∧
        ∀ o ∈ namedOperations diamondDocuments, ∃ fs : List LoadedFragment,
          bindings.lookup
              (Naming.operationNames ({} : Options).settings o.1.kind o.1.name).document =
              some (o.2.print :: fs.map (·.fragment.print)) ∧
            ∀ f, f ∈ fs ↔ ReachedFrom (loadedFragments diamondDocuments) o.2.selections f := by
  have hok : ∃ text, (generateFile ({} : Options).settings diamondDocuments).value = .ok text :=
    ⟨_, generateFile_eq_ok_iff.mpr
      ⟨⟨loadedFragments diamondDocuments, by decide⟩, _, rfl, rfl, rfl⟩⟩
  obtain ⟨text, htext⟩ := hok
  exact ⟨text, htext, generateFile_self_contained htext
    (not_reachedFrom_of_rank (fun f => f.spreads.length) (by decide)) (by decide)⟩

end GraphqlClient
