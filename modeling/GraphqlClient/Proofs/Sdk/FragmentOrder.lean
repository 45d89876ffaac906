import GraphqlClient.Proofs.Declaration.Interpolation
import GraphqlClient.Proofs.Declaration.Statement
import GraphqlClient.Proofs.Fragments.Dependencies
import GraphqlClient.Proofs.Fragments.Search
import GraphqlClient.Proofs.Sdk.Contents

/-!
# Order of the fragment declarations

For any fragments of distinct names, whatever they spread, the search behind their declarations
ends, every fragment is declared once, and a fragment that does not lead back to one that spreads
it is declared before that one.
-/

namespace GraphqlClient

/-- A fragment that spreads some names and selects nothing else. -/
def LoadedFragment.spreading (name : String) (spreads : List String) : LoadedFragment :=
  ⟨⟨name, "Node", [], spreads.map (.spread · []), .start⟩, none⟩

/-- Two fragments that spread each other, and one that is spread beside a name that is not loaded. -/
def cyclicFragments : List LoadedFragment :=
  [.spreading "A" ["B"], .spreading "B" ["A", "C", "Missing"], .spreading "C" []]

/-- The declarations of fragments tell which fragments they declare, each by its constant, its printed
definition and its statement, in the order in which they are placed. -/
theorem Catalogue.fragmentDeclarations_map (c : Catalogue) :
    c.fragmentDeclarations.value.map Declaration.constant =
        c.fragments.ordered.map (fun f => Naming.fragmentVariable c.settings f.name) ∧
      c.fragmentDeclarations.value.map Declaration.definition =
        c.fragments.ordered.map (fun f => f.fragment.print) ∧
      c.fragmentDeclarations.value.map Declaration.text =
        c.fragments.ordered.map fun f =>
          statement (Naming.fragmentVariable c.settings f.name) f.fragment.print
            ((c.fragments.spreadBy f.fragment.selections).map fun g =>
              Naming.fragmentVariable c.settings g.name) := by
  rw [fragmentDeclarations_value, List.map_map, List.map_map, List.map_map]
  refine ⟨rfl, rfl, List.map_congr_left fun f _ => ?_⟩
  rw [Function.comp_apply, Declaration.text_eq_statement, declareFragment_value]

/-- On any spread graph nested calls of the search are well founded and calls have one result; the
search from all names places every name once, and the fragments of these names are declared, each
under its own constant and with its own definition. -/
theorem fragmentDeclarations_perm (settings : Settings) (fragments : List LoadedFragment)
    (hnames : (fragments.map LoadedFragment.name).Nodup) :
    ∃ set, FragmentSet.ofList fragments = .ok set ∧ WellFounded (Calls set) ∧
      (∀ names s, ∃! u, Search set names s u) ∧
      ∃ u order, Search set (fragments.map LoadedFragment.name) .start u ∧
        u.placed = order.map LoadedFragment.name ∧ u.placed.filterMap set.find? = order ∧
        order.Perm fragments ∧
        (Catalogue.mk settings set).fragmentDeclarations.value =
          order.map (fun f => ((Catalogue.mk settings set).declareFragment f).value) ∧
        (Catalogue.mk settings set).fragmentDeclarations.value.map Declaration.constant =
          order.map (fun f => Naming.fragmentVariable settings f.name) ∧
        (Catalogue.mk settings set).fragmentDeclarations.value.map Declaration.definition =
          order.map (fun f => f.fragment.print) ∧
        (Catalogue.mk settings set).fragmentDeclarations.value.map Declaration.text =
          order.map fun f => statement (Naming.fragmentVariable settings f.name) f.fragment.print
            ((set.spreadBy f.fragment.selections).map fun g =>
              Naming.fragmentVariable settings g.name) := by
  let set : FragmentSet := ⟨fragments, hnames⟩
  have hunique : ∀ names s, ∃! u, Search set names s u := by
    intro names s
    obtain ⟨u, hu⟩ := Search.returns set names s
    exact ⟨u, hu, fun v hv => hv.result_unique hu⟩
  obtain ⟨u, hu, hplaced, hfind⟩ := set.search_ordered
  exact ⟨set, FragmentSet.ofList_eq_ok_iff.mpr rfl, calls_wellFounded set, hunique, u, set.ordered,
    hu, hplaced, hfind, set.ordered_perm, Catalogue.fragmentDeclarations_value _,
    Catalogue.fragmentDeclarations_map _⟩

/-- Fragments in a cycle are declared once each. -/
theorem fragmentDeclarations_perm_cyclic :
    (cyclicFragments.map LoadedFragment.name).Nodup ∧
      ∃ set, FragmentSet.ofList cyclicFragments = .ok set ∧ WellFounded (Calls set) ∧
        (∀ names s, ∃! u, Search set names s u) ∧
        ∃ u order, Search set (cyclicFragments.map LoadedFragment.name) .start u ∧
          u.placed = order.map LoadedFragment.name ∧ u.placed.filterMap set.find? = order ∧
          order.Perm cyclicFragments ∧
          (Catalogue.mk ({} : Options).settings set).fragmentDeclarations.value =
            order.map (fun f =>
              ((Catalogue.mk ({} : Options).settings set).declareFragment f).value) ∧
          ((Catalogue.mk ({} : Options).settings set).fragmentDeclarations.value.map
            Declaration.constant).Perm ["AFragmentDoc", "BFragmentDoc", "CFragmentDoc"] := by
  have hnames : (cyclicFragments.map LoadedFragment.name).Nodup := by decide
  obtain ⟨set, hset, hcalls, hunique, u, order, hsearch, hplaced, hfind, hperm, hvalue, hconstants, -⟩ :=
    fragmentDeclarations_perm ({} : Options).settings cyclicFragments hnames
  have hvariables : cyclicFragments.map (fun f =>
      Naming.fragmentVariable ({} : Options).settings f.name) =
        ["AFragmentDoc", "BFragmentDoc", "CFragmentDoc"] := by decide +kernel
  refine ⟨hnames, set, hset, hcalls, hunique, u, order, hsearch, hplaced, hfind, hperm, hvalue, ?_⟩
  rw [hconstants, ← hvariables]
  exact hperm.map _

/-- A list in which one of two fragments comes before the other can be cut at both. -/
theorem eq_append_of_pair_sublist {f g : LoadedFragment} {order : List LoadedFragment}
    (h : [g, f].Sublist order) :
    ∃ before between after, order = before ++ g :: (between ++ f :: after) := by
  obtain ⟨head, tail, rfl, hg, hf⟩ := List.cons_sublist_iff.mp h
  obtain ⟨before, between, rfl⟩ := List.append_of_mem hg
  obtain ⟨between', after, rfl⟩ := List.append_of_mem (List.singleton_sublist.mp hf)
  exact ⟨before, between ++ between', after, by simp⟩

/-- A fragment is declared behind each loaded fragment that it spreads and that does not lead back
to it, whatever cycles and unknown spreads there are beside them. -/
theorem fragmentDeclarations_dependencies_first (settings : Settings)
    {fragments : List LoadedFragment} (hnames : (fragments.map LoadedFragment.name).Nodup)
    {f g : LoadedFragment} (hf : f ∈ fragments) (hg : g ∈ fragments)
    (hspread : SpreadIn g.name f.fragment.selections)
    (hback : ¬ ReachedFrom fragments g.fragment.selections f) :
    ∃ set, FragmentSet.ofList fragments = .ok set ∧ ∃ before between after,
      (before ++ g :: (between ++ f :: after)).Perm fragments ∧
      (Catalogue.mk settings set).fragmentDeclarations.value =
        (before ++ g :: (between ++ f :: after)).map (fun h =>
          ((Catalogue.mk settings set).declareFragment h).value) ∧
      ∀ h : LoadedFragment, ((Catalogue.mk settings set).declareFragment h).value =
        ⟨Naming.fragmentVariable settings h.name, h.fragment.print,
          (set.spreadBy h.fragment.selections).map fun other =>
            Naming.fragmentVariable settings other.name⟩ := by
  let set : FragmentSet := ⟨fragments, hnames⟩
  obtain ⟨before, between, after, horder⟩ :=
    eq_append_of_pair_sublist (set.sublist_ordered hf hg hspread hback)
  refine ⟨set, FragmentSet.ofList_eq_ok_iff.mpr rfl, before, between, after, ?_, ?_,
    Catalogue.declareFragment_value _⟩
  · exact horder ▸ set.ordered_perm
  · rw [Catalogue.fragmentDeclarations_value, ← horder]

/-- A fragment without spreads leads nowhere. -/
theorem not_reachedFrom_nil {loaded : List LoadedFragment} {f : LoadedFragment} :
    ¬ ReachedFrom loaded [] f := by
  intro h
  obtain ⟨g, _, hg, _⟩ := reachedFrom_iff.mp h
  cases hg

/-- A fragment in a cycle is declared behind one outside of it. -/
theorem fragmentDeclarations_dependencies_first_cyclic :
    ¬ ReachedFrom cyclicFragments (LoadedFragment.spreading "C" []).fragment.selections
        (.spreading "B" ["A", "C", "Missing"]) ∧
      ∃ set, FragmentSet.ofList cyclicFragments = .ok set ∧ ∃ before between after,
        (before ++ .spreading "C" [] ::
          (between ++ .spreading "B" ["A", "C", "Missing"] :: after)).Perm cyclicFragments ∧
        (Catalogue.mk ({} : Options).settings set).fragmentDeclarations.value =
          (before ++ .spreading "C" [] ::
            (between ++ .spreading "B" ["A", "C", "Missing"] :: after)).map (fun h =>
              ((Catalogue.mk ({} : Options).settings set).declareFragment h).value) ∧
        ∀ h : LoadedFragment,
          ((Catalogue.mk ({} : Options).settings set).declareFragment h).value =
            ⟨Naming.fragmentVariable ({} : Options).settings h.name, h.fragment.print,
              (set.spreadBy h.fragment.selections).map fun other =>
                Naming.fragmentVariable ({} : Options).settings other.name⟩ :=
  have hnames : (cyclicFragments.map LoadedFragment.name).Nodup := by decide
  ⟨not_reachedFrom_nil,
    fragmentDeclarations_dependencies_first ({} : Options).settings hnames
      (by simp [cyclicFragments]) (by simp [cyclicFragments]) (.later _ (.here [] _))
      not_reachedFrom_nil⟩

end GraphqlClient
