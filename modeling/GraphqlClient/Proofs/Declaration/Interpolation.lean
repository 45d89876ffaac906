import GraphqlClient.Proofs.Fragments.Load
import GraphqlClient.Proofs.Fragments.Reach
import GraphqlClient.Sdk.Catalogue

/-!
# Interpolated fragments

A declaration interpolates the constants of the loaded fragments that its definition spreads, each
of them once.
-/

namespace GraphqlClient

/-- The loaded fragments that some selections spread. -/
def FragmentSet.spreadBy (set : FragmentSet) (selections : List Selection) : List LoadedFragment :=
  (directSpreads selections).filterMap set.find?

/-- A loaded fragment is found by its name, and nothing else is. -/
theorem FragmentSet.find?_eq_some_iff {set : FragmentSet} {name : String} {f : LoadedFragment} :
    set.find? name = some f ↔ f ∈ set.items ∧ f.name = name := by
  constructor
  · exact mem_and_name_of_find?
  · rintro ⟨hf, rfl⟩
    cases h : set.find? f.name with
    | none => exact absurd rfl (find?_name_eq_none.mp h f hf)
    | some g =>
      obtain ⟨hg, hname⟩ := mem_and_name_of_find? h
      rw [eq_of_name_eq set.distinct hg hf hname]

/-- The fragments that selections spread are loaded, and all those are there. -/
theorem FragmentSet.mem_spreadBy {set : FragmentSet} {selections : List Selection}
    {f : LoadedFragment} :
    f ∈ set.spreadBy selections ↔ f ∈ set.items ∧ SpreadIn f.name selections := by
  rw [spreadBy, List.mem_filterMap]
  constructor
  · rintro ⟨name, hname, hfind⟩
    obtain ⟨hf, rfl⟩ := find?_eq_some_iff.mp hfind
    exact ⟨hf, (mem_directSpreads _ _).mp hname⟩
  · rintro ⟨hf, hspread⟩
    exact ⟨f.name, (mem_directSpreads _ _).mpr hspread, find?_eq_some_iff.mpr ⟨hf, rfl⟩⟩

/-- No fragment that selections spread is listed twice. -/
theorem FragmentSet.nodup_spreadBy (set : FragmentSet) (selections : List Selection) :
    (set.spreadBy selections).Nodup := by
  refine (nodup_directSpreads selections).filterMap fun a b f ha hb => ?_
  exact (find?_eq_some_iff.mp ha).2.symm.trans (find?_eq_some_iff.mp hb).2

/-- Interpolated are the constants of the loaded fragments that are spread. -/
theorem Catalogue.interpolated_directSpreads (c : Catalogue) (selections : List Selection) :
    c.interpolated (directSpreads selections) =
      (c.fragments.spreadBy selections).map fun f => Naming.fragmentVariable c.settings f.name := by
  rw [interpolated, FragmentSet.spreadBy]
  induction directSpreads selections with
  | nil => rfl
  | cons name names ih =>
    cases h : c.fragments.find? name with
    | none =>
      have hunknown : c.fragments.contains name = false := by
        rw [← FragmentSet.find?_isSome, h]
        rfl
      rw [List.filter_cons_of_neg (by simp [hunknown]), List.filterMap_cons_none h, ih]
    | some f =>
      have hloaded : c.fragments.contains name = true := by
        rw [← FragmentSet.find?_isSome, h]
        rfl
      rw [List.filter_cons_of_pos hloaded, List.filterMap_cons_some h, List.map_cons, List.map_cons,
        ih, (FragmentSet.find?_eq_some_iff.mp h).2]

/-- A loaded fragment is declared under its constant, with its printed definition and the constants of
the loaded fragments that it spreads. -/
theorem Catalogue.declareFragment_value (c : Catalogue) (f : LoadedFragment) :
    (c.declareFragment f).value =
      ⟨Naming.fragmentVariable c.settings f.name, f.fragment.print,
        (c.fragments.spreadBy f.fragment.selections).map fun g =>
          Naming.fragmentVariable c.settings g.name⟩ :=
  congrArg (Declaration.mk _ _) (c.interpolated_directSpreads _)

end GraphqlClient
