import Mathlib.Logic.Basic
import GraphqlClient.Proofs.Declaration.Interpolation

/-!
# Spreads that declarations account for

The spreads of a definition are gathered across its subtrees, and the gathered list is that of a
plain walk in which every name stands where it first appears. Each of these names is accounted for
once: by a hole in the declaration if its fragment is loaded, and by a warning if not.
-/

namespace GraphqlClient

/-- Names that are added to those seen before come after them, each where it first appears. -/
theorem foldl_addName (seen names : List String) :
    names.foldl addName seen = seen ++ (names.filter (· ∉ seen)).eraseDups := by
  induction names generalizing seen with
  | nil => simp
  | cons name names ih =>
    rw [List.foldl_cons, ih, addName]
    by_cases hseen : name ∈ seen
    · rw [if_pos hseen, List.filter_cons_of_neg (by simpa using hseen)]
    · have hlater : names.filter (· ∉ seen ++ [name]) =
          (names.filter (· ∉ seen)).filter fun other => !other == name := by
        rw [List.filter_filter]
        refine List.filter_congr fun other _ => ?_
        by_cases hname : other = name <;> simp [hname]
      rw [if_neg hseen, List.filter_cons_of_pos (by simpa using hseen), List.eraseDups_cons, hlater,
        List.append_assoc]
      rfl

mutual

/-- Gathering adds the spreads of a selection as a walk meets them. -/
theorem Selection.gatherSpreads_eq_foldl (seen : List String) (s : Selection) :
    s.gatherSpreads seen = s.spreadNames.foldl addName seen := by
  cases s with
  | field _ _ _ _ selections => exact gatherSpreadsOf_eq_foldl seen selections
  | spread fragment _ => rfl
  | inline _ _ selections => exact gatherSpreadsOf_eq_foldl seen selections

/-- Gathering adds the spreads of selections as a walk meets them. -/
theorem gatherSpreadsOf_eq_foldl (seen : List String) (ss : List Selection) :
    gatherSpreadsOf seen ss = (spreadNamesOf ss).foldl addName seen := by
  cases ss with
  | nil => rfl
  | cons s ss =>
    -- What the first selection adds is seen by the walk through the others.
    rw [gatherSpreadsOf, spreadNamesOf, List.foldl_append, ← Selection.gatherSpreads_eq_foldl]
    exact gatherSpreadsOf_eq_foldl (s.gatherSpreads seen) ss

end

/-- The names that selections spread, each where a walk through them first meets it. -/
def spreadsInOrder (selections : List Selection) : List String :=
  (spreadNamesOf selections).eraseDups

/-- The direct spreads of selections are those of a walk. -/
theorem directSpreads_eq_spreadsInOrder (selections : List Selection) :
    directSpreads selections = spreadsInOrder selections := by
  have hall : (spreadNamesOf selections).filter (· ∉ []) = spreadNamesOf selections := by simp
  rw [directSpreads, gatherSpreadsOf_eq_foldl, foldl_addName, hall]
  rfl

/-- Loaded are the names of loaded fragments. -/
theorem FragmentSet.contains_eq (set : FragmentSet) :
    set.contains = fun name => decide (name ∈ set.items.map LoadedFragment.name) := by
  funext name
  rw [contains, List.any_eq]
  simp

namespace Catalogue

variable (c : Catalogue)

/-- The spreads of selections that name loaded fragments, in order. -/
def loadedSpreads (selections : List Selection) : List String :=
  (spreadsInOrder selections).filter (· ∈ c.fragments.items.map LoadedFragment.name)

/-- The spreads of selections that name no loaded fragments, in order. -/
def unknownSpreads (selections : List Selection) : List String :=
  (spreadsInOrder selections).filter (· ∉ c.fragments.items.map LoadedFragment.name)

/-- A declaration accounts for the spreads of some selections: after the definition its template has
a hole for each that is loaded, with the constant of the fragment, and a warning tells of each that
is not. -/
structure Covers (selections : List Selection) (declared : Warned Declaration) : Prop where
  interpolated : declared.value.interpolated =
    (c.loadedSpreads selections).map (Naming.fragmentVariable c.settings)
  text : declared.value.text =
    "export const " ++ declared.value.constant ++ " = gql`\n" ++ declared.value.body ++
      String.join ((c.loadedSpreads selections).map fun name =>
        "\n" ++ Template.hole (Naming.fragmentVariable c.settings name)) ++ "`;"
  warnings : declared.warnings =
    (c.unknownSpreads selections).map (Warning.unknownFragment declared.value.constant)

/-- What is declared for some selections accounts for their spreads. -/
theorem covers_declare (constant definition : String) (selections : List Selection) :
    c.Covers selections (c.declare constant definition (directSpreads selections)) := by
  have hloaded : c.interpolated (directSpreads selections) =
      (c.loadedSpreads selections).map (Naming.fragmentVariable c.settings) := by
    rw [Catalogue.interpolated, directSpreads_eq_spreadsInOrder, FragmentSet.contains_eq]
    rfl
  have hunknown : c.unknown constant (directSpreads selections) =
      (c.unknownSpreads selections).map (Warning.unknownFragment constant) := by
    rw [unknown, directSpreads_eq_spreadsInOrder, FragmentSet.contains_eq, unknownSpreads]
    simp only [decide_not]
  have hholes : (c.declare constant definition (directSpreads selections)).value.holes =
      String.join ((c.loadedSpreads selections).map fun name =>
        "\n" ++ Template.hole (Naming.fragmentVariable c.settings name)) := by
    rw [declare, Declaration.holes, hloaded, List.map_map]
    rfl
  refine ⟨hloaded, ?_, hunknown⟩
  rw [← hholes]
  rfl

/-- A spread is loaded or unknown, and not both. -/
theorem spreadIn_iff_xor (name : String) (selections : List Selection) :
    SpreadIn name selections ↔
      Xor (name ∈ c.loadedSpreads selections) (name ∈ c.unknownSpreads selections) := by
  rw [← mem_directSpreads, directSpreads_eq_spreadsInOrder, loadedSpreads, unknownSpreads,
    List.mem_filter, List.mem_filter, decide_eq_true_iff, decide_eq_true_iff]
  by_cases hloaded : name ∈ c.fragments.items.map LoadedFragment.name <;>
    simp [hloaded, Xor]

/-- No spread is lost. The declaration of every loaded fragment and of every named operation accounts
for the names that its selections spread, at whatever depth: it interpolates those that are loaded,
and a warning tells of each of the others, both in the order in which a walk first meets them. Every
name that is spread is there once, as one or as the other. -/
theorem covers_spreads :
    (∀ f : LoadedFragment, c.Covers f.fragment.selections (c.declareFragment f)) ∧
      (∀ (file : Option String) (o : Operation) (named : NamedOperation),
        o.named? file = some named → ∃ declared,
          c.outcome file (.operation o) = .declared (named.record c.settings) declared ∧
            c.Covers o.selections declared) ∧
      ∀ selections, (spreadsInOrder selections).Nodup ∧ ∀ name, SpreadIn name selections ↔
        Xor (name ∈ c.loadedSpreads selections) (name ∈ c.unknownSpreads selections) := by
  refine ⟨fun f => c.covers_declare _ _ _, fun file o named hnamed => ?operation,
    fun selections => ⟨?once, fun name => c.spreadIn_iff_xor name selections⟩⟩
  case operation =>
    refine ⟨c.declare (named.record c.settings).names.document o.print (directSpreads o.selections),
      ?_, c.covers_declare _ _ _⟩
    simp only [outcome, hnamed]
  case once =>
    rw [← directSpreads_eq_spreadsInOrder]
    exact nodup_directSpreads selections

/-- Two fragments, the first of which spreads the second. -/
def pairCatalogue : Catalogue :=
  ⟨({} : Options).settings, ⟨[⟨⟨"a", "T", [], [.spread "b" []], .start⟩, none⟩,
    ⟨⟨"b", "T", [], [.field none "id" [] [] []], .start⟩, none⟩], by decide⟩⟩

/-- A query that spreads fragments at three depths, one of them twice and one that is not loaded. -/
def nestedQuery : Operation :=
  { kind := .query, name := some "Q"
    variableDefinitions := [], directives := [], position := .start
    selections :=
      [.field none "x" [] []
        [.spread "b" [], .inline (some "T") [] [.spread "c" [], .spread "a" [], .spread "b" []]],
        .spread "c" []] }

/-- Of the spreads of a nested query two are interpolated, and one is warned of. -/
theorem covers_spreads_nested :
    ∃ named declared, nestedQuery.named? none = some named ∧
      pairCatalogue.outcome none (.operation nestedQuery) =
        .declared (named.record pairCatalogue.settings) declared ∧
      declared.value.interpolated = ["BFragmentDoc", "AFragmentDoc"] ∧
      declared.warnings = [.unknownFragment declared.value.constant "c"] ∧
      SpreadIn "a" nestedQuery.selections ∧
      "a" ∉ pairCatalogue.unknownSpreads nestedQuery.selections := by
  obtain ⟨-, hoperation, hspreads⟩ := pairCatalogue.covers_spreads
  obtain ⟨declared, houtcome, hcovers⟩ := hoperation none nestedQuery _ rfl
  have hloaded : pairCatalogue.loadedSpreads nestedQuery.selections = ["b", "a"] := by decide
  have hunknown : pairCatalogue.unknownSpreads nestedQuery.selections = ["c"] := by decide
  refine ⟨_, declared, rfl, houtcome, ?_, ?_, ?_, ?_⟩
  · rw [hcovers.interpolated, hloaded]
    decide
  · rw [hcovers.warnings, hunknown]
    rfl
  · rw [(hspreads _).2 "a", hloaded, hunknown]
    decide
  · rw [hunknown]
    decide

end Catalogue

end GraphqlClient
