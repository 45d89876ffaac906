import GraphqlClient.Fragments.Set
import GraphqlClient.Fragments.Spreads

/-!
# Dependency order

Fragments are put in the order of a depth-first walk along spreads, each after those it spreads.
The walk keeps an agenda of names to enter and of fragments to place, and the fragments that are
still to be entered: entering one takes it away from them, so that cycles end by themselves.
-/

namespace GraphqlClient

/-- The fragments that a loaded fragment spreads, each once. -/
def LoadedFragment.spreads (f : LoadedFragment) : List String :=
  directSpreads f.fragment.selections

/-- A task of the walk. -/
inductive WalkTask where
  | enter (name : String)
  | place (fragment : LoadedFragment)

/-- Give up the fragment of a name. -/
def without (name : String) (fragments : List LoadedFragment) : List LoadedFragment :=
  fragments.filter (·.name ≠ name)

/-- Giving up a fragment that is there leaves fewer. -/
theorem length_without {name : String} {fragments : List LoadedFragment} {f : LoadedFragment}
    (h : fragments.find? (·.name = name) = some f) :
    (without name fragments).length < fragments.length := by
  refine List.length_filter_lt_length_iff_exists.2 ⟨f, List.mem_of_find?_eq_some h, ?_⟩
  simpa using List.find?_some h

/-- Work through an agenda: `fresh` are the fragments that were not entered. -/
def walk (fresh : List LoadedFragment) : List WalkTask → List LoadedFragment
  | [] => []
  | .place f :: agenda => f :: walk fresh agenda
  | .enter name :: agenda =>
    match _found : fresh.find? (·.name = name) with
    | none => walk fresh agenda
    | some f => walk (without name fresh) (f.spreads.map .enter ++ .place f :: agenda)
termination_by agenda => (fresh.length, agenda.length)
decreasing_by
  · exact Prod.Lex.right _ (by simp)
  · exact Prod.Lex.right _ (by simp)
  · exact Prod.Lex.left _ _ (length_without _found)

/-- The fragments of a set, those that others spread first. -/
def FragmentSet.ordered (set : FragmentSet) : List LoadedFragment :=
  walk set.items (set.items.map (.enter ·.name))

end GraphqlClient
