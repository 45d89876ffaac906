import Mathlib.Data.List.Nodup
import GraphqlClient.Fragments.Set

/-!
# Loading fragments

Fragments of distinct names load as they are, and nothing else loads. Distinct names tell loaded
fragments apart.
-/

namespace GraphqlClient

/-- Distinct names tell fragments apart. -/
theorem eq_of_name_eq {fragments : List LoadedFragment}
    (hnames : (fragments.map LoadedFragment.name).Nodup) {f g : LoadedFragment}
    (hf : f ∈ fragments) (hg : g ∈ fragments) (h : f.name = g.name) : f = g :=
  List.inj_on_of_nodup_map hnames hf hg h

/-- The fragment that is found has the name and is among those searched. -/
theorem mem_and_name_of_find? {fragments : List LoadedFragment} {name : String}
    {f : LoadedFragment} (h : fragments.find? (·.name = name) = some f) :
    f ∈ fragments ∧ f.name = name :=
  ⟨List.mem_of_find?_eq_some h, by simpa using List.find?_some h⟩

/-- A name is not found exactly when no fragment has it. -/
theorem find?_name_eq_none {fragments : List LoadedFragment} {name : String} :
    fragments.find? (·.name = name) = none ↔ ∀ f ∈ fragments, f.name ≠ name := by
  simp

namespace FragmentSet

/-- A set is no more than its fragments. -/
theorem eq_of_items_eq {a b : FragmentSet} (h : a.items = b.items) : a = b := by
  cases a
  cases b
  cases h
  rfl

/-- Fragments load behind others if they make a set together. -/
theorem load_eq_ok {start set : FragmentSet} {fs : List LoadedFragment}
    (h : set.items = start.items ++ fs) : start.load fs = .ok set := by
  induction fs generalizing start with
  | nil =>
    have hstart : start = set := eq_of_items_eq (by rw [h, List.append_nil])
    rw [load, hstart]
  | cons f fs ih =>
    have hnew : start.find? f.name = none := by
      have hnames := set.distinct
      rw [h, List.map_append, List.map_cons, List.nodup_append] at hnames
      refine List.find?_eq_none.mpr fun g hg => ?_
      have hne := hnames.2.2 g.name (List.mem_map.mpr ⟨g, hg, rfl⟩) f.name List.mem_cons_self
      simpa using hne
    rw [load]
    split
    · simp_all
    · exact ih (by rw [h, push, List.append_assoc, List.singleton_append])

/-- Fragments load exactly into the set of which they are the fragments. -/
theorem ofList_eq_ok_iff {fragments : List LoadedFragment} {set : FragmentSet} :
    ofList fragments = .ok set ↔ set.items = fragments := by
  constructor
  · intro h
    rw [items_load h, empty, List.nil_append]
  · intro h
    exact load_eq_ok (by rw [h, empty, List.nil_append])

end FragmentSet

end GraphqlClient
