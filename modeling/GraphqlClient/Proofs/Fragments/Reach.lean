import Mathlib.Data.List.Nodup
import GraphqlClient.Fragments.Order

/-!
# Reaching fragments along spreads

What it means that a selection set spreads a fragment, directly or through other fragments, said
without the lists that the library gathers. The gathered lists hold exactly the direct spreads,
each of them once.
-/

namespace GraphqlClient

/-- A name is spread in selections, at any depth of fields and inline fragments. -/
inductive SpreadIn (name : String) : List Selection → Prop
  | here (directives : List Directive) (rest : List Selection) :
      SpreadIn name (.spread name directives :: rest)
  | inField {aliasName : Option String} {field : String} {arguments : List (String × Value)}
      {directives : List Directive} {inner : List Selection} (rest : List Selection)
      (h : SpreadIn name inner) :
      SpreadIn name (.field aliasName field arguments directives inner :: rest)
  | inInline {on : Option String} {directives : List Directive} {inner : List Selection}
      (rest : List Selection) (h : SpreadIn name inner) :
      SpreadIn name (.inline on directives inner :: rest)
  | later (selection : Selection) {rest : List Selection} (h : SpreadIn name rest) :
      SpreadIn name (selection :: rest)

/-- A loaded fragment is reached from selections by one spread or more, each of a loaded fragment. -/
inductive ReachedFrom (loaded : List LoadedFragment) (selections : List Selection) :
    LoadedFragment → Prop
  | direct {f : LoadedFragment} (hf : f ∈ loaded) (hs : SpreadIn f.name selections) :
      ReachedFrom loaded selections f
  | through {g f : LoadedFragment} (hg : ReachedFrom loaded selections g) (hf : f ∈ loaded)
      (hs : SpreadIn f.name g.fragment.selections) : ReachedFrom loaded selections f

/-- Every spread stands in the list of spreads. -/
theorem SpreadIn.mem_spreadNamesOf {name : String} {selections : List Selection}
    (h : SpreadIn name selections) : name ∈ spreadNamesOf selections := by
  induction h with
  | here directives rest => simp [spreadNamesOf, Selection.spreadNames]
  | inField rest _ ih => simp [spreadNamesOf, Selection.spreadNames, ih]
  | inInline rest _ ih => simp [spreadNamesOf, Selection.spreadNames, ih]
  | later selection _ ih => simp [spreadNamesOf, ih]

/-- The list of spreads holds spreads only. -/
theorem spreadIn_of_mem_spreadNamesOf {name : String} (selections : List Selection)
    (h : name ∈ spreadNamesOf selections) : SpreadIn name selections := by
  match selections with
  | [] => simp [spreadNamesOf] at h
  | .field _ _ _ _ inner :: rest =>
    rw [spreadNamesOf, Selection.spreadNames] at h
    rcases List.mem_append.mp h with hinner | hrest
    · exact .inField rest (spreadIn_of_mem_spreadNamesOf inner hinner)
    · exact .later _ (spreadIn_of_mem_spreadNamesOf rest hrest)
  | .spread fragment directives :: rest =>
    rw [spreadNamesOf, Selection.spreadNames] at h
    rcases List.mem_append.mp h with hname | hrest
    · rw [List.mem_singleton.mp hname]
      exact .here directives rest
    · exact .later _ (spreadIn_of_mem_spreadNamesOf rest hrest)
  | .inline _ _ inner :: rest =>
    rw [spreadNamesOf, Selection.spreadNames] at h
    rcases List.mem_append.mp h with hinner | hrest
    · exact .inInline rest (spreadIn_of_mem_spreadNamesOf inner hinner)
    · exact .later _ (spreadIn_of_mem_spreadNamesOf rest hrest)

/-- The direct spreads are the names that are spread. -/
theorem mem_directSpreads (name : String) (selections : List Selection) :
    name ∈ directSpreads selections ↔ SpreadIn name selections := by
  rw [directSpreads, mem_gatherSpreadsOf]
  simp only [List.not_mem_nil, false_or]
  exact ⟨spreadIn_of_mem_spreadNamesOf selections, SpreadIn.mem_spreadNamesOf⟩

/-- Adding a name keeps names distinct. -/
theorem nodup_addName {seen : List String} (h : seen.Nodup) (name : String) :
    (addName seen name).Nodup := by
  unfold addName
  split
  · exact h
  · next hname =>
    refine List.nodup_append.mpr ⟨h, List.nodup_singleton name, ?_⟩
    intro a ha b hb hab
    rw [List.mem_singleton.mp hb] at hab
    exact hname (hab ▸ ha)

mutual

/-- Gathering the spreads of a selection keeps names distinct. -/
theorem Selection.nodup_gatherSpreads {seen : List String} (h : seen.Nodup) (s : Selection) :
    (s.gatherSpreads seen).Nodup := by
  cases s with
  | field _ _ _ _ selections => exact nodup_gatherSpreadsOf h selections
  | spread fragment _ => exact nodup_addName h fragment
  | inline _ _ selections => exact nodup_gatherSpreadsOf h selections

/-- Gathering the spreads of selections keeps names distinct. -/
theorem nodup_gatherSpreadsOf {seen : List String} (h : seen.Nodup) (ss : List Selection) :
    (gatherSpreadsOf seen ss).Nodup := by
  cases ss with
  | nil => exact h
  | cons s ss => exact nodup_gatherSpreadsOf (Selection.nodup_gatherSpreads h s) ss

end

/-- No direct spread is listed twice. -/
theorem nodup_directSpreads (selections : List Selection) : (directSpreads selections).Nodup :=
  nodup_gatherSpreadsOf List.nodup_nil selections

/-- A loaded fragment's spreads are the names that its selections spread. -/
theorem LoadedFragment.mem_spreads (f : LoadedFragment) (name : String) :
    name ∈ f.spreads ↔ SpreadIn name f.fragment.selections :=
  mem_directSpreads name f.fragment.selections

namespace ReachedFrom

variable {loaded : List LoadedFragment} {selections : List Selection} {f g : LoadedFragment}

/-- Only loaded fragments are reached. -/
theorem mem_loaded (h : ReachedFrom loaded selections f) : f ∈ loaded := by
  cases h with
  | direct hf _ => exact hf
  | through _ hf _ => exact hf

/-- What a reached fragment reaches is reached. -/
theorem trans (hg : ReachedFrom loaded selections g)
    (hf : ReachedFrom loaded g.fragment.selections f) : ReachedFrom loaded selections f := by
  induction hf with
  | direct hf hs => exact .through hg hf hs
  | through _ hf hs ih => exact .through ih hf hs

end ReachedFrom

/-- What is reached is spread directly, or reached from what is spread directly. -/
theorem reachedFrom_iff {loaded : List LoadedFragment} {selections : List Selection}
    {f : LoadedFragment} :
    ReachedFrom loaded selections f ↔ ∃ g ∈ loaded, SpreadIn g.name selections ∧
      (f = g ∨ ReachedFrom loaded g.fragment.selections f) := by
  constructor
  · intro h
    induction h with
    | direct hf hs => exact ⟨_, hf, hs, Or.inl rfl⟩
    | through _ hf hs ih =>
      obtain ⟨g, hg, hgs, heq | hreach⟩ := ih
      · exact ⟨g, hg, hgs, Or.inr (.direct hf (heq ▸ hs))⟩
      · exact ⟨g, hg, hgs, Or.inr (.through hreach hf hs)⟩
  · rintro ⟨g, hg, hgs, rfl | hreach⟩
    · exact .direct hg hgs
    · exact (ReachedFrom.direct hg hgs).trans hreach

end GraphqlClient
