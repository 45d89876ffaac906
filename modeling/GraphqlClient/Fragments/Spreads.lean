import GraphqlClient.Document.Basic

/-!
# Spreads

The names of the fragments that a selection set spreads, at any depth but never inside another
fragment. `spreadNames` lists them as they are met, `directSpreads` each at its first appearance.
-/

namespace GraphqlClient

mutual

/-- The spreads of a selection, in order and with repetitions. -/
def Selection.spreadNames : Selection → List String
  | .field _ _ _ _ selections => spreadNamesOf selections
  | .spread fragment _ => [fragment]
  | .inline _ _ selections => spreadNamesOf selections

/-- The spreads of selections, in order and with repetitions. -/
def spreadNamesOf : List Selection → List String
  | [] => []
  | selection :: selections => selection.spreadNames ++ spreadNamesOf selections

end

/-- Add a name at the end if it is new. -/
def addName (seen : List String) (name : String) : List String :=
  if name ∈ seen then seen else seen ++ [name]

mutual

/-- Add the spreads of a selection to those seen before. -/
def Selection.gatherSpreads (seen : List String) : Selection → List String
  | .field _ _ _ _ selections => gatherSpreadsOf seen selections
  | .spread fragment _ => addName seen fragment
  | .inline _ _ selections => gatherSpreadsOf seen selections

/-- Add the spreads of selections to those seen before. -/
def gatherSpreadsOf (seen : List String) : List Selection → List String
  | [] => seen
  | selection :: selections => gatherSpreadsOf (selection.gatherSpreads seen) selections

end

/-- The spreads of a selection set, each at its first appearance. -/
def directSpreads (selections : List Selection) : List String :=
  gatherSpreadsOf [] selections

/-- A name is among those seen after one is added. -/
theorem mem_addName (seen : List String) (name x : String) :
    x ∈ addName seen name ↔ x ∈ seen ∨ x = name := by
  unfold addName
  split
  · constructor
    · exact Or.inl
    · rintro (h | rfl) <;> assumption
  · simp

mutual

/-- Gathering adds the spreads of a selection and nothing else. -/
theorem Selection.mem_gatherSpreads (x : String) (seen : List String) (s : Selection) :
    x ∈ s.gatherSpreads seen ↔ x ∈ seen ∨ x ∈ s.spreadNames := by
  cases s with
  | field _ _ _ _ selections => exact mem_gatherSpreadsOf x seen selections
  | spread fragment _ => simp [Selection.gatherSpreads, Selection.spreadNames, mem_addName]
  | inline _ _ selections => exact mem_gatherSpreadsOf x seen selections

/-- Gathering adds the spreads of selections and nothing else. -/
theorem mem_gatherSpreadsOf (x : String) (seen : List String) (ss : List Selection) :
    x ∈ gatherSpreadsOf seen ss ↔ x ∈ seen ∨ x ∈ spreadNamesOf ss := by
  cases ss with
  | nil => simp [gatherSpreadsOf, spreadNamesOf]
  | cons s ss =>
    simp only [gatherSpreadsOf, spreadNamesOf, List.mem_append]
    rw [mem_gatherSpreadsOf, Selection.mem_gatherSpreads, or_assoc]

end

end GraphqlClient
