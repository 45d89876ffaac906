import GraphqlClient.Document.Source

/-!
# Sets of fragments

The fragments of all documents in the order in which they were loaded, no two of one name. Loading
stops at the first fragment whose name is taken.
-/

namespace GraphqlClient

/-- A fragment and the file it came from. -/
structure LoadedFragment where
  fragment : Fragment
  file : Option String
  deriving Inhabited, Repr, BEq

namespace LoadedFragment

/-- The fragment's name. -/
def name (f : LoadedFragment) : String := f.fragment.name

/-- Where the fragment is defined. -/
def location (f : LoadedFragment) : Location := ⟨f.file, f.fragment.position⟩

end LoadedFragment

/-- The fragments that a source document defines. -/
def SourceDocument.fragments (s : SourceDocument) : List LoadedFragment :=
  s.document.fragments.map (⟨·, s.file⟩)

/-- Two fragments of one name. -/
structure DuplicateFragment where
  name : String
  first : Location
  second : Location
  deriving DecidableEq, Repr

/-- The wording of a repeated fragment name. -/
def DuplicateFragment.message (d : DuplicateFragment) : String :=
  "Fragment `" ++ d.name ++ "` is defined more than once (at " ++ d.first.text ++ " and at " ++
    d.second.text ++ ")"

/-- Fragments of distinct names, in load order. -/
structure FragmentSet where
  items : List LoadedFragment
  distinct : (items.map LoadedFragment.name).Nodup

namespace FragmentSet

/-- No fragments. -/
def empty : FragmentSet := ⟨[], List.nodup_nil⟩

/-- The fragment of a name. -/
def find? (set : FragmentSet) (name : String) : Option LoadedFragment :=
  set.items.find? (·.name = name)

/-- Whether a fragment of a name is loaded. -/
def contains (set : FragmentSet) (name : String) : Bool :=
  set.items.any (·.name = name)

/-- A name is loaded exactly when its fragment is found. -/
theorem find?_isSome (set : FragmentSet) (name : String) :
    (set.find? name).isSome = set.contains name := by
  rw [Bool.eq_iff_iff]
  simp [find?, contains]

/-- The names stay distinct when a fragment of a new name comes last. -/
theorem nodup_push (set : FragmentSet) (f : LoadedFragment) (h : set.find? f.name = none) :
    ((set.items ++ [f]).map LoadedFragment.name).Nodup := by
  rw [List.map_append, List.nodup_append]
  refine ⟨set.distinct, by simp, ?_⟩
  intro a ha b hb
  simp only [List.map_cons, List.map_nil, List.mem_singleton] at hb
  obtain ⟨g, hg, rfl⟩ := List.mem_map.1 ha
  have := List.find?_eq_none.1 h g hg
  simpa [hb] using this

/-- Add a fragment of a new name. -/
def push (set : FragmentSet) (f : LoadedFragment) (h : set.find? f.name = none) : FragmentSet :=
  ⟨set.items ++ [f], set.nodup_push f h⟩

/-- Add fragments in order, up to the first whose name is taken. -/
def load (set : FragmentSet) : List LoadedFragment → Except DuplicateFragment FragmentSet
  | [] => .ok set
  | f :: fs =>
    match h : set.find? f.name with
    | some earlier => .error ⟨f.name, earlier.location, f.location⟩
    | none => (set.push f h).load fs

/-- The set of some fragments. -/
def ofList (fragments : List LoadedFragment) : Except DuplicateFragment FragmentSet :=
  empty.load fragments

/-- Loading keeps every fragment, in order. -/
theorem items_load {set loaded : FragmentSet} {fs : List LoadedFragment}
    (h : set.load fs = .ok loaded) : loaded.items = set.items ++ fs := by
  fun_induction load set fs with
  | case1 set => simp_all
  | case2 => simp at h
  | case3 set f fs hf ih => simp [ih h, push]

end FragmentSet

end GraphqlClient
