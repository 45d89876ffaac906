import GraphqlClient.Proofs.Fragments.Walk

/-!
# Depth-first search

The order of fragments as a recursive search with two sets that only grow: names are entered when
a call meets them first and placed when their call returns. Names that are not loaded, placed or
entered already end a call at once, which also cuts cycles.

Nested calls are well founded on any graph, since each finds fewer loaded names that were not
entered. So every call returns, and the search places what the walk gives out, in the same order.
-/

namespace GraphqlClient

/-- The names that were entered, and those that were placed, in order. -/
structure SearchState where
  entered : List String
  placed : List String

namespace SearchState

/-- Nothing was entered. -/
def start : SearchState := ⟨[], []⟩

/-- Enter a name. -/
def enter (s : SearchState) (name : String) : SearchState := { s with entered := name :: s.entered }

/-- Place a name, at the end if it is new. -/
def place (s : SearchState) (name : String) : SearchState :=
  { s with placed := addName s.placed name }

/-- The loaded fragments that were not entered. -/
def fresh (set : FragmentSet) (s : SearchState) : List LoadedFragment :=
  set.items.filter (·.name ∉ s.entered)

end SearchState

/-- Calls for some names in turn take one state into another. -/
inductive Search (set : FragmentSet) : List String → SearchState → SearchState → Prop
  | done (s : SearchState) : Search set [] s s
  | unknown {name : String} {names : List String} {s u : SearchState}
      (hname : set.find? name = none) (hrest : Search set names s u) :
      Search set (name :: names) s u
  | known {name : String} {names : List String} {s u : SearchState} {f : LoadedFragment}
      (hname : set.find? name = some f) (hknown : name ∈ s.placed ∨ name ∈ s.entered)
      (hrest : Search set names s u) : Search set (name :: names) s u
  | visit {name : String} {names : List String} {s t u : SearchState} {f : LoadedFragment}
      (hname : set.find? name = some f) (hplaced : name ∉ s.placed) (hentered : name ∉ s.entered)
      (hspreads : Search set f.spreads (s.enter name) t) (hrest : Search set names (t.place name) u) :
      Search set (name :: names) s u

/-- A call for a name in a state makes another call before it returns. -/
inductive Calls (set : FragmentSet) : String × SearchState → String × SearchState → Prop
  | nested {name spread : String} {s t : SearchState} {f : LoadedFragment}
      {before after : List String} (hname : set.find? name = some f) (hplaced : name ∉ s.placed)
      (hentered : name ∉ s.entered) (hsplit : f.spreads = before ++ spread :: after)
      (hbefore : Search set before (s.enter name) t) : Calls set (spread, t) (name, s)

namespace Search

variable {set : FragmentSet} {names others : List String} {s t u : SearchState}

/-- What was entered stays entered. -/
theorem entered_subset (h : Search set names s t) : s.entered ⊆ t.entered := by
  induction h with
  | done s => exact List.Subset.refl _
  | unknown _ _ ih => exact ih
  | known _ _ _ ih => exact ih
  | visit _ _ _ _ _ ih ih' => exact fun x hx => ih' (ih (List.mem_cons_of_mem _ hx))

/-- Calls follow one another. -/
theorem append (h : Search set names s t) (h' : Search set others t u) :
    Search set (names ++ others) s u := by
  induction h with
  | done s => exact h'
  | unknown hname _ ih => exact .unknown hname (ih h')
  | known hname hknown _ ih => exact .known hname hknown (ih h')
  | visit hname hplaced hentered hspreads _ _ ih =>
    exact .visit hname hplaced hentered hspreads (ih h')

/-- Calls have one result. -/
theorem result_unique (h : Search set names s t) (h' : Search set names s u) : t = u := by
  induction h generalizing u with
  | done s =>
    cases h'
    rfl
  | unknown hname _ ih =>
    cases h' with
    | unknown _ hrest => exact ih hrest
    | known hname' _ _ => simp [hname] at hname'
    | visit hname' _ _ _ _ => simp [hname] at hname'
  | known hname hknown _ ih =>
    cases h' with
    | unknown hname' _ => simp [hname] at hname'
    | known _ _ hrest => exact ih hrest
    | visit _ hplaced hentered _ _ => exact (hknown.elim hplaced hentered).elim
  | visit hname hplaced hentered _ _ ih ih' =>
    cases h' with
    | unknown hname' _ => simp [hname] at hname'
    | known _ hknown _ => exact (hknown.elim hplaced hentered).elim
    | visit hname' _ _ hspreads hrest =>
      obtain rfl : _ = _ := Option.some.inj (hname.symm.trans hname')
      obtain rfl := ih hspreads
      exact ih' hrest

end Search

/-- A nested call finds fewer fresh fragments. -/
theorem Calls.length_fresh {set : FragmentSet} {callee caller : String × SearchState}
    (h : Calls set callee caller) :
    (callee.2.fresh set).length < (caller.2.fresh set).length := by
  cases h with
  | @nested name spread s t f before after hname _ hentered _ hbefore =>
    obtain ⟨hf, rfl⟩ := mem_and_name_of_find? hname
    have hsub : s.entered ⊆ t.entered := fun x hx =>
      hbefore.entered_subset (List.mem_cons_of_mem _ hx)
    have hmem : f.name ∈ t.entered := hbefore.entered_subset List.mem_cons_self
    have hfresh : t.fresh set = (s.fresh set).filter (·.name ∉ t.entered) := by
      rw [SearchState.fresh, SearchState.fresh, List.filter_filter]
      refine List.filter_congr fun g _ => ?_
      by_cases hg : g.name ∈ s.entered
      · simp [hg, hsub hg]
      · simp [hg]
    rw [hfresh]
    refine List.length_filter_lt_length_iff_exists.mpr ⟨f, ?_, by simpa using hmem⟩
    exact List.mem_filter.mpr ⟨hf, by simpa using hentered⟩

/-- No call leads into an endless chain of nested calls. -/
theorem calls_wellFounded (set : FragmentSet) : WellFounded (Calls set) :=
  Subrelation.wf Calls.length_fresh
    (measure fun call : String × SearchState => (call.2.fresh set).length).wf

/-- A call returns. -/
theorem Search.call_returns (set : FragmentSet) (call : String × SearchState) :
    ∃ u, Search set [call.1] call.2 u := by
  induction call using (calls_wellFounded set).induction with
  | _ call ih =>
  obtain ⟨name, s⟩ := call
  cases hname : set.find? name with
  | none => exact ⟨s, .unknown hname (.done s)⟩
  | some f =>
    by_cases hknown : name ∈ s.placed ∨ name ∈ s.entered
    · exact ⟨s, .known hname hknown (.done s)⟩
    · obtain ⟨hplaced, hentered⟩ := not_or.mp hknown
      -- The spreads are called in turn; `before` are those whose calls have returned.
      have hspreads : ∀ (after before : List String) (t : SearchState),
          f.spreads = before ++ after → Search set before (s.enter name) t →
            ∃ u, Search set f.spreads (s.enter name) u := by
        intro after
        induction after with
        | nil =>
          intro before t hsplit hbefore
          rw [List.append_nil] at hsplit
          exact ⟨t, hsplit ▸ hbefore⟩
        | cons spread after iha =>
          intro before t hsplit hbefore
          obtain ⟨u, hu⟩ := ih (spread, t) (.nested hname hplaced hentered hsplit hbefore)
          exact iha (before ++ [spread]) u (by simpa using hsplit) (hbefore.append hu)
      obtain ⟨t, ht⟩ := hspreads f.spreads [] (s.enter name) rfl (.done _)
      exact ⟨_, .visit hname hplaced hentered ht (.done _)⟩

/-- Calls for some names in turn return. -/
theorem Search.returns (set : FragmentSet) (names : List String) (s : SearchState) :
    ∃ u, Search set names s u := by
  induction names generalizing s with
  | nil => exact ⟨s, .done s⟩
  | cons name names ih =>
    obtain ⟨t, ht⟩ := Search.call_returns set (name, s)
    obtain ⟨u, hu⟩ := ih t
    exact ⟨u, ht.append hu⟩

namespace SearchState

/-- A fresh fragment is found exactly when it is loaded under a name that was not entered. -/
theorem find?_fresh {set : FragmentSet} {s : SearchState} {name : String} :
    (s.fresh set).find? (·.name = name) = if name ∈ s.entered then none else set.find? name := by
  split
  · next hentered =>
    refine find?_name_eq_none.mpr fun f hf heq => ?_
    have hfresh : f.name ∉ s.entered := by simpa using (List.mem_filter.mp hf).2
    exact hfresh (heq ▸ hentered)
  · next hentered =>
    rw [fresh, FragmentSet.find?, List.find?_filter]
    congr 1
    funext f
    by_cases heq : f.name = name
    · simp [heq, hentered]
    · simp [heq]

/-- Entering a name gives up its fragment. -/
theorem fresh_enter (set : FragmentSet) (s : SearchState) (name : String) :
    (s.enter name).fresh set = without name (s.fresh set) := by
  rw [fresh, fresh, without, List.filter_filter]
  refine List.filter_congr fun f _ => ?_
  simp [enter, not_or]

end SearchState

namespace Search

variable {set : FragmentSet} {names : List String} {s u : SearchState}

/-- A name that was entered and not placed waits for the call that entered it. -/
theorem not_placed (h : Search set names s u) {name : String} (hentered : name ∈ s.entered)
    (hplaced : name ∉ s.placed) : name ∉ u.placed := by
  induction h with
  | done s => exact hplaced
  | unknown _ _ ih => exact ih hentered hplaced
  | known _ _ _ ih => exact ih hentered hplaced
  | @visit other names s t u f _ _ hother hspreads _ ih ih' =>
    have hin : name ∈ (s.enter other).entered := List.mem_cons_of_mem _ hentered
    have hne : name ≠ other := fun heq => hother (heq ▸ hentered)
    refine ih' (hspreads.entered_subset hin) fun hmem => ?_
    exact ((mem_addName t.placed other name).mp hmem).elim (ih hin hplaced) hne

/-- What was placed was entered. -/
theorem placed_subset_entered (h : Search set names s u) (hs : s.placed ⊆ s.entered) :
    u.placed ⊆ u.entered := by
  induction h with
  | done s => exact hs
  | unknown _ _ ih => exact ih hs
  | known _ _ _ ih => exact ih hs
  | @visit name names s t u f _ _ _ hspreads _ ih ih' =>
    have hinner := ih fun x hx => List.mem_cons_of_mem _ (hs hx)
    have hname : name ∈ t.entered := hspreads.entered_subset List.mem_cons_self
    refine ih' fun x hx => ?_
    rcases (mem_addName t.placed name x).mp hx with hx | rfl
    · exact hinner hx
    · exact hname

end Search

/-- Placing a new name puts it behind the others. -/
theorem SearchState.placed_place {s : SearchState} {name : String} (h : name ∉ s.placed) :
    (s.place name).placed = s.placed ++ [name] := by
  rw [place, addName, if_neg h]

/-- Fragments that calls for some names give out between two states: their names are placed in turn,
each of them is loaded, and the walk gives them out as well and is left with the same fresh ones. -/
structure GivesOut (set : FragmentSet) (names : List String) (s u : SearchState)
    (out : List LoadedFragment) : Prop where
  placed : u.placed = s.placed ++ out.map LoadedFragment.name
  found : ∀ f ∈ out, set.find? f.name = some f
  walk : ∀ agenda, GraphqlClient.walk (s.fresh set) (names.map .enter ++ agenda) =
    out ++ GraphqlClient.walk (u.fresh set) agenda

namespace GivesOut

variable {set : FragmentSet} {name : String} {names : List String} {s t u : SearchState}
  {out rest : List LoadedFragment} {f : LoadedFragment}

/-- A call for a name that is not fresh gives out nothing. -/
theorem skip (hnone : (s.fresh set).find? (·.name = name) = none) (h : GivesOut set names s u out) :
    GivesOut set (name :: names) s u out := by
  refine ⟨h.placed, h.found, fun agenda => ?_⟩
  rw [List.map_cons, List.cons_append, walk_absent hnone, h.walk]

/-- A call that enters a name gives out what its spreads do, and then the fragment itself. -/
theorem visit (hname : set.find? name = some f) (hentered : name ∉ s.entered)
    (hplace : (t.place name).placed = t.placed ++ [name])
    (hspreads : GivesOut set f.spreads (s.enter name) t out)
    (hrest : GivesOut set names (t.place name) u rest) :
    GivesOut set (name :: names) s u (out ++ f :: rest) := by
  obtain ⟨_, rfl⟩ := mem_and_name_of_find? hname
  refine ⟨?_, ?_, fun agenda => ?_⟩
  · rw [hrest.placed, hplace, hspreads.placed]
    simp [SearchState.enter]
  · intro g hg
    rcases List.mem_append.mp hg with hg | hg
    · exact hspreads.found g hg
    · rcases List.mem_cons.mp hg with rfl | hg
      · exact hname
      · exact hrest.found g hg
  · have hfound : (s.fresh set).find? (·.name = f.name) = some f := by
      rw [SearchState.find?_fresh, if_neg hentered, hname]
    -- Placing a name leaves the fresh fragments as they are.
    have htail : GraphqlClient.walk (t.fresh set) (names.map .enter ++ agenda) =
        rest ++ GraphqlClient.walk (u.fresh set) agenda := hrest.walk agenda
    rw [List.map_cons, List.cons_append, walk_found hfound, ← SearchState.fresh_enter,
      hspreads.walk, walk_place, htail, List.append_assoc, List.cons_append]

end GivesOut

/-- Calls for some names give out what the walk does for these names. -/
theorem Search.givesOut {set : FragmentSet} {names : List String} {s u : SearchState}
    (h : Search set names s u) (hs : s.placed ⊆ s.entered) :
    ∃ out : List LoadedFragment, GivesOut set names s u out := by
  induction h with
  | done s => exact ⟨[], by simp, by simp, fun agenda => rfl⟩
  | @unknown name names s u hname _ ih =>
    obtain ⟨out, hout⟩ := ih hs
    exact ⟨out, hout.skip (by rw [SearchState.find?_fresh, hname, ite_self])⟩
  | @known name names s u f _ hknown _ ih =>
    obtain ⟨out, hout⟩ := ih hs
    have hentered : name ∈ s.entered := hknown.elim (fun hx => hs hx) id
    exact ⟨out, hout.skip (by rw [SearchState.find?_fresh, if_pos hentered])⟩
  | @visit name names s t u f hname hnew hentered hspreads hrest ih ih' =>
    have hs' : (s.enter name).placed ⊆ (s.enter name).entered := fun x hx =>
      List.mem_cons_of_mem _ (hs hx)
    have hplace : (t.place name).placed = t.placed ++ [name] :=
      SearchState.placed_place (hspreads.not_placed List.mem_cons_self hnew)
    have hinv : (t.place name).placed ⊆ t.entered := by
      have hname : name ∈ t.entered := hspreads.entered_subset List.mem_cons_self
      rw [hplace]
      exact List.append_subset.mpr ⟨hspreads.placed_subset_entered hs', by simpa using hname⟩
    obtain ⟨out, hout⟩ := ih hs'
    obtain ⟨out', hout'⟩ := ih' hinv
    exact ⟨out ++ f :: out', .visit hname hentered hplace hout hout'⟩

/-- Searching from all names in turn places the fragments of the order. -/
theorem FragmentSet.search_ordered (set : FragmentSet) :
    ∃ u, Search set (set.items.map LoadedFragment.name) .start u ∧
      u.placed = set.ordered.map LoadedFragment.name ∧ u.placed.filterMap set.find? = set.ordered := by
  obtain ⟨u, hu⟩ := Search.returns set (set.items.map LoadedFragment.name) .start
  obtain ⟨out, hplaced, hout, hwalk⟩ := hu.givesOut (List.Subset.refl _)
  have hall : SearchState.start.fresh set = set.items := by
    simp [SearchState.fresh, SearchState.start]
  have hout_eq : set.ordered = out := by
    have h := hwalk []
    rw [hall, List.map_map, List.append_nil, walk_nil, List.append_nil] at h
    exact h
  have hnames : u.placed = set.ordered.map LoadedFragment.name := by
    rw [hout_eq]
    exact hplaced
  refine ⟨u, hu, hnames, ?_⟩
  have hfind : out.filterMap (set.find? ∘ LoadedFragment.name) = out.filterMap some :=
    List.filterMap_congr hout
  rw [hnames, List.filterMap_map, hout_eq, hfind, List.filterMap_some]

end GraphqlClient
