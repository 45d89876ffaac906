import Mathlib.Data.List.Perm.Subperm
import GraphqlClient.Proofs.Fragments.Load
import GraphqlClient.Proofs.Fragments.Reach

/-!
# The walk along spreads

What the walk does with an agenda. It gives out every fragment that it is told to place and every
fresh one that it is told to enter, nothing else and nothing twice. It sees nothing of a fragment but
its name and its spreads. Fragments that lead to none of some others come out as if the others were
not there, and before all of them.
-/

namespace GraphqlClient

/-- The fragments that an agenda places. -/
def placements : List WalkTask → List LoadedFragment
  | [] => []
  | .enter _ :: agenda => placements agenda
  | .place f :: agenda => f :: placements agenda

/-- Entries alone place nothing, whatever comes after them. -/
theorem placements_entries (names : List String) (agenda : List WalkTask) :
    placements (names.map .enter ++ agenda) = placements agenda := by
  induction names with
  | nil => rfl
  | cons name names ih => exact ih

/-- A walk without tasks ends. -/
theorem walk_nil (fresh : List LoadedFragment) : walk fresh [] = [] := by rw [walk]

/-- A fragment to place comes out next. -/
theorem walk_place (fresh : List LoadedFragment) (f : LoadedFragment) (agenda : List WalkTask) :
    walk fresh (.place f :: agenda) = f :: walk fresh agenda := by rw [walk]

/-- A name that is not fresh is passed over. -/
theorem walk_absent {fresh : List LoadedFragment} {name : String}
    (h : fresh.find? (·.name = name) = none) (agenda : List WalkTask) :
    walk fresh (.enter name :: agenda) = walk fresh agenda := by
  rw [walk]
  split
  · rfl
  · simp_all

/-- A fresh fragment that is entered comes out after its spreads were entered. -/
theorem walk_found {fresh : List LoadedFragment} {name : String} {f : LoadedFragment}
    (h : fresh.find? (·.name = name) = some f) (agenda : List WalkTask) :
    walk fresh (.enter name :: agenda) =
      walk (without name fresh) (f.spreads.map .enter ++ .place f :: agenda) := by
  rw [walk]
  split
  · simp_all
  · simp_all

/-- A fragment is given up exactly when it has the name. -/
theorem mem_without {name : String} {fragments : List LoadedFragment} {f : LoadedFragment} :
    f ∈ without name fragments ↔ f ∈ fragments ∧ f.name ≠ name := by
  simp [without]

/-- Names stay distinct when a fragment is given up. -/
theorem nodup_without {fragments : List LoadedFragment}
    (hnames : (fragments.map LoadedFragment.name).Nodup) (name : String) :
    ((without name fragments).map LoadedFragment.name).Nodup :=
  hnames.sublist (List.filter_sublist.map _)

/-- A found fragment and those left when its name is given up are among the fragments. -/
theorem cons_without_subperm {name : String} {fragments : List LoadedFragment}
    {f : LoadedFragment} (h : fragments.find? (·.name = name) = some f) :
    (f :: without name fragments).Subperm fragments := by
  obtain ⟨hmem, hname⟩ := mem_and_name_of_find? h
  obtain ⟨before, after, rfl⟩ := List.append_of_mem hmem
  have hdrop : without name (before ++ f :: after) = without name before ++ without name after := by
    simp [without, hname]
  have hkeep : (without name before ++ without name after).Sublist (before ++ after) :=
    List.filter_sublist.append List.filter_sublist
  rw [hdrop]
  exact ((List.subperm_cons f).mpr hkeep.subperm).trans List.perm_middle.symm.subperm

/-- Nothing comes out that was neither to be placed nor fresh, and nothing more often. -/
theorem walk_subperm (fresh : List LoadedFragment) (agenda : List WalkTask) :
    (walk fresh agenda).Subperm (placements agenda ++ fresh) := by
  induction fresh, agenda using walk.induct with
  | case1 fresh => exact walk_nil fresh ▸ List.nil_subperm
  | case2 fresh f agenda ih =>
    rw [walk_place]
    exact (List.subperm_cons f).mpr ih
  | case3 fresh name agenda h ih =>
    rw [walk_absent h]
    exact ih
  | case4 fresh name agenda f h ih =>
    rw [walk_found h]
    rw [placements_entries] at ih
    refine ih.trans ?_
    have hmove : (placements (.place f :: agenda) ++ without name fresh).Perm
        (placements agenda ++ f :: without name fresh) := List.perm_middle.symm
    exact hmove.subperm.trans ((List.subperm_append_left _).mpr (cons_without_subperm h))

/-- What is to be placed comes out. -/
theorem mem_walk_of_place {fresh : List LoadedFragment} {agenda : List WalkTask}
    {f : LoadedFragment} (h : .place f ∈ agenda) : f ∈ walk fresh agenda := by
  induction fresh, agenda using walk.induct with
  | case1 fresh => simp at h
  | case2 fresh g agenda ih =>
    rw [walk_place]
    rcases List.mem_cons.mp h with heq | hrest
    · exact WalkTask.place.inj heq ▸ List.mem_cons_self
    · exact List.mem_cons_of_mem _ (ih hrest)
  | case3 fresh name agenda hnone ih =>
    rw [walk_absent hnone]
    exact ih (by simpa using h)
  | case4 fresh name agenda g hfound ih =>
    rw [walk_found hfound]
    refine ih (List.mem_append_right _ (List.mem_cons_of_mem _ ?_))
    simpa using h

/-- A fresh fragment whose name is to be entered comes out. -/
theorem mem_walk_of_enter {fresh : List LoadedFragment} {agenda : List WalkTask}
    {f : LoadedFragment} (hnames : (fresh.map LoadedFragment.name).Nodup) (hf : f ∈ fresh)
    (h : .enter f.name ∈ agenda) : f ∈ walk fresh agenda := by
  induction fresh, agenda using walk.induct with
  | case1 fresh => simp at h
  | case2 fresh g agenda ih =>
    rw [walk_place]
    exact List.mem_cons_of_mem _ (ih hnames hf (by simpa using h))
  | case3 fresh name agenda hnone ih =>
    rw [walk_absent hnone]
    rcases List.mem_cons.mp h with heq | hrest
    · exact absurd (WalkTask.enter.inj heq) (find?_name_eq_none.mp hnone f hf)
    · exact ih hnames hf hrest
  | case4 fresh name agenda g hfound ih =>
    rw [walk_found hfound]
    obtain ⟨hg, hname⟩ := mem_and_name_of_find? hfound
    by_cases heq : f.name = name
    · have hfg : f = g := eq_of_name_eq hnames hf hg (heq.trans hname.symm)
      exact mem_walk_of_place (List.mem_append_right _ (hfg ▸ List.mem_cons_self))
    · refine ih (nodup_without hnames name) (mem_without.mpr ⟨hf, heq⟩) ?_
      rcases List.mem_cons.mp h with hhead | hrest
      · exact absurd (WalkTask.enter.inj hhead) heq
      · exact List.mem_append_right _ (List.mem_cons_of_mem _ hrest)

/-- The order of a set holds each of its fragments once. -/
theorem FragmentSet.ordered_perm (set : FragmentSet) : set.ordered.Perm set.items := by
  have hnodup : set.items.Nodup := List.Nodup.of_map _ set.distinct
  have hall : set.items ⊆ set.ordered := fun f hf =>
    mem_walk_of_enter set.distinct hf (List.mem_map.mpr ⟨f, hf, rfl⟩)
  refine List.Subperm.antisymm ?_ (List.subperm_of_subset hnodup hall)
  have hroots : placements (set.items.map fun f => .enter f.name) = [] := by
    have h := placements_entries (set.items.map LoadedFragment.name) []
    rwa [List.map_map, List.append_nil] at h
  have h := walk_subperm set.items (set.items.map fun f => .enter f.name)
  rwa [hroots] at h

/-- The task for a fragment that stands for the one of a task. -/
def WalkTask.map (g : LoadedFragment → LoadedFragment) : WalkTask → WalkTask
  | .enter name => .enter name
  | .place f => .place (g f)

/-- The walk sees nothing of a fragment but its name and what it spreads. -/
theorem walk_map {g : LoadedFragment → LoadedFragment} (hname : ∀ f, (g f).name = f.name)
    (hspreads : ∀ f, (g f).spreads = f.spreads) (fresh : List LoadedFragment)
    (agenda : List WalkTask) :
    walk (fresh.map g) (agenda.map (WalkTask.map g)) = (walk fresh agenda).map g := by
  have hfind : ∀ (fs : List LoadedFragment) (name : String),
      (fs.map g).find? (·.name = name) = (fs.find? (·.name = name)).map g := by
    intro fs name
    simp only [List.find?_map, Function.comp_def, hname]
  induction fresh, agenda using walk.induct with
  | case1 fresh => rw [List.map_nil, walk_nil, walk_nil, List.map_nil]
  | case2 fresh f agenda ih =>
    rw [List.map_cons, WalkTask.map, walk_place, walk_place, List.map_cons, ih]
  | case3 fresh name agenda hnone ih =>
    rw [List.map_cons, WalkTask.map, walk_absent (by rw [hfind, hnone, Option.map_none]),
      walk_absent hnone, ih]
  | case4 fresh name agenda f hfound ih =>
    have hwithout : without name (fresh.map g) = (without name fresh).map g := by
      simp only [without, List.filter_map, Function.comp_def, hname]
    have hentries : (f.spreads.map WalkTask.enter).map (WalkTask.map g) =
        f.spreads.map WalkTask.enter := by
      rw [List.map_map]
      rfl
    rw [List.map_cons, WalkTask.map, walk_found (by rw [hfind, hfound, Option.map_some]),
      walk_found hfound, ← ih, List.map_append, hentries, List.map_cons, WalkTask.map, hwithout,
      hspreads]

/-- Fragments are put into order by their names and spreads. -/
theorem FragmentSet.ordered_map {g : LoadedFragment → LoadedFragment}
    (hname : ∀ f, (g f).name = f.name) (hspreads : ∀ f, (g f).spreads = f.spreads)
    {loaded others : FragmentSet} (hitems : loaded.items.map g = others.items.map g) :
    loaded.ordered.map g = others.ordered.map g := by
  have hordered : ∀ set : FragmentSet, set.ordered.map g =
      walk (set.items.map g) ((set.items.map g).map (.enter ·.name)) := by
    intro set
    rw [ordered, ← walk_map hname hspreads, List.map_map, List.map_map]
    congr 1
    refine List.map_congr_left fun f _ => ?_
    rw [Function.comp_apply, Function.comp_apply, WalkTask.map, hname]
  rw [hordered, hordered, hitems]

/-- A walk that leads to none of some other fragments goes on with these behind it. -/
theorem walk_prefix {fresh others : List LoadedFragment} {agenda : List WalkTask}
    (rest : List WalkTask) (hspreads : ∀ f ∈ fresh, ∀ g ∈ others, g.name ∉ f.spreads)
    (hagenda : ∀ g ∈ others, .enter g.name ∉ agenda) :
    walk fresh agenda <+: walk (fresh ++ others) (agenda ++ rest) := by
  induction fresh, agenda using walk.induct with
  | case1 fresh => exact walk_nil fresh ▸ List.nil_prefix
  | case2 fresh f agenda ih =>
    rw [List.cons_append, walk_place, walk_place]
    exact (List.prefix_cons_inj f).mpr (ih hspreads (by simpa using hagenda))
  | case3 fresh name agenda hnone ih =>
    have hothers : ∀ g ∈ others, g.name ≠ name := by
      rintro g hg rfl
      exact hagenda g hg List.mem_cons_self
    have hnone' : (fresh ++ others).find? (·.name = name) = none := by
      rw [List.find?_append, hnone, Option.none_or]
      exact find?_name_eq_none.mpr hothers
    rw [List.cons_append, walk_absent hnone, walk_absent hnone']
    exact ih hspreads fun g hg hmem => hagenda g hg (List.mem_cons_of_mem _ hmem)
  | case4 fresh name agenda f hfound ih =>
    have hfound' : (fresh ++ others).find? (·.name = name) = some f := by
      rw [List.find?_append, hfound, Option.some_or]
    have hothers : without name (fresh ++ others) = without name fresh ++ others := by
      have hkeep : without name others = others := by
        refine List.filter_eq_self.mpr fun g hg => ?_
        have hne : g.name ≠ name := fun heq => hagenda g hg (heq ▸ List.mem_cons_self)
        simpa using hne
      rw [without, List.filter_append, ← without, ← without, hkeep]
    rw [List.cons_append, walk_found hfound, walk_found hfound', hothers]
    have htasks : f.spreads.map WalkTask.enter ++ .place f :: (agenda ++ rest) =
        (f.spreads.map WalkTask.enter ++ .place f :: agenda) ++ rest := by simp
    rw [htasks]
    refine ih (fun g hg => hspreads g (mem_without.mp hg).1) fun g hg hmem => ?_
    rcases List.mem_append.mp hmem with hmem | hmem
    · obtain ⟨spread, hspread, heq⟩ := List.mem_map.mp hmem
      rw [WalkTask.enter.inj heq] at hspread
      exact hspreads f (mem_and_name_of_find? hfound).1 g hg hspread
    · exact hagenda g hg (by simpa using Or.inr hmem)

/-- Fragments that spread none of those behind them are put into the same order, before these. -/
theorem FragmentSet.ordered_prefix {loaded all : FragmentSet} {later : List LoadedFragment}
    (hitems : all.items = loaded.items ++ later)
    (hspreads : ∀ f ∈ loaded.items, ∀ g ∈ later, g.name ∉ f.spreads) :
    loaded.ordered <+: all.ordered := by
  rw [ordered, ordered, hitems, List.map_append]
  refine walk_prefix _ hspreads fun g hg hmem => ?_
  obtain ⟨f, hf, heq⟩ := List.mem_map.mp hmem
  have hnames := all.distinct
  rw [hitems, List.map_append, List.nodup_append] at hnames
  exact hnames.2.2 f.name (List.mem_map_of_mem hf) g.name (List.mem_map_of_mem hg)
    (WalkTask.enter.inj heq)

end GraphqlClient
