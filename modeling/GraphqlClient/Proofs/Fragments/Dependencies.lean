import GraphqlClient.Proofs.Fragments.Load
import GraphqlClient.Proofs.Fragments.Walk
import GraphqlClient.Sdk.Catalogue

/-!
# Dependencies first

Of two fragments of which the first spreads the second, the second is declared first, unless it
leads back to the first. Cycles and spreads of unknown fragments elsewhere do not matter.

The first of the two to be entered decides. If it is the one that spreads, its spreads stand on the
agenda before it is placed. If it is the other one, all that is entered before it is placed is
reached from it, and so the one that spreads is not.
-/

namespace GraphqlClient

/-- What is entered or placed before a fragment is placed comes out before it. -/
theorem sublist_walk_of_before {fresh : List LoadedFragment} {agenda before after : List WalkTask}
    {f g : LoadedFragment} (hnames : (fresh.map LoadedFragment.name).Nodup)
    (hagenda : agenda = before ++ .place f :: after)
    (hg : .place g ∈ before ∨ g ∈ fresh ∧ .enter g.name ∈ before) :
    [g, f].Sublist (walk fresh agenda) := by
  induction fresh, agenda using walk.induct generalizing before with
  | case1 fresh => simp at hagenda
  | case2 fresh h agenda ih =>
    cases before with
    | nil => simp at hg
    | cons task before =>
      obtain ⟨rfl, rfl⟩ := List.cons.inj hagenda
      rw [walk_place]
      by_cases hgh : g = h
      · have hf : f ∈ walk fresh (before ++ .place f :: after) :=
          mem_walk_of_place (List.mem_append_right _ List.mem_cons_self)
        exact hgh ▸ (List.singleton_sublist.mpr hf).cons_cons g
      · have hrest : .place g ∈ before ∨ g ∈ fresh ∧ .enter g.name ∈ before := by
          simpa [hgh] using hg
        exact (ih hnames rfl hrest).cons h
  | case3 fresh name agenda hnone ih =>
    cases before with
    | nil => simp at hagenda
    | cons task before =>
      obtain ⟨rfl, rfl⟩ := List.cons.inj hagenda
      rw [walk_absent hnone]
      refine ih hnames rfl ?_
      rcases hg with hplace | ⟨hfresh, henter⟩
      · exact Or.inl (by simpa using hplace)
      · have hne : g.name ≠ name := find?_name_eq_none.mp hnone g hfresh
        exact Or.inr ⟨hfresh, by simpa [hne] using henter⟩
  | case4 fresh name agenda h hfound ih =>
    cases before with
    | nil => simp at hagenda
    | cons task before =>
      obtain ⟨rfl, rfl⟩ := List.cons.inj hagenda
      obtain ⟨hh, hname⟩ := mem_and_name_of_find? hfound
      rw [walk_found hfound]
      refine ih (nodup_without hnames name)
        (List.append_assoc _ (.place h :: before) (.place f :: after)).symm ?_
      rcases hg with hplace | ⟨hfresh, henter⟩
      · exact Or.inl (by simp_all)
      · by_cases heq : g.name = name
        · have hgh : g = h := eq_of_name_eq hnames hfresh hh (heq.trans hname.symm)
          exact Or.inl (by simp [hgh])
        · exact Or.inr ⟨mem_without.mpr ⟨hfresh, heq⟩, by simp_all⟩

/-- A task is reached from selections if it enters or places only what they reach. -/
def WalkTask.ReachedFrom (loaded : List LoadedFragment) (selections : List Selection) :
    WalkTask → Prop
  | .enter name => ∀ f ∈ loaded, f.name = name → GraphqlClient.ReachedFrom loaded selections f
  | .place f => GraphqlClient.ReachedFrom loaded selections f

/-- Entering the spreads of a reached fragment reaches no further. -/
theorem ReachedFrom.spreads {loaded : List LoadedFragment} {selections : List Selection}
    {f : LoadedFragment} (hf : ReachedFrom loaded selections f) :
    ∀ task ∈ f.spreads.map WalkTask.enter, task.ReachedFrom loaded selections := by
  intro task htask
  obtain ⟨name, hname, rfl⟩ := List.mem_map.mp htask
  rintro g hg rfl
  exact .through hf hg ((f.mem_spreads g.name).mp hname)

/-- A fragment comes out before all that the tasks before it do not reach. -/
theorem sublist_walk_of_not_reached {loaded fresh : List LoadedFragment}
    {agenda before after : List WalkTask} {f g : LoadedFragment} (selections : List Selection)
    (hfresh : fresh ⊆ loaded) (hagenda : agenda = before ++ .place g :: after)
    (hbefore : ∀ task ∈ before, task.ReachedFrom loaded selections)
    (hf : ¬ ReachedFrom loaded selections f) (hne : f ≠ g) (hmem : f ∈ walk fresh agenda) :
    [g, f].Sublist (walk fresh agenda) := by
  induction fresh, agenda using walk.induct generalizing before with
  | case1 fresh => simp at hagenda
  | case2 fresh h agenda ih =>
    rw [walk_place] at hmem ⊢
    cases before with
    | nil =>
      obtain ⟨hhead, rfl⟩ := List.cons.inj hagenda
      cases hhead
      have hrest : f ∈ walk fresh agenda := (List.mem_cons.mp hmem).resolve_left hne
      exact (List.singleton_sublist.mpr hrest).cons_cons g
    | cons task before =>
      obtain ⟨rfl, rfl⟩ := List.cons.inj hagenda
      rw [List.forall_mem_cons] at hbefore
      have hfh : f ≠ h := fun heq => hf (heq ▸ hbefore.1)
      have hrest := (List.mem_cons.mp hmem).resolve_left hfh
      exact (ih hfresh rfl hbefore.2 hrest).cons h
  | case3 fresh name agenda hnone ih =>
    rw [walk_absent hnone] at hmem ⊢
    cases before with
    | nil => simp at hagenda
    | cons task before =>
      obtain ⟨rfl, rfl⟩ := List.cons.inj hagenda
      exact ih hfresh rfl (List.forall_mem_cons.mp hbefore).2 hmem
  | case4 fresh name agenda h hfound ih =>
    rw [walk_found hfound] at hmem ⊢
    cases before with
    | nil => simp at hagenda
    | cons task before =>
      obtain ⟨rfl, rfl⟩ := List.cons.inj hagenda
      obtain ⟨hh, hname⟩ := mem_and_name_of_find? hfound
      rw [List.forall_mem_cons] at hbefore
      have hreached : ReachedFrom loaded selections h := hbefore.1 h (hfresh hh) hname
      refine ih (fun x hx => hfresh (mem_without.mp hx).1)
        (List.append_assoc _ (.place h :: before) (.place g :: after)).symm ?_ hmem
      intro task htask
      rcases List.mem_append.mp htask with hspread | hrest
      · exact hreached.spreads task hspread
      · rcases List.mem_cons.mp hrest with rfl | hrest
        · exact hreached
        · exact hbefore.2 task hrest

/-- A walk that will enter a fragment gives out first what the fragment spreads, unless that leads
back to it. -/
theorem sublist_walk_of_spread {loaded fresh : List LoadedFragment} {agenda : List WalkTask}
    {f g : LoadedFragment} (hnames : (fresh.map LoadedFragment.name).Nodup)
    (hfresh : fresh ⊆ loaded) (hf : f ∈ fresh) (hg : g ∈ fresh)
    (hspread : SpreadIn g.name f.fragment.selections)
    (hback : ¬ ReachedFrom loaded g.fragment.selections f) (henter : .enter f.name ∈ agenda) :
    [g, f].Sublist (walk fresh agenda) := by
  have hne : f ≠ g := by
    rintro rfl
    exact hback (.direct (hfresh hf) hspread)
  induction fresh, agenda using walk.induct with
  | case1 fresh => simp at henter
  | case2 fresh h agenda ih =>
    rw [walk_place]
    exact (ih hnames hfresh hf hg (by simpa using henter)).cons h
  | case3 fresh name agenda hnone ih =>
    rw [walk_absent hnone]
    have hfn : f.name ≠ name := find?_name_eq_none.mp hnone f hf
    exact ih hnames hfresh hf hg (by simpa [hfn] using henter)
  | case4 fresh name agenda h hfound ih =>
    obtain ⟨hh, rfl⟩ := mem_and_name_of_find? hfound
    have hleft : without h.name fresh ⊆ loaded := fun x hx => hfresh (mem_without.mp hx).1
    have hnames' := nodup_without hnames h.name
    have hkeep : ∀ x ∈ fresh, x ≠ h → x ∈ without h.name fresh := fun x hx hxh =>
      mem_without.mpr ⟨hx, fun heq => hxh (eq_of_name_eq hnames hx hh heq)⟩
    rw [walk_found hfound]
    by_cases hfh : f = h
    · subst hfh
      have hgs : .enter g.name ∈ f.spreads.map WalkTask.enter :=
        List.mem_map.mpr ⟨g.name, (f.mem_spreads g.name).mpr hspread, rfl⟩
      exact sublist_walk_of_before hnames' rfl (Or.inr ⟨hkeep g hg (Ne.symm hne), hgs⟩)
    · have hfn : f.name ≠ h.name := fun heq => hfh (eq_of_name_eq hnames hf hh heq)
      have hrest : .enter f.name ∈ h.spreads.map WalkTask.enter ++ .place h :: agenda :=
        List.mem_append_right _ (List.mem_cons_of_mem _ (by simpa [hfn] using henter))
      by_cases hgh : g = h
      · subst hgh
        refine sublist_walk_of_not_reached g.fragment.selections hleft rfl ?_ hback hne
          (mem_walk_of_enter hnames' (hkeep f hf hfh) hrest)
        intro task htask
        obtain ⟨name, hname, rfl⟩ := List.mem_map.mp htask
        rintro x hx rfl
        exact .direct hx ((g.mem_spreads x.name).mp hname)
      · exact ih hnames' hleft (hkeep f hf hfh) (hkeep g hg hgh) hrest

/-- A fragment stands behind what it spreads, unless that leads back to it. -/
theorem FragmentSet.sublist_ordered (set : FragmentSet) {f g : LoadedFragment}
    (hf : f ∈ set.items) (hg : g ∈ set.items) (hspread : SpreadIn g.name f.fragment.selections)
    (hback : ¬ ReachedFrom set.items g.fragment.selections f) : [g, f].Sublist set.ordered :=
  sublist_walk_of_spread set.distinct (List.Subset.refl _) hf hg hspread hback
    (List.mem_map.mpr ⟨f, hf, rfl⟩)

end GraphqlClient
