import GraphqlClient.Proofs.Fragments.Load

/-!
# Repeated fragment names

Loading fails exactly when a name is repeated, and then at the first fragment whose name was there
before. The failure tells this fragment and the one that had the name first. Which fragments these are
is a matter of the names alone.
-/

namespace GraphqlClient

/-- The fragment `g` at index `j` is the first one whose name was there before, and `f` at index `i`
had it. -/
structure FirstRepeat (fragments : List LoadedFragment) (i j : Nat) (f g : LoadedFragment) :
    Prop where
  lt : i < j
  earlier : fragments[i]? = some f
  later : fragments[j]? = some g
  name_eq : f.name = g.name
  least : ∀ l k x y, l < k → k < j → fragments[l]? = some x → fragments[k]? = some y →
    x.name ≠ y.name

namespace FirstRepeat

variable {fragments : List LoadedFragment} {i j i' j' : Nat} {f g f' g' : LoadedFragment}

/-- There is at most one first repetition. -/
theorem unique (h : FirstRepeat fragments i j f g) (h' : FirstRepeat fragments i' j' f' g') :
    f = f' ∧ g = g' := by
  have hj : j = j' := by
    rcases Nat.lt_trichotomy j j' with hlt | heq | hgt
    · exact absurd h.name_eq (h'.least i j f g h.lt hlt h.earlier h.later)
    · exact heq
    · exact absurd h'.name_eq (h.least i' j' f' g' h'.lt hgt h'.earlier h'.later)
  subst hj
  have hg : g = g' := Option.some.inj (h.later.symm.trans h'.later)
  have hname : f.name = f'.name := h.name_eq.trans (hg ▸ h'.name_eq.symm)
  have hi : i = i' := by
    rcases Nat.lt_trichotomy i i' with hlt | heq | hgt
    · exact absurd hname (h.least i i' f f' hlt h'.lt h.earlier h'.earlier)
    · exact heq
    · exact absurd hname.symm (h.least i' i f' f hgt h.lt h'.earlier h.earlier)
  subst hi
  exact ⟨Option.some.inj (h.earlier.symm.trans h'.earlier), hg⟩

/-- A repetition makes names not distinct. -/
theorem not_nodup (h : FirstRepeat fragments i j f g) :
    ¬ (fragments.map LoadedFragment.name).Nodup := by
  intro hnodup
  have hlength : j < (fragments.map LoadedFragment.name).length := by
    rw [List.length_map]
    exact (List.getElem?_eq_some_iff.mp h.later).1
  refine List.nodup_iff_getElem?_ne_getElem?.mp hnodup i j h.lt hlength ?_
  rw [List.getElem?_map, List.getElem?_map, h.earlier, h.later, Option.map_some, Option.map_some,
    h.name_eq]

/-- Where names are the same, the first repetition is at the same indices. -/
theorem exists_of_names {others : List LoadedFragment} (h : FirstRepeat fragments i j f g)
    (hnames : fragments.map LoadedFragment.name = others.map LoadedFragment.name) :
    ∃ f' g', FirstRepeat others i j f' g' ∧ g'.name = g.name := by
  have hat : ∀ {xs ys : List LoadedFragment} {k : Nat} {x : LoadedFragment},
      xs.map LoadedFragment.name = ys.map LoadedFragment.name → xs[k]? = some x →
        ∃ y, ys[k]? = some y ∧ y.name = x.name := by
    intro xs ys k x hnames hx
    have hk := congrArg (fun names => names[k]?) hnames
    simp only [List.getElem?_map, hx, Option.map_some] at hk
    exact Option.map_eq_some_iff.mp hk.symm
  obtain ⟨f', hf', hfname⟩ := hat hnames h.earlier
  obtain ⟨g', hg', hgname⟩ := hat hnames h.later
  refine ⟨f', g', ⟨h.lt, hf', hg', ?_, ?_⟩, hgname⟩
  · rw [hfname, hgname, h.name_eq]
  · intro l k x y hlk hk hx hy
    obtain ⟨x', hx', hxname⟩ := hat hnames.symm hx
    obtain ⟨y', hy', hyname⟩ := hat hnames.symm hy
    rw [← hxname, ← hyname]
    exact h.least l k x' y' hlk hk hx' hy'

end FirstRepeat

/-- Distinct names differ at different indices. -/
theorem name_ne_of_lt {fragments : List LoadedFragment}
    (hnames : (fragments.map LoadedFragment.name).Nodup) {l k : Nat} {x y : LoadedFragment}
    (hlt : l < k) (hx : fragments[l]? = some x) (hy : fragments[k]? = some y) : x.name ≠ y.name := by
  have hlength : k < (fragments.map LoadedFragment.name).length := by
    rw [List.length_map]
    exact (List.getElem?_eq_some_iff.mp hy).1
  have hne := List.nodup_iff_getElem?_ne_getElem?.mp hnames l k hlt hlength
  rw [List.getElem?_map, List.getElem?_map, hx, hy] at hne
  exact fun heq => hne (congrArg some heq)

namespace FragmentSet

/-- Loading that fails does so at the first repetition. -/
theorem firstRepeat_of_load {set : FragmentSet} {fs : List LoadedFragment} {e : DuplicateFragment}
    (h : set.load fs = .error e) :
    ∃ i j f g, FirstRepeat (set.items ++ fs) i j f g ∧ e = ⟨g.name, f.location, g.location⟩ := by
  fun_induction load set fs with
  | case1 set => cases h
  | case2 set g fs f hf =>
    cases h
    obtain ⟨hmem, hname⟩ := mem_and_name_of_find? hf
    obtain ⟨i, hi⟩ := List.mem_iff_getElem?.mp hmem
    have hlt : i < set.items.length := (List.getElem?_eq_some_iff.mp hi).1
    refine ⟨i, set.items.length, f, g, ⟨hlt, ?_, ?_, hname, ?_⟩, rfl⟩
    · rw [List.getElem?_append_left hlt, hi]
    · rw [List.getElem?_append_right (Nat.le_refl _), Nat.sub_self, List.getElem?_cons_zero]
    · -- what was loaded before has distinct names
      intro l k x y hlk hk hx hy
      rw [List.getElem?_append_left (Nat.lt_trans hlk hk)] at hx
      rw [List.getElem?_append_left hk] at hy
      exact name_ne_of_lt set.distinct hlk hx hy
  | case3 set g fs hg ih =>
    obtain ⟨i, j, f, g', hrepeat, he⟩ := ih h
    rw [push, List.append_assoc, List.singleton_append] at hrepeat
    exact ⟨i, j, f, g', hrepeat, he⟩

/-- Loading fails exactly at the first repetition. -/
theorem ofList_eq_error_iff {fragments : List LoadedFragment} {e : DuplicateFragment} :
    ofList fragments = .error e ↔
      ∃ i j f g, FirstRepeat fragments i j f g ∧ e = ⟨g.name, f.location, g.location⟩ := by
  constructor
  · intro h
    exact firstRepeat_of_load h
  · rintro ⟨i, j, f, g, hrepeat, rfl⟩
    cases hload : ofList fragments with
    | ok set => exact absurd (ofList_eq_ok_iff.mp hload ▸ set.distinct) hrepeat.not_nodup
    | error e =>
      obtain ⟨i', j', f', g', hrepeat', rfl⟩ := firstRepeat_of_load hload
      obtain ⟨rfl, rfl⟩ := hrepeat.unique hrepeat'
      rfl

/-- Fragments of the same names fail to load with the same name. -/
theorem ofList_eq_error_of_names {fragments others : List LoadedFragment} {e : DuplicateFragment}
    (hnames : fragments.map LoadedFragment.name = others.map LoadedFragment.name)
    (h : ofList fragments = .error e) : ∃ e', ofList others = .error e' ∧ e.name = e'.name := by
  obtain ⟨i, j, f, g, hrepeat, rfl⟩ := ofList_eq_error_iff.mp h
  obtain ⟨f', g', hrepeat', hname⟩ := hrepeat.exists_of_names hnames
  exact ⟨_, ofList_eq_error_iff.mpr ⟨i, j, f', g', hrepeat', rfl⟩, hname.symm⟩

/-- Fragments load exactly when their names are distinct. -/
theorem ofList_isOk_iff {fragments : List LoadedFragment} :
    (∃ set, ofList fragments = .ok set) ↔ (fragments.map LoadedFragment.name).Nodup := by
  constructor
  · rintro ⟨set, h⟩
    exact ofList_eq_ok_iff.mp h ▸ set.distinct
  · intro h
    exact ⟨⟨fragments, h⟩, ofList_eq_ok_iff.mpr rfl⟩

end FragmentSet

end GraphqlClient
