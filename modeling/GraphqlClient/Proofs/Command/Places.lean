import Mathlib.Data.List.Nodup
import GraphqlClient.Command.Discovery
import GraphqlClient.Proofs.Command.Scan
import GraphqlClient.Proofs.Text.Bytes

/-!
# The places of a tree

What lies in a tree lies at the end of some names. A walk comes by all of it, and by each once, in
the order of these names: a directory comes before what lies in it, and what lies in it comes before
all that lies under a greater name of the same directory, by the bytes of the names.
-/

namespace GraphqlClient

/-- The path at the end of some names below another path. -/
def joinNames (path : String) (names : List String) : String := names.foldl joinPath path

namespace Entry

/-- A tree in which every directory has its entries under distinct names without slashes. -/
structure WellNamed (tree : Entry) : Prop where
  distinct : ∀ names entries, tree.at? names = some (.directory entries) →
    (entries.map Prod.fst).Nodup
  whole : ∀ names entries, tree.at? names = some (.directory entries) →
    ∀ name ∈ entries.map Prod.fst, '/' ∉ name.toList

/-- A file is such a tree. -/
theorem wellNamed_file (content : ByteArray) : (file content).WellNamed where
  distinct := fun names entries h => by cases names <;> cases h
  whole := fun names entries h => by cases names <;> cases h

/-- So is a directory of such trees under distinct names without slashes. -/
theorem wellNamed_directory {entries : List (String × Entry)}
    (hdistinct : (entries.map Prod.fst).Nodup)
    (hwhole : ∀ name ∈ entries.map Prod.fst, '/' ∉ name.toList)
    (hentries : ∀ e ∈ entries, e.2.WellNamed) : (directory entries).WellNamed := by
  have hinner : ∀ name names entry, (directory entries).at? (name :: names) = some entry →
      ∃ e ∈ entries, e.2.at? names = some entry := by
    intro name names entry h
    obtain ⟨e, he, hat⟩ := Option.bind_eq_some_iff.mp h
    obtain ⟨found, hfound, rfl⟩ := Option.map_eq_some_iff.mp he
    exact ⟨found, List.mem_of_find?_eq_some hfound, hat⟩
  constructor
  · rintro (_ | ⟨name, names⟩) es h
    · cases h
      exact hdistinct
    · obtain ⟨e, he, hat⟩ := hinner name names _ h
      exact (hentries e he).distinct names es hat
  · rintro (_ | ⟨name, names⟩) es h
    · cases h
      exact hwhole
    · obtain ⟨e, he, hat⟩ := hinner name names _ h
      exact (hentries e he).whole names es hat

/-- What holds of files, and of a directory if it holds of its entries, holds of every tree. -/
@[elab_as_elim]
theorem induction {motive : Entry → Prop} (file : ∀ content, motive (.file content))
    (directory : ∀ entries, (∀ e ∈ entries, motive e.2) → motive (.directory entries)) :
    ∀ tree, motive tree
  | .file content => file content
  | .directory entries => directory entries fun e _ => induction file directory e.2
termination_by tree => sizeOf tree
decreasing_by
  have hentry := List.sizeOf_lt_of_mem ‹_ ∈ entries›
  obtain ⟨name, entry⟩ := e
  simp_wf
  simp only [Prod.mk.sizeOf_spec] at hentry
  omega

/-- The entries of a directory, in the order of their names. -/
def byName (entries : List (String × Entry)) : List (String × Entry) :=
  entries.mergeSort fun a b => a.1 ≤ b.1

/-- What is listed for the entries of a directory comes in the order of their names. -/
theorem flatMap_byName {β : Type} (f : String × Entry → List β) (entries : List (String × Entry)) :
    ((entries.map fun e => (e.1, f e)).mergeSort fun a b => a.1 ≤ b.1).flatMap Prod.snd =
      (byName entries).flatMap f := by
  rw [byName, ← List.map_mergeSort (r := fun a b => decide (a.1 ≤ b.1)) fun _ _ _ _ => rfl,
    List.flatMap_map]

/-- How a walk comes by an entry itself. -/
def visit (path : String) : Entry → Visit
  | .file content => .file ⟨path, content⟩
  | .directory _ => .directory path

mutual

/-- All that lies in a tree, by the names that lead there, in the order of a walk. -/
def places : Entry → List (List String × Entry)
  | .file content => [([], .file content)]
  | .directory entries =>
    ([], .directory entries) ::
      ((placesByName entries).mergeSort fun a b => a.1 ≤ b.1).flatMap Prod.snd

/-- The names of some entries of a directory, and all that lies in each. -/
def placesByName : List (String × Entry) → List (String × List (List String × Entry))
  | [] => []
  | (name, entry) :: entries =>
    (name, entry.places.map fun p => (name :: p.1, p.2)) :: placesByName entries

end

/-- The places under a name of a directory. -/
def placesUnder (e : String × Entry) : List (List String × Entry) :=
  e.2.places.map fun p => (e.1 :: p.1, p.2)

/-- A directory comes before its entries in the order of their names. -/
theorem places_directory (entries : List (String × Entry)) :
    (directory entries).places = ([], directory entries) :: (byName entries).flatMap placesUnder := by
  have hnamed : placesByName entries = entries.map fun e => (e.1, placesUnder e) := by
    induction entries with
    | nil => rfl
    | cons e entries ih => rw [placesByName, ih, List.map_cons, placesUnder]
  rw [places, hnamed, flatMap_byName]

/-- So it is in a walk. -/
theorem visits_directory (path : String) (entries : List (String × Entry)) :
    (directory entries).visits path =
      .directory path :: (byName entries).flatMap fun e => e.2.visits (joinPath path e.1) := by
  have hnamed : visitsByName path entries =
      entries.map fun e => (e.1, e.2.visits (joinPath path e.1)) := by
    induction entries with
    | nil => rfl
    | cons e entries ih => rw [visitsByName, ih, List.map_cons]
  rw [visits, hnamed, flatMap_byName]

/-- A walk comes by the places of a tree. -/
theorem visits_eq (tree : Entry) (path : String) :
    tree.visits path = tree.places.map fun p => p.2.visit (joinNames path p.1) := by
  induction tree using Entry.induction generalizing path with
  | file content => rfl
  | directory entries ih =>
    have hentries : ∀ e ∈ byName entries, e.2.visits (joinPath path e.1) =
        (placesUnder e).map fun p => p.2.visit (joinNames path p.1) := by
      intro e he
      rw [ih e (List.mem_mergeSort.mp he), placesUnder, List.map_map]
      rfl
    rw [visits_directory, places_directory, List.map_cons, List.map_flatMap,
      List.flatMap_congr hentries]
    rfl

/-- An entry has its name when no other one has it. -/
theorem entryNamed_eq_some_iff {name : String} {entry : Entry} {entries : List (String × Entry)}
    (h : (entries.map Prod.fst).Nodup) :
    entryNamed name entries = some entry ↔ (name, entry) ∈ entries := by
  induction entries with
  | nil => simp [entryNamed]
  | cons head rest ih =>
    obtain ⟨n, e⟩ := head
    obtain ⟨hhead, hrest⟩ := List.nodup_cons.mp h
    by_cases hn : n = name
    · subst hn
      have hother : (n, entry) ∉ rest := fun hmem => hhead (List.mem_map.mpr ⟨_, hmem, rfl⟩)
      simp [entryNamed, hother, eq_comm]
    · rw [entryNamed, List.find?_cons_of_neg (by simpa using hn), List.mem_cons,
        or_iff_right fun heq => hn (congrArg Prod.fst heq).symm, ← ih hrest, entryNamed]

namespace WellNamed

variable {tree entry : Entry} {names : List String}

/-- What lies in a tree is a tree of the same kind. -/
theorem at? (h : tree.WellNamed) (hat : tree.at? names = some entry) : entry.WellNamed where
  distinct := fun rest entries hrest =>
    h.distinct (names ++ rest) entries (by rw [at?_append, hat]; exact hrest)
  whole := fun rest entries hrest =>
    h.whole (names ++ rest) entries (by rw [at?_append, hat]; exact hrest)

/-- A name that leads anywhere has no slash. -/
theorem slash_notMem (h : tree.WellNamed) {name : String}
    (hat : tree.at? (names ++ [name]) = some entry) : '/' ∉ name.toList := by
  rw [at?_append] at hat
  obtain ⟨middle, hmiddle, hat⟩ := Option.bind_eq_some_iff.mp hat
  cases middle with
  | file content => cases hat
  | directory entries =>
    obtain ⟨e, he, -⟩ := Option.bind_eq_some_iff.mp hat
    rw [entryNamed_eq_some_iff (h.distinct names entries hmiddle)] at he
    exact h.whole names entries hmiddle name (List.mem_map_of_mem he)

variable {entries : List (String × Entry)}

/-- The entry of a name in a directory lies at the end of that name. -/
theorem at?_cons_eq_some_iff (h : (directory entries).WellNamed) {name : String} :
    (directory entries).at? (name :: names) = some entry ↔
      ∃ e, (name, e) ∈ entries ∧ e.at? names = some entry := by
  rw [Entry.at?, Option.bind_eq_some_iff]
  simp only [entryNamed_eq_some_iff (h.distinct [] entries rfl)]

/-- The entries of a directory are trees of the same kind. -/
theorem of_mem (h : (directory entries).WellNamed) {e : String × Entry} (he : e ∈ entries) :
    e.2.WellNamed := by
  have hat : (directory entries).at? [e.1] = some e.2 := h.at?_cons_eq_some_iff.mpr ⟨e.2, he, rfl⟩
  exact h.at? hat

/-- The entries of a directory come in the order of the bytes of their names. -/
theorem pairwise_byName (h : (directory entries).WellNamed) :
    (byName entries).Pairwise fun a b => Text.bytes a.1 < Text.bytes b.1 := by
  have hsorted : (byName entries).Pairwise fun a b => a.1 ≤ b.1 :=
    pairwise_mergeSort_text Prod.fst entries
  have hdistinct : (byName entries).Pairwise fun a b => a.1 ≠ b.1 := by
    have hnodup := h.distinct [] entries rfl
    exact List.pairwise_map.mp (((List.mergeSort_perm entries _).map Prod.fst).nodup_iff.mpr hnodup)
  refine hsorted.imp₂ (fun a b hle hne => Text.bytes_lt ?_) hdistinct
  exact String.not_le.mp fun hge => hne (String.le_antisymm hle hge)

/-- The places of a tree are the ends of names, with what lies there. -/
theorem mem_places_iff (h : tree.WellNamed) :
    (names, entry) ∈ tree.places ↔ tree.at? names = some entry := by
  induction tree using Entry.induction generalizing names with
  | file content => cases names <;> simp [places, Entry.at?, eq_comm]
  | directory entries ih =>
    rw [places_directory, List.mem_cons, List.mem_flatMap]
    cases names with
    | nil => simp [placesUnder, Entry.at?, eq_comm]
    | cons name names =>
      rw [h.at?_cons_eq_some_iff, or_iff_right (by simp)]
      constructor
      · rintro ⟨e, he, hunder⟩
        obtain ⟨p, hplace, heq⟩ := List.mem_map.mp hunder
        cases heq
        have hmem := List.mem_mergeSort.mp he
        exact ⟨e.2, hmem, (ih e hmem (h.of_mem hmem)).mp hplace⟩
      · rintro ⟨e, he, hat⟩
        exact ⟨(name, e), List.mem_mergeSort.mpr he,
          List.mem_map.mpr ⟨(names, entry), (ih (name, e) he (h.of_mem he)).mpr hat, rfl⟩⟩

/-- The places of a tree come in the order of the bytes of their names, name by name. -/
theorem pairwise_places (h : tree.WellNamed) :
    tree.places.Pairwise fun a b => a.1.map Text.bytes < b.1.map Text.bytes := by
  induction tree using Entry.induction with
  | file content => exact List.pairwise_singleton _ _
  | directory entries ih =>
    -- No name is less than any name; what lies under one name is in order by induction, and what
    -- lies under different names is told apart by these.
    rw [places_directory, List.pairwise_cons, List.pairwise_flatMap]
    refine ⟨fun p hp => ?_, fun e he => ?_, h.pairwise_byName.imp fun hlt p hp q hq => ?_⟩
    · obtain ⟨e, -, hunder⟩ := List.mem_flatMap.mp hp
      obtain ⟨rest, -, rfl⟩ := List.mem_map.mp hunder
      exact List.Lex.nil
    · have hmem := List.mem_mergeSort.mp he
      exact List.pairwise_map.mpr ((ih e hmem (h.of_mem hmem)).imp List.Lex.cons)
    · obtain ⟨rest, -, rfl⟩ := List.mem_map.mp hp
      obtain ⟨others, -, rfl⟩ := List.mem_map.mp hq
      exact List.Lex.rel hlt

end WellNamed

end Entry

end GraphqlClient
