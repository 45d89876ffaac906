import Mathlib.Data.List.Forall2
import GraphqlClient.Proofs.Command.Extensions
import GraphqlClient.Proofs.Command.Listing
import GraphqlClient.Proofs.Command.Places

/-!
# The files that are found

A search finds the files at and under its paths that have an extension that is asked for: all of
them, path by path, and under each path once and in the order of the bytes of the names that lead
there. Only a single path that is itself a file is taken with another extension, and only with a
warning.
-/

namespace GraphqlClient

/-- A file below a path, found by the names that lead there. -/
def foundBelow (path : String) (f : List String × ByteArray) : FoundFile :=
  ⟨joinNames path f.1, f.2⟩

namespace Entry

/-- The files among some places. -/
def filesAmong (places : List (List String × Entry)) : List (List String × ByteArray) :=
  places.filterMap fun p =>
    match p.2 with
    | .file content => some (p.1, content)
    | .directory _ => none

/-- A file among some places is at one of them. -/
theorem mem_filesAmong_iff {places : List (List String × Entry)} {names : List String}
    {content : ByteArray} :
    (names, content) ∈ filesAmong places ↔ (names, file content) ∈ places := by
  rw [filesAmong, List.mem_filterMap]
  constructor
  · rintro ⟨⟨ns, e⟩, hp, hfile⟩
    cases e with
    | file c =>
      cases hfile
      exact hp
    | directory es => cases hfile
  · exact fun hp => ⟨_, hp, rfl⟩

/-- The files among some places are in the order of the places. -/
theorem pairwise_filesAmong {places : List (List String × Entry)}
    (h : places.Pairwise fun a b => a.1.map Text.bytes < b.1.map Text.bytes) :
    (filesAmong places).Pairwise fun a b => a.1.map Text.bytes < b.1.map Text.bytes := by
  have hnames : ∀ {p : List String × Entry} {f : List String × ByteArray},
      (match p.2 with
        | .file content => some (p.1, content)
        | .directory _ => none) = some f → f.1 = p.1 := by
    rintro ⟨names, _ | _⟩ f hf
    · cases hf
      rfl
    · cases hf
  refine h.filterMap _ fun p q hpq f hf g hg => ?_
  rw [hnames hf, hnames hg]
  exact hpq

/-- A search of some places gives the files among them that are asked for, if the directories among
them can be opened. -/
theorem scanVisits_places_iff {given path : String} {extensions : List String}
    {places : List (List String × Entry)} {found : List FoundFile} :
    scanVisits given extensions (places.map fun p => p.2.visit (joinNames path p.1)) = .ok found ↔
      (∀ names entries, (names, directory entries) ∈ places →
        pathFault? (joinNames path names) = none) ∧
      found = ((filesAmong places).map (foundBelow path)).filter (·.matchesAny extensions) := by
  induction places generalizing found with
  | nil => simp [scanVisits, filesAmong, eq_comm]
  | cons p places ih =>
    obtain ⟨names, e⟩ := p
    cases e with
    | file content =>
      have hopens : (∀ ns es, (ns, directory es) ∈ (names, file content) :: places →
            pathFault? (joinNames path ns) = none) ↔
          ∀ ns es, (ns, directory es) ∈ places → pathFault? (joinNames path ns) = none := by
        simp
      have hfiles : filesAmong ((names, file content) :: places) =
          (names, content) :: filesAmong places := rfl
      rw [List.map_cons, visit, scanVisits, bind_eq_ok_iff, hopens, hfiles, List.map_cons,
        List.filter_cons]
      simp only [ih]
      constructor
      · rintro ⟨others, ⟨hopen, rfl⟩, h⟩
        exact ⟨hopen, (Except.ok.inj h).symm⟩
      · rintro ⟨hopen, rfl⟩
        exact ⟨_, ⟨hopen, rfl⟩, rfl⟩
    | directory entries =>
      have hfiles : filesAmong ((names, directory entries) :: places) = filesAmong places := rfl
      rw [List.map_cons, visit, scanVisits, hfiles]
      split
      · next fault hfault =>
        refine iff_of_false (fun h => by cases h) fun h => ?_
        cases hfault.symm.trans (h.1 names entries List.mem_cons_self)
      · next hsound =>
        rw [ih]
        refine and_congr_left fun _ => ⟨fun h ns es hmem => ?_, fun h ns es hmem =>
          h ns es (List.mem_cons_of_mem _ hmem)⟩
        rcases List.mem_cons.mp hmem with heq | hmem
        · cases heq
          exact hsound
        · exact h ns es hmem

/-- A path that leads to a file ends in the name of that file. -/
theorem getLast?_of_resolveFrom {tree : Entry} {names place parts : List String}
    {content : ByteArray} (h : tree.resolveFrom names parts = .ok place) (hparts : parts ≠ [])
    (hfile : tree.at? place = some (.file content)) : place.getLast? = parts.getLast? := by
  induction parts generalizing names with
  | nil => exact absurd rfl hparts
  | cons part parts ih =>
    obtain ⟨hdirectory, next, hnext⟩ := exists_leadsOn h
    rw [hnext.resolveFrom hdirectory] at h
    cases parts with
    | cons second rest => rw [ih h (List.cons_ne_nil _ _), List.getLast?_cons_cons]
    | nil =>
      cases h
      obtain ⟨entries, hat⟩ := kindAt_eq_directory_iff.mp hdirectory
      cases hnext with
      | stay => cases hat.symm.trans hfile
      | up =>
        -- Nothing lies below a file.
        rcases List.eq_nil_or_concat' names with rfl | ⟨front, last, rfl⟩
        · cases hat.symm.trans hfile
        · rw [List.dropLast_concat] at hfile
          rw [at?_append, hfile] at hat
          cases hat
      | down => rw [List.getLast?_concat, List.getLast?_singleton]

end Entry

/-- A search of one path gives some files. -/
def Finds (look : Lookup) (extensions : List String) (path : String) (group : List FoundFile) :
    Prop :=
  ∃ entry, look path = .ok entry ∧ scanVisits path extensions (entry.visits path) = .ok group

section Search

variable {listing : Listing} {look : Lookup} {extensions paths : List String}
  {found : List FoundFile}

/-- The search of some paths gives in a row what the search of each of them gives. -/
theorem scanPaths_eq_ok_iff :
    scanPaths look extensions paths = .ok found ↔
      ∃ groups, List.Forall₂ (Finds look extensions) paths groups ∧ found = groups.flatten := by
  induction paths generalizing found with
  | nil => simp [scanPaths, eq_comm]
  | cons path paths ih =>
    rw [scanPaths]
    simp only [List.forall₂_cons_left_iff]
    split
    · next fault hfault =>
      refine iff_of_false (fun h => by cases h) ?_
      rintro ⟨_, ⟨group, groups, ⟨entry, hentry, -⟩, -, rfl⟩, -⟩
      cases hfault.symm.trans hentry
    · next entry hentry =>
      simp only [bind_eq_ok_iff, ih]
      constructor
      · rintro ⟨group, hgroup, _, ⟨groups, hgroups, rfl⟩, h⟩
        exact ⟨group :: groups, ⟨group, groups, ⟨entry, hentry, hgroup⟩, hgroups, rfl⟩,
          (Except.ok.inj h).symm⟩
      · rintro ⟨_, ⟨group, groups, ⟨other, hother, hgroup⟩, hgroups, rfl⟩, rfl⟩
        cases hentry.symm.trans hother
        exact ⟨group, hgroup, _, ⟨groups, hgroups, rfl⟩, rfl⟩

/-- It succeeds when the search of each of them does. -/
theorem exists_scanPaths_iff :
    (∃ found, scanPaths look extensions paths = .ok found) ↔
      ∀ path ∈ paths, ∃ group, Finds look extensions path group := by
  simp only [scanPaths_eq_ok_iff]
  induction paths with
  | nil => simp
  | cons path paths ih =>
    rw [List.forall_mem_cons, ← ih]
    simp only [List.forall₂_cons_left_iff]
    constructor
    · rintro ⟨_, _, ⟨group, groups, hgroup, hgroups, rfl⟩, rfl⟩
      exact ⟨⟨group, hgroup⟩, _, groups, hgroups, rfl⟩
    · rintro ⟨⟨group, hgroup⟩, _, groups, hgroups, rfl⟩
      exact ⟨_, _, ⟨group, groups, hgroup, hgroups, rfl⟩, rfl⟩

/-- The file that is taken anyway is the only path. -/
theorem onlyFile?_eq_some_iff {f : FoundFile} :
    onlyFile? look paths = some f ↔ paths = [f.path] ∧ look f.path = .ok (.file f.content) := by
  obtain ⟨path, content⟩ := f
  match paths with
  | [] | _ :: _ :: _ => simp [onlyFile?]
  | [p] =>
    rw [onlyFile?]
    split
    · next c hc =>
      constructor
      · rintro ⟨⟩
        exact ⟨rfl, hc⟩
      · rintro ⟨⟨⟩, hother⟩
        cases hc.symm.trans hother
        rfl
    · next hnone =>
      refine iff_of_false (fun h => by cases h) ?_
      rintro ⟨⟨⟩, hother⟩
      exact hnone _ hother

/-- What becomes of the files that are found under some paths: they are taken as they are, unless
there are none and the only path is a file. Then this file is taken, with one warning. -/
inductive Taken (listing : Listing) (look : Lookup) (extensions paths : List String) :
    List FoundFile → Warned (List FoundFile) → Prop
  | found {found : List FoundFile}
      (h : found ≠ [] ∨ ∀ path content, paths = [path] → look path ≠ .ok (.file content)) :
      Taken listing look extensions paths found ⟨found, []⟩
  | alone {path : String} {content : ByteArray} (hpaths : paths = [path])
      (hfile : look path = .ok (.file content)) :
      Taken listing look extensions paths []
        ⟨[⟨path, content⟩], [.otherExtension path (listing.list (extensions.map plainExtension))]⟩

/-- Without a warning all that is taken was found. -/
theorem Taken.value_eq {files : Warned (List FoundFile)}
    (h : Taken listing look extensions paths found files) (hsilent : files.warnings = []) :
    files.value = found := by
  cases h with
  | found => rfl
  | alone => cases hsilent

/-- A search that succeeds under all paths takes what is found there. -/
theorem exists_findFiles_eq_ok
    (h : scanPaths look (extensions.map plainExtension) paths = .ok found) :
    ∃ files, findFiles listing look extensions paths = .ok files ∧
      Taken listing look extensions paths found files := by
  simp only [findFiles, h, bind_eq_ok_iff, Except.ok.injEq, exists_eq_left']
  cases found with
  | cons f fs => exact ⟨_, rfl, .found (.inl (List.cons_ne_nil f fs))⟩
  | nil =>
    cases honly : onlyFile? look paths with
    | some f =>
      obtain ⟨hpaths, hfile⟩ := onlyFile?_eq_some_iff.mp honly
      exact ⟨_, rfl, .alone hpaths hfile⟩
    | none =>
      refine ⟨_, rfl, .found (.inr fun path content hpaths hfile => ?_)⟩
      have hsome : onlyFile? look paths = some ⟨path, content⟩ :=
        onlyFile?_eq_some_iff.mpr ⟨hpaths, hfile⟩
      cases honly.symm.trans hsome

end Search

namespace FileSystem

/-- A path can be searched: it leads somewhere, and no directory there has a path that is too long to
be opened. -/
def Searchable (system : FileSystem) (path : String) : Prop :=
  ∃ entry, system.lookup path = .ok entry ∧ ∀ names entries,
    entry.at? names = some (.directory entries) → pathFault? (joinNames path names) = none

/-- The files at or below a place that have one of some extensions, by the names that lead on from
there: all of them, and in the order of the bytes of these names, name by name. -/
structure FilesBelow (system : FileSystem) (extensions place : List String)
    (files : List (List String × ByteArray)) : Prop where
  mem_iff : ∀ names content, (names, content) ∈ files ↔
    system.root.at? (place ++ names) = some (.file content) ∧
      ∃ name ∈ (place ++ names).getLast?, ∃ extension ∈ extensions, HasExtension name extension
  increasing : files.Pairwise fun a b => a.1.map Text.bytes < b.1.map Text.bytes

/-- What is found under a path: the files at or below the place to which it leads. -/
def FoundUnder (system : FileSystem) (extensions : List String) (path : String)
    (found : List FoundFile) : Prop :=
  ∃ place files, system.resolve path = .ok place ∧ system.FilesBelow extensions place files ∧
    found = files.map (foundBelow path)

variable {system : FileSystem} {path : String} {place names : List String} {content : ByteArray}

/-- There is only one such list of files. -/
theorem FilesBelow.unique {extensions : List String} {files others : List (List String × ByteArray)}
    (h : system.FilesBelow extensions place files)
    (hothers : system.FilesBelow extensions place others) : others = files := by
  have hnodup : ∀ {list : List (List String × ByteArray)},
      system.FilesBelow extensions place list → list.Nodup := by
    intro list hlist
    refine List.nodup_iff_pairwise_ne.mpr (hlist.increasing.imp fun {a b} hlt heq => ?_)
    exact List.lt_irrefl (a.1.map Text.bytes) (heq ▸ hlt)
  have hperm : others.Perm files :=
    (List.perm_ext_iff_of_nodup (hnodup hothers) (hnodup h)).mpr fun (names, content) => by
      rw [h.mem_iff, hothers.mem_iff]
  refine List.Perm.eq_of_pairwise (fun a b _ _ hab hba => ?_) hothers.increasing h.increasing hperm
  exact absurd (List.lt_trans hab hba) (List.lt_irrefl _)

/-- A file below a path has the last part of its path as its name. -/
theorem getLast?_place (htree : system.root.WellNamed) (hplace : system.resolve path = .ok place)
    (hfile : system.root.at? (place ++ names) = some (.file content)) :
    (place ++ names).getLast? = some (fileName (joinNames path names)) := by
  rcases List.eq_nil_or_concat' names with rfl | ⟨front, last, rfl⟩
  · rw [List.append_nil] at hfile ⊢
    have hparts : pathParts path ≠ [] := by
      rw [pathParts, Ne, List.map_eq_nil_iff]
      exact Text.splitOn_ne_nil _ _
    have hlast : place.getLast? = (pathParts path).getLast? := by
      rw [resolve] at hplace
      split at hplace
      · cases hplace
      · exact Entry.getLast?_of_resolveFrom hplace hparts hfile
    rw [hlast, joinNames, List.foldl_nil, fileName, List.getLast?_eq_some_getLast hparts,
      Option.getD_some]
  · rw [← List.append_assoc] at hfile ⊢
    rw [List.getLast?_concat, joinNames, List.foldl_concat,
      fileName_joinPath _ (htree.slash_notMem hfile)]

variable {extensions : List String}

/-- The search of a path succeeds when the path can be searched. -/
theorem exists_finds_iff (htree : system.root.WellNamed) (extensions : List String)
    (path : String) :
    (∃ group, Finds system.lookup extensions path group) ↔ system.Searchable path := by
  constructor
  · rintro ⟨group, entry, hentry, hgroup⟩
    obtain ⟨place, -, hat⟩ := lookup_eq_ok_iff.mp hentry
    rw [Entry.visits_eq, Entry.scanVisits_places_iff] at hgroup
    exact ⟨entry, hentry, fun names entries hbelow =>
      hgroup.1 names entries ((htree.at? hat).mem_places_iff.mpr hbelow)⟩
  · rintro ⟨entry, hentry, hopens⟩
    obtain ⟨place, -, hat⟩ := lookup_eq_ok_iff.mp hentry
    refine ⟨((Entry.filesAmong entry.places).map (foundBelow path)).filter
      (·.matchesAny extensions), entry, hentry, ?_⟩
    rw [Entry.visits_eq, Entry.scanVisits_places_iff]
    exact ⟨fun names entries hmem =>
      hopens names entries ((htree.at? hat).mem_places_iff.mp hmem), rfl⟩

/-- The search of a path gives what is found under it. -/
theorem foundUnder_of_finds (htree : system.root.WellNamed) {group : List FoundFile}
    (h : Finds system.lookup (extensions.map plainExtension) path group) :
    system.FoundUnder (extensions.map plainExtension) path group := by
  obtain ⟨entry, hentry, hgroup⟩ := h
  obtain ⟨place, hplace, hat⟩ := lookup_eq_ok_iff.mp hentry
  have hnamed := htree.at? hat
  rw [Entry.visits_eq, Entry.scanVisits_places_iff] at hgroup
  refine ⟨place, _, hplace, ⟨fun names content => ?_, ?_⟩, hgroup.2.trans List.filter_map⟩
  · have hroot : entry.at? names = system.root.at? (place ++ names) := by
      rw [Entry.at?_append, hat, Option.bind_some]
    rw [List.mem_filter, Entry.mem_filesAmong_iff, hnamed.mem_places_iff, hroot]
    refine and_congr_right fun hfile => ?_
    rw [Function.comp_apply, FoundFile.matchesAny_iff, getLast?_place htree hplace hfile]
    simp only [Option.mem_some_iff, exists_eq_left', foundBelow]
  · exact (Entry.pairwise_filesAmong hnamed.pairwise_places).filter _

/-- A search of paths that can be searched finds exactly the files at or under these paths that have
one of the extensions, without the dots before these: path by path, and under each path each file
once, in the order of the bytes of the names that lead to it. Another file is taken only if it is the
only path and nothing else is found, and then with one warning. The extensions matter only as a set,
and a run may list that set in any order. -/
theorem findFiles_exact (listing : Listing) (system : FileSystem) (htree : system.root.WellNamed)
    (extensions paths : List String) :
    ((∃ files, findFiles listing system.lookup extensions paths = .ok files) ↔
        ∀ path ∈ paths, system.Searchable path) ∧
      (∀ files, findFiles listing system.lookup extensions paths = .ok files →
        ∃ found, List.Forall₂ (system.FoundUnder (extensions.map plainExtension)) paths found ∧
          Taken listing system.lookup extensions paths found.flatten files) ∧
      ∀ (again : Listing) (others : List String),
        (∀ extension, extension ∈ others.map plainExtension ↔
          extension ∈ extensions.map plainExtension) →
        EndAlike (findFiles again system.lookup others paths)
            (findFiles listing system.lookup extensions paths) ∧
          (again.list (others.map plainExtension) = listing.list (extensions.map plainExtension) →
            findFiles again system.lookup others paths =
              findFiles listing system.lookup extensions paths) := by
  have hfound : ∀ files, findFiles listing system.lookup extensions paths = .ok files →
      ∃ found, scanPaths system.lookup (extensions.map plainExtension) paths = .ok found ∧
        Taken listing system.lookup extensions paths found files := by
    intro files hfiles
    obtain ⟨found, hfound, -⟩ := bind_eq_ok_iff.mp hfiles
    obtain ⟨other, hother, htaken⟩ := exists_findFiles_eq_ok hfound
    cases hfiles.symm.trans hother
    exact ⟨found, hfound, htaken⟩
  refine ⟨?_, fun files hfiles => ?_, fun again others h =>
    ⟨findFiles_endAlike h listing again _ _, fun halike => ?_⟩⟩
  · simp only [← exists_finds_iff htree (extensions.map plainExtension)]
    rw [← exists_scanPaths_iff]
    constructor
    · rintro ⟨files, hfiles⟩
      obtain ⟨found, hfound, -⟩ := hfound files hfiles
      exact ⟨found, hfound⟩
    · rintro ⟨found, hfound⟩
      obtain ⟨files, hfiles, -⟩ := exists_findFiles_eq_ok hfound
      exact ⟨files, hfiles⟩
  · obtain ⟨_, hscan, htaken⟩ := hfound files hfiles
    obtain ⟨found, hgroups, rfl⟩ := scanPaths_eq_ok_iff.mp hscan
    exact ⟨found, hgroups.imp fun _ _ => foundUnder_of_finds htree, htaken⟩
  · simp only [findFiles, scanPaths_congr h, halike]

/-- A directory with a query next to another directory, whose name is the beginning of that of the
query. -/
def nested : FileSystem where
  root := .directory [("a", .directory [("b.graphql", .file .empty)]), ("a.graphql", .file .empty)]
  workingDirectory := []

/-- What a walk through this directory comes by. -/
theorem visits_nested :
    nested.root.visits "." = [.directory ".", .directory "./a",
      .file ⟨"./a/b.graphql", .empty⟩, .file ⟨"./a.graphql", .empty⟩] := by
  have hsorted : Entry.byName
      [("a", .directory [("b.graphql", .file .empty)]), ("a.graphql", .file .empty)] =
        [("a", .directory [("b.graphql", .file .empty)]), ("a.graphql", .file .empty)] :=
    List.mergeSort_of_pairwise (by simp)
  have hinner : joinPath "." "a" = "./a" := by decide +kernel
  have hfirst : joinPath "./a" "b.graphql" = "./a/b.graphql" := by decide +kernel
  have hsecond : joinPath "." "a.graphql" = "./a.graphql" := by decide +kernel
  rw [nested, Entry.visits_directory, hsorted]
  simp only [List.flatMap_cons, List.flatMap_nil, Entry.visits_directory, Entry.byName,
    List.mergeSort_singleton, hinner, hfirst, hsecond]
  rfl

/-- The file in the inner directory comes first, although a dot comes before a slash. -/
theorem findFiles_exact_nested :
    nested.root.WellNamed ∧
      findFiles .forwards nested.lookup ["..graphql"] ["."] =
        .ok ⟨[⟨"./a/b.graphql", .empty⟩, ⟨"./a.graphql", .empty⟩], []⟩ ∧
      nested.FoundUnder ["graphql"] "." [⟨"./a/b.graphql", .empty⟩, ⟨"./a.graphql", .empty⟩] := by
  have htree : nested.root.WellNamed := by
    refine Entry.wellNamed_directory (by decide) (by decide) ?_
    simp only [List.forall_mem_cons]
    refine ⟨Entry.wellNamed_directory (by decide) (by decide) ?_, Entry.wellNamed_file _, nofun⟩
    simp only [List.forall_mem_cons]
    exact ⟨Entry.wellNamed_file _, nofun⟩
  have hresolve : nested.resolve "." = .ok [] := by decide +kernel
  have hlook : nested.lookup "." = .ok nested.root := lookup_eq_ok_iff.mpr ⟨[], hresolve, rfl⟩
  have hplain : ["..graphql"].map plainExtension = ["graphql"] := by decide +kernel
  have hfiles : findFiles .forwards nested.lookup ["..graphql"] ["."] =
      .ok ⟨[⟨"./a/b.graphql", .empty⟩, ⟨"./a.graphql", .empty⟩], []⟩ := by
    have hscan : scanVisits "." ["graphql"] (nested.root.visits ".") =
        .ok [⟨"./a/b.graphql", .empty⟩, ⟨"./a.graphql", .empty⟩] := by
      have htop : pathFault? "." = none := by decide +kernel
      have hinner : pathFault? "./a" = none := by decide +kernel
      have hfirst : (FoundFile.mk "./a/b.graphql" .empty).matchesAny ["graphql"] = true := by
        decide +kernel
      have hsecond : (FoundFile.mk "./a.graphql" .empty).matchesAny ["graphql"] = true := by
        decide +kernel
      simp only [visits_nested, scanVisits, htop, hinner, hfirst, hsecond]
      rfl
    simp only [findFiles, hplain, scanPaths, hlook, hscan]
    rfl
  refine ⟨htree, hfiles, ?_⟩
  obtain ⟨-, hfound, -⟩ := findFiles_exact .forwards nested htree ["..graphql"] ["."]
  obtain ⟨found, hgroups, htaken⟩ := hfound _ hfiles
  obtain ⟨group, groups, hgroup, hrest, rfl⟩ := List.forall₂_cons_left_iff.mp hgroups
  cases hrest
  have hvalue := htaken.value_eq rfl
  rw [List.flatten_singleton] at hvalue
  rw [hplain, ← hvalue] at hgroup
  exact hgroup

end FileSystem

end GraphqlClient
