import GraphqlClient.Command.FileSystem
import GraphqlClient.Proofs.Sdk.Methods
import GraphqlClient.Proofs.Text.Lines

/-!
# Writing a file

A file that is written lies where its path leads, with the content that was written. The tree after a
write differs from the tree before it at that one place, and neither has a directory there. So no
path leads on from it, and every path that leads elsewhere leads there before and after the write.
-/

namespace GraphqlClient

/-- What can be told of an entry without entering it. -/
inductive EntryKind where
  | file (content : ByteArray)
  | directory

/-- A part of a path that can only lead to an entry of its name. -/
structure IsEntryName (part : String) : Prop where
  moves : staysHere part = false
  down : part ≠ ".."
  short : ¬ maxNameBytes < pathBytes part

namespace Entry

/-- What an entry is. -/
def kind : Entry → EntryKind
  | .file content => .file content
  | .directory _ => .directory

/-- What lies at the end of some names, if anything does. -/
def kindAt (tree : Entry) (names : List String) : Option EntryKind := (tree.at? names).map kind

end Entry

/-- An entry that was put in does not hide those of other names. -/
theorem entryNamed_putEntry_of_ne {name other : String} (h : other ≠ name) (entry : Entry)
    (entries : List (String × Entry)) :
    entryNamed other (putEntry name entry entries) = entryNamed other entries := by
  induction entries with
  | nil => simp [putEntry, entryNamed, Ne.symm h]
  | cons head rest ih =>
    obtain ⟨n, e⟩ := head
    simp only [entryNamed] at ih
    simp only [putEntry]
    split
    · next hn => simp [entryNamed, hn, Ne.symm h]
    · by_cases hother : n = other
      · simp [entryNamed, hother]
      · simp only [entryNamed]
        rw [List.find?_cons_of_neg (by simpa using hother),
          List.find?_cons_of_neg (by simpa using hother)]
        exact ih

namespace Entry

/-- Names lead on from where the names before them lead. -/
theorem at?_append (names rest : List String) (tree : Entry) :
    tree.at? (names ++ rest) = (tree.at? names).bind (at? rest) := by
  induction names generalizing tree with
  | nil => rfl
  | cons name names ih =>
    cases tree with
    | file content => rfl
    | directory entries =>
      rw [List.cons_append, at?, at?]
      cases entryNamed name entries with
      | none => rfl
      | some entry => exact ih entry

/-- A name in a directory leads to the entry of that name. -/
theorem at?_concat {tree : Entry} {names : List String} {entries : List (String × Entry)}
    (h : tree.at? names = some (.directory entries)) (name : String) :
    tree.at? (names ++ [name]) = entryNamed name entries := by
  rw [at?_append, h, Option.bind_some, at?]
  cases entryNamed name entries <;> rfl

/-- Names that start as those of an entry that was put in lead on in what it was put into. -/
theorem at?_put_cons_self (entry : Entry) (name : String) (names rest : List String)
    (entries : List (String × Entry)) :
    (put entry (name :: names) (directory entries)).at? (name :: rest) =
      (put entry names ((entryNamed name entries).getD empty)).at? rest := by
  rw [put, at?, entryNamed_putEntry, Option.bind_some]

/-- Names that start with another name lead where they led before. -/
theorem at?_put_cons_of_ne {name other : String} (h : other ≠ name) (entry : Entry)
    (names rest : List String) (entries : List (String × Entry)) :
    (put entry (name :: names) (directory entries)).at? (other :: rest) =
      (directory entries).at? (other :: rest) := by
  rw [put, at?, at?, entryNamed_putEntry_of_ne h]

/-- What is put into a directory lies there. -/
theorem at?_put {tree : Entry} {directory : List String} {entries : List (String × Entry)}
    (h : tree.at? directory = some (.directory entries)) (entry : Entry) (name : String) :
    (put entry (directory ++ [name]) tree).at? (directory ++ [name]) = some entry := by
  induction directory generalizing tree with
  | nil =>
    cases h
    exact at?_put_singleton entry name entries
  | cons first rest ih =>
    cases tree with
    | file content => cases h
    | directory es =>
      obtain ⟨e, he, hrest⟩ := Option.bind_eq_some_iff.mp h
      rw [List.cons_append, at?_put_cons_self, he, Option.getD_some]
      exact ih hrest

/-- What lies below a directory is what lies below its entry of the first name. -/
theorem kindAt_cons (entries : List (String × Entry)) (name : String) (names : List String) :
    (directory entries).kindAt (name :: names) = (entryNamed name entries).bind (·.kindAt names) :=
  Option.map_bind

/-- Below a file there is nothing. -/
theorem kindAt_file_cons (content : ByteArray) (name : String) (names : List String) :
    (file content).kindAt (name :: names) = none := rfl

/-- A file that is put into a directory, where no directory lay, changes nothing at the end of other
names. -/
theorem kindAt_put {tree : Entry} {path : List String} {entries : List (String × Entry)}
    (h : tree.at? path = some (.directory entries)) (content : ByteArray) {name : String}
    (hname : ∀ es, entryNamed name entries ≠ some (.directory es)) {other : List String}
    (hother : other ≠ path ++ [name]) :
    (put (.file content) (path ++ [name]) tree).kindAt other = tree.kindAt other := by
  induction path generalizing tree other with
  | nil =>
    cases h
    cases other with
    | nil => rfl
    | cons first rest =>
      rw [List.nil_append, kindAt]
      by_cases hfirst : first = name
      · subst hfirst
        have hrest : rest ≠ [] := fun hrest => hother (by rw [hrest, List.nil_append])
        obtain ⟨second, rest, rfl⟩ := List.exists_cons_of_ne_nil hrest
        -- Nothing lies below the new file, nor did it below the old one.
        rw [at?_put_cons_self, put, ← kindAt, kindAt_file_cons, kindAt_cons]
        rcases hold : entryNamed first entries with _ | ⟨old | es⟩
        · rfl
        · rfl
        · exact absurd hold (hname es)
      · rw [at?_put_cons_of_ne hfirst, kindAt]
  | cons top path ih =>
    cases tree with
    | file old => cases h
    | directory es =>
      obtain ⟨e, he, hpath⟩ := Option.bind_eq_some_iff.mp h
      cases other with
      | nil => rfl
      | cons first rest =>
        rw [List.cons_append, kindAt]
        by_cases hfirst : first = top
        · subst hfirst
          rw [at?_put_cons_self, he, Option.getD_some, kindAt_cons, he, Option.bind_some]
          exact ih hpath fun hrest => hother (by rw [hrest, List.cons_append])
        · rw [at?_put_cons_of_ne hfirst, kindAt]

/-- A directory is told by its entries. -/
theorem kindAt_eq_directory_iff {tree : Entry} {names : List String} :
    tree.kindAt names = some .directory ↔ ∃ entries, tree.at? names = some (.directory entries) := by
  rw [kindAt]
  match tree.at? names with
  | none => simp
  | some (.file content) => simp [kind]
  | some (.directory entries) => simp [kind]

/-- Where a part of a path leads from some names: it stays, leads up, or leads to the entry of its
name. -/
inductive LeadsOn (tree : Entry) (names : List String) (part : String) : List String → Prop
  | stay (h : staysHere part = true) : LeadsOn tree names part names
  | up (hmoves : staysHere part = false) (h : part = "..") : LeadsOn tree names part names.dropLast
  | down (hname : IsEntryName part) (h : (tree.at? (names ++ [part])).isSome = true) :
      LeadsOn tree names part (names ++ [part])

/-- A path goes on from where its first part leads in a directory. -/
theorem LeadsOn.resolveFrom {tree : Entry} {names next : List String} {part : String}
    (h : LeadsOn tree names part next) (hdirectory : tree.kindAt names = some .directory)
    (parts : List String) :
    tree.resolveFrom names (part :: parts) = tree.resolveFrom next parts := by
  obtain ⟨entries, hat⟩ := kindAt_eq_directory_iff.mp hdirectory
  rw [Entry.resolveFrom, hat]
  cases h with
  | stay hstays => simp only [hstays, if_true]
  | up hmoves hup => simp only [hmoves, Bool.false_eq_true, if_false, if_pos hup]
  | down hname hthere =>
    rw [at?_concat hat] at hthere
    obtain ⟨entry, hentry⟩ := Option.isSome_iff_exists.mp hthere
    simp [hname.moves, hname.down, hname.short, hentry]

/-- A path that leads somewhere starts in a directory, and its first part leads on from there. -/
theorem exists_leadsOn {tree : Entry} {names found : List String} {part : String}
    {parts : List String} (h : tree.resolveFrom names (part :: parts) = .ok found) :
    tree.kindAt names = some .directory ∧ ∃ next, LeadsOn tree names part next := by
  rw [resolveFrom] at h
  split at h
  case h_1 | h_2 => cases h
  case h_3 entries hat =>
    refine ⟨kindAt_eq_directory_iff.mpr ⟨entries, hat⟩, ?_⟩
    split at h
    case isTrue hstays => exact ⟨_, .stay hstays⟩
    case isFalse hstays =>
      have hmoves : staysHere part = false := Bool.eq_false_iff.mpr hstays
      split at h
      case isTrue hup => exact ⟨_, .up hmoves hup⟩
      case isFalse hdown =>
        split at h
        case isTrue => cases h
        case isFalse hshort =>
          split at h
          case h_1 => cases h
          case h_2 entry hentry =>
            have hthere : (tree.at? (names ++ [part])).isSome = true := by
              rw [at?_concat hat, hentry, Option.isSome_some]
            exact ⟨_, .down ⟨hmoves, hdown, hshort⟩ hthere⟩

/-- A path goes on where its first parts lead. -/
theorem resolveFrom_append {tree : Entry} {names middle : List String} {parts : List String}
    (h : tree.resolveFrom names parts = .ok middle) (more : List String) :
    tree.resolveFrom names (parts ++ more) = tree.resolveFrom middle more := by
  induction parts generalizing names with
  | nil =>
    cases h
    rfl
  | cons part parts ih =>
    obtain ⟨hdirectory, next, hnext⟩ := exists_leadsOn h
    rw [hnext.resolveFrom hdirectory] at h
    rw [List.cons_append, hnext.resolveFrom hdirectory]
    exact ih h

/-- Two trees that are the same but at the end of some names, where neither has a directory. -/
structure DifferAt (place : List String) (tree other : Entry) : Prop where
  elsewhere : ∀ names, names ≠ place → other.kindAt names = tree.kindAt names
  left : tree.kindAt place ≠ some .directory
  right : other.kindAt place ≠ some .directory

namespace DifferAt

variable {place names : List String} {tree other : Entry}

/-- Trees differ from each other at one place. -/
theorem symm (h : DifferAt place tree other) : DifferAt place other tree :=
  ⟨fun names hne => (h.elsewhere names hne).symm, h.right, h.left⟩

/-- The directories of one tree are directories of the other. -/
theorem kindAt_directory (h : DifferAt place tree other)
    (hdirectory : tree.kindAt names = some .directory) : other.kindAt names = some .directory := by
  have hne : names ≠ place := fun hplace => h.left (hplace ▸ hdirectory)
  rw [h.elsewhere names hne, hdirectory]

/-- Where something lies in one tree, something lies in the other, unless it is their place. -/
theorem isSome_at? (h : DifferAt place tree other) (hne : names ≠ place) :
    (other.at? names).isSome = (tree.at? names).isSome := by
  have hkind := congrArg Option.isSome (h.elsewhere names hne)
  rwa [kindAt, kindAt, Option.isSome_map, Option.isSome_map] at hkind

/-- A path that leads somewhere in one tree leads there in the other. Only if it leads to the place
where they differ must something lie there: as no directory does, no path goes on from it. -/
theorem resolveFrom (h : DifferAt place tree other) {found : List String} {parts : List String}
    (hfound : tree.resolveFrom names parts = .ok found)
    (hplace : found = place → (other.at? place).isSome = true) :
    other.resolveFrom names parts = .ok found := by
  induction parts generalizing names with
  | nil => exact hfound
  | cons part parts ih =>
    obtain ⟨hdirectory, next, hnext⟩ := exists_leadsOn hfound
    rw [hnext.resolveFrom hdirectory] at hfound
    have hother : LeadsOn other names part next := by
      cases hnext with
      | stay hstays => exact .stay hstays
      | up hmoves hup => exact .up hmoves hup
      | down hname hthere =>
        refine .down hname ?_
        by_cases hhere : names ++ [part] = place
        · cases parts with
          | nil =>
            rw [hhere]
            exact hplace ((Except.ok.inj hfound).symm.trans hhere)
          | cons => exact absurd (hhere ▸ (exists_leadsOn hfound).1) h.left
        · rw [h.isSome_at? hhere]
          exact hthere
    rw [hother.resolveFrom (h.kindAt_directory hdirectory)]
    exact ih hfound

end DifferAt

/-- A file can be written under a name in a directory where no directory has it. -/
theorem targetIn_eq_ok {tree : Entry} {directory names : List String} {last : String}
    {onlyDirectory : Bool} (h : tree.targetIn directory last onlyDirectory = .ok names) :
    ∃ entries, tree.at? directory = some (.directory entries) ∧ onlyDirectory = false ∧
      IsEntryName last ∧ (∀ es, entryNamed last entries ≠ some (.directory es)) ∧
      names = directory ++ [last] := by
  rw [targetIn] at h
  split at h
  case h_1 | h_2 => cases h
  case h_3 entries hat =>
    split at h
    case isTrue => cases h
    case isFalse hno =>
      split at h
      case isTrue => cases h
      case isFalse hshort =>
        split at h
        case h_1 => cases h
        case h_2 hfree =>
          simp only [Bool.or_eq_true, not_or, Bool.not_eq_true, decide_eq_true_eq] at hno
          exact ⟨entries, hat, hno.1.1, ⟨hno.1.2, hno.2, hshort⟩, hfree, (Except.ok.inj h).symm⟩

/-- A tree differs at one place from what it becomes when a file is put where it can be written. -/
theorem differAt_put {tree : Entry} {directory : List String} {entries : List (String × Entry)}
    (hat : tree.at? directory = some (.directory entries)) (content : ByteArray) {name : String}
    (hname : ∀ es, entryNamed name entries ≠ some (.directory es)) :
    DifferAt (directory ++ [name]) tree (put (.file content) (directory ++ [name]) tree) where
  elsewhere := fun _ hne => kindAt_put hat content hname hne
  left := fun hdirectory => by
    obtain ⟨es, hes⟩ := kindAt_eq_directory_iff.mp hdirectory
    exact hname es (at?_concat hat name ▸ hes)
  right := by simp [kindAt, at?_put hat, kind]

end Entry

/-- A path without a fault is not empty. -/
theorem isEmpty_of_pathFault?_eq_none {path : String} (h : pathFault? path = none) :
    path.isEmpty = false := by
  refine Bool.eq_false_iff.mpr fun hempty => ?_
  simp only [pathFault?, hempty, if_true] at h
  split at h
  · cases h
  · split at h <;> cases h

/-- The last piece of a text that does not end in a slash is not empty. -/
theorem last_splitOn_ne_nil {text : List Char} (hne : text ≠ []) (hslash : ¬ ['/'] <:+ text)
    {before : List (List Char)} {last : List Char} (h : Text.splitOn '/' text = before ++ [last]) :
    last ≠ [] := by
  rintro rfl
  have htext := Text.intercalate_splitOn '/' text
  rw [h] at htext
  cases before with
  | nil => exact hne htext.symm
  | cons first rest =>
    rw [Text.intercalate_append (List.cons_ne_nil first rest) (List.cons_ne_nil [] [])] at htext
    exact hslash ⟨_, by simpa using htext⟩

/-- A path that does not end in a slash has no empty parts at its end. -/
theorem dropEmptyParts_pathParts {path : String} (hne : path.isEmpty = false)
    (hslash : path.endsWith "/" = false) : dropEmptyParts (pathParts path) = pathParts path := by
  have htext : path.toList ≠ [] := by simpa using hne
  have hend : ¬ ['/'] <:+ path.toList := by
    have h := String.Slice.endsWith_string_eq_false_iff.mp hslash
    simpa using h
  obtain ⟨before, last, hpieces⟩ : ∃ before last, Text.splitOn '/' path.toList = before ++ [last] :=
    ⟨_, _, (List.dropLast_concat_getLast (Text.splitOn_ne_nil '/' path.toList)).symm⟩
  have hlast : (String.ofList last).isEmpty = false := by
    simpa using last_splitOn_ne_nil htext hend hpieces
  have hparts : pathParts path = before.map String.ofList ++ [String.ofList last] := by
    rw [pathParts, hpieces, List.map_append, List.map_singleton]
  rw [dropEmptyParts, hparts, List.reverse_append, List.reverse_singleton, List.singleton_append,
    List.dropWhile_cons_of_neg (by simp [hlast]), List.reverse_cons, List.reverse_reverse]

namespace FileSystem

/-- Something lies at a path when the path leads there. -/
theorem lookup_eq_ok_iff {system : FileSystem} {path : String} {entry : Entry} :
    system.lookup path = .ok entry ↔
      ∃ names, system.resolve path = .ok names ∧ system.root.at? names = some entry := by
  rw [lookup, bind_eq_ok_iff]
  refine exists_congr fun names => and_congr_right fun _ => ?_
  cases system.root.at? names with
  | none => exact iff_of_false (fun h => by cases h) (fun h => by cases h)
  | some found =>
    exact ⟨fun h => congrArg some (Except.ok.inj h), fun h => congrArg _ (Option.some.inj h)⟩

/-- Where a path that can be written leads: to a directory, and in it to a name that no directory
has. -/
structure WritesIn (system : FileSystem) (path : String) (directory : List String) (last : String)
    (entries : List (String × Entry)) : Prop where
  sound : pathFault? path = none
  at_directory : system.root.at? directory = some (.directory entries)
  leads : ∃ before, pathParts path = before ++ [last] ∧
    system.root.resolveFrom (system.start path) before = .ok directory
  name : IsEntryName last
  free : ∀ es, entryNamed last entries ≠ some (.directory es)

/-- A path with a target can be written. -/
theorem exists_writesIn {system : FileSystem} {path : String} {names : List String}
    (h : system.target path = .ok names) :
    ∃ directory last entries, system.WritesIn path directory last entries ∧
      names = directory ++ [last] := by
  rw [target] at h
  match hfault : pathFault? path with
  | some fault => simp [hfault] at h
  | none =>
    rw [hfault] at h
    obtain ⟨directory, hdirectory, htarget⟩ := bind_eq_ok_iff.mp h
    obtain ⟨entries, hat, hslash, hname, hfree, hnames⟩ := Entry.targetIn_eq_ok htarget
    have hparts := dropEmptyParts_pathParts (isEmpty_of_pathFault?_eq_none hfault) hslash
    have hsome : pathParts path ≠ [] := by
      rw [pathParts, Ne, List.map_eq_nil_iff]
      exact Text.splitOn_ne_nil _ _
    rw [hparts] at hdirectory hname hfree hnames
    rw [List.getLast?_eq_some_getLast hsome, Option.getD_some] at hname hfree hnames
    exact ⟨directory, _, entries,
      ⟨hfault, hat, ⟨_, (List.dropLast_concat_getLast hsome).symm, hdirectory⟩, hname, hfree⟩, hnames⟩

/-- A write puts a file where its path leads. -/
theorem write_eq_ok {system after : FileSystem} {path : String} {content : ByteArray}
    (h : system.write path content = .ok after) :
    ∃ directory last entries, system.WritesIn path directory last entries ∧
      after = { system with root := .put (.file content) (directory ++ [last]) system.root } := by
  obtain ⟨names, htarget, hafter⟩ := bind_eq_ok_iff.mp h
  obtain ⟨directory, last, entries, hwrites, rfl⟩ := exists_writesIn htarget
  exact ⟨directory, last, entries, hwrites, (Except.ok.inj hafter).symm⟩

/-- What lies at a path, if the path leads somewhere. -/
def kindAt (system : FileSystem) (path : String) : Option EntryKind :=
  (system.lookup path).toOption.map Entry.kind

/-- What lies at a path is what lies where it leads. -/
theorem kindAt_of_resolve {system : FileSystem} {path : String} {names : List String}
    (h : system.resolve path = .ok names) : system.kindAt path = system.root.kindAt names := by
  rw [kindAt, lookup, h, Entry.kindAt]
  simp only [bind, Except.bind]
  cases system.root.at? names <;> rfl

/-- Nothing lies at a path that leads nowhere. -/
theorem kindAt_of_resolve_error {system : FileSystem} {path : String} {fault : PathFault}
    (h : system.resolve path = .error fault) : system.kindAt path = none := by
  rw [kindAt, lookup, h]
  rfl

/-- The file system after a path was written: the path holds the content, and nothing else that can
be told of the earlier file system has changed, wherever in the tree it lies and whatever path leads
to it. -/
structure Written (before : FileSystem) (path : String) (content : ByteArray)
    (after : FileSystem) : Prop where
  workingDirectory : after.workingDirectory = before.workingDirectory
  refusal : after.refusal = before.refusal
  content : after.lookup path = .ok (.file content)
  entries : ∃ place, after.resolve path = .ok place ∧
    ∀ names, names ≠ place → after.root.kindAt names = before.root.kindAt names
  leads : ∀ other names, before.resolve other = .ok names → after.resolve other = .ok names
  paths : ∀ other, after.resolve other ≠ after.resolve path →
    after.kindAt other = before.kindAt other

/-- A path that leads somewhere leads there in a file system that differs at one place. -/
theorem resolve_of_differAt {system after : FileSystem} {place : List String}
    (h : Entry.DifferAt place system.root after.root)
    (hstart : after.workingDirectory = system.workingDirectory) {path : String}
    {names : List String} (hnames : system.resolve path = .ok names)
    (hplace : names = place → (after.root.at? place).isSome = true) :
    after.resolve path = .ok names := by
  have hsame : after.start path = system.start path := by rw [start, start, hstart]
  rw [resolve] at hnames ⊢
  match hfault : pathFault? path with
  | some fault => simp [hfault] at hnames
  | none =>
    rw [hfault] at hnames
    rw [hsame]
    exact h.resolveFrom hnames hplace

/-- A path that was written leads to where the file was put. -/
theorem WritesIn.resolve_put {system : FileSystem} {path last : String} {directory : List String}
    {entries : List (String × Entry)} (h : system.WritesIn path directory last entries)
    (content : ByteArray) :
    FileSystem.resolve
      { system with root := .put (.file content) (directory ++ [last]) system.root } path =
        .ok (directory ++ [last]) := by
  have hdiffer := Entry.differAt_put h.at_directory content h.free
  have hnew := Entry.at?_put h.at_directory (.file content) last
  have hdirectory := hdiffer.kindAt_directory
    (Entry.kindAt_eq_directory_iff.mpr ⟨entries, h.at_directory⟩)
  have hdown : Entry.LeadsOn (.put (.file content) (directory ++ [last]) system.root) directory last
      (directory ++ [last]) := .down h.name (by rw [hnew, Option.isSome_some])
  obtain ⟨before, hparts, hleads⟩ := h.leads
  have hbefore := hdiffer.resolveFrom hleads fun _ => by rw [hnew, Option.isSome_some]
  rw [resolve, h.sound, hparts]
  exact (Entry.resolveFrom_append hbefore [last]).trans (hdown.resolveFrom hdirectory [])

/-- A write changes the file of its path and nothing else. -/
theorem written_of_write {system after : FileSystem} {path : String} {content : ByteArray}
    (h : system.write path content = .ok after) : system.Written path content after := by
  have hstart := workingDirectory_write h
  obtain ⟨directory, last, entries, hwrites, rfl⟩ := write_eq_ok h
  have hdiffer := Entry.differAt_put hwrites.at_directory content hwrites.free
  have hnew := Entry.at?_put hwrites.at_directory (.file content) last
  have hresolve := hwrites.resolve_put content
  have hleads := fun other names (hother : system.resolve other = .ok names) =>
    resolve_of_differAt hdiffer hstart hother fun _ => by rw [hnew, Option.isSome_some]
  refine ⟨hstart, rfl, ?_, ⟨_, hresolve, hdiffer.elsewhere⟩, hleads, fun other hother => ?_⟩
  · rw [lookup, hresolve]
    simp only [bind, Except.bind, hnew]
    rfl
  · rw [hresolve] at hother
    match hafter : FileSystem.resolve
        { system with root := .put (.file content) (directory ++ [last]) system.root } other with
    | .ok names =>
      have hne : names ≠ directory ++ [last] := fun hplace => hother (hplace ▸ hafter)
      have hbefore : system.resolve other = .ok names :=
        resolve_of_differAt hdiffer.symm hstart.symm hafter fun hplace => absurd hplace hne
      rw [kindAt_of_resolve hafter, kindAt_of_resolve hbefore]
      exact hdiffer.elsewhere names hne
    | .error fault =>
      match hbefore : system.resolve other with
      | .ok names => rw [hleads other names hbefore] at hafter; cases hafter
      | .error _ => rw [kindAt_of_resolve_error hafter, kindAt_of_resolve_error hbefore]

end FileSystem

end GraphqlClient
