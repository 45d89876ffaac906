/-!
# File trees

A directory with everything in it. An entry is reached by the names that lead to it from the top;
it can be put in place of what is there, and the files that differ from an earlier tree can be
listed.
-/

namespace GraphqlClient

/-- A file, or a directory with named entries. -/
inductive Entry where
  | file (content : ByteArray)
  | directory (entries : List (String × Entry))

/-- The entry of a name. -/
def entryNamed (name : String) (entries : List (String × Entry)) : Option Entry :=
  (entries.find? (·.1 = name)).map Prod.snd

/-- Entries with one of a name put in, in place of an earlier one of that name. -/
def putEntry (name : String) (entry : Entry) : List (String × Entry) → List (String × Entry)
  | [] => [(name, entry)]
  | (n, e) :: entries =>
    if n = name then (name, entry) :: entries else (n, e) :: putEntry name entry entries

/-- An entry that was put in is found by its name. -/
theorem entryNamed_putEntry (name : String) (entry : Entry) (entries : List (String × Entry)) :
    entryNamed name (putEntry name entry entries) = some entry := by
  induction entries with
  | nil => simp [putEntry, entryNamed]
  | cons head rest ih =>
    obtain ⟨n, e⟩ := head
    simp only [putEntry]
    split
    · simp [entryNamed]
    · next h =>
      simp only [entryNamed] at ih ⊢
      rw [List.find?_cons_of_neg (by simpa using h)]
      exact ih

namespace Entry

/-- A directory without entries. -/
def empty : Entry := .directory []

/-- What lies at the end of some names. -/
def at? : List String → Entry → Option Entry
  | [], entry => some entry
  | _ :: _, .file _ => none
  | name :: names, .directory entries => (entryNamed name entries).bind (at? names)

/-- The tree with an entry at the end of some names; directories on the way are made. -/
def put (entry : Entry) : List String → Entry → Entry
  | [], _ => entry
  | name :: names, .directory entries =>
    .directory (putEntry name (put entry names ((entryNamed name entries).getD empty)) entries)
  | _ :: _, .file content => .file content

mutual

/-- The files of a tree by their names from the top. -/
def files (names : List String) : Entry → List (List String × ByteArray)
  | .file content => [(names, content)]
  | .directory entries => filesOf names entries

/-- The files of some entries of a directory. -/
def filesOf (names : List String) : List (String × Entry) → List (List String × ByteArray)
  | [] => []
  | (name, entry) :: entries => entry.files (names ++ [name]) ++ filesOf names entries

end

/-- Whether a file of the given content lies at the end of some names. -/
def holds (tree : Entry) (names : List String) (content : ByteArray) : Bool :=
  match tree.at? names with
  | some (.file c) => c == content
  | _ => false

/-- The files of a tree that are new or changed since an earlier one, by their paths. -/
def changes (tree earlier : Entry) : List (String × ByteArray) :=
  ((tree.files []).filter fun (names, content) => !earlier.holds names content).map
    fun (names, content) => ("/".intercalate names, content)

/-- What is put at the end of a name lies there. -/
theorem at?_put_singleton (entry : Entry) (name : String) (entries : List (String × Entry)) :
    at? [name] (put entry [name] (.directory entries)) = some entry := by
  simp [at?, put, entryNamed_putEntry]

end Entry

end GraphqlClient
