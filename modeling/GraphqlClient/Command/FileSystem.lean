import GraphqlClient.Command.FileTree
import GraphqlClient.Text.Lines
import GraphqlClient.Text.Utf8

/-!
# File systems

A tree of files with a working directory, and the paths that lead through it. A path that begins
with a slash starts at the root, every other one in the working directory. Names and paths are no
longer than the system allows; a name is measured when it is looked up. A file that is there may be
refused to a reader all the same. Writing replaces or creates one file, or changes nothing.
-/

namespace GraphqlClient

/-- Why a path leads to nothing that can be used. -/
inductive PathFault where
  | missing
  | notDirectory
  | isDirectory
  | nameTooLong
  | nullCharacter
  deriving DecidableEq, Repr, Inhabited

/-- The wording of a fault of a path. -/
def PathFault.message : PathFault → String
  | .missing => "No such file or directory (os error 2)"
  | .notDirectory => "Not a directory (os error 20)"
  | .isDirectory => "Is a directory (os error 21)"
  | .nameTooLong => "File name too long (os error 36)"
  | .nullCharacter => "file name contained an unexpected NUL byte"

/-- The parts of a path between slashes. -/
def pathParts (path : String) : List String :=
  (Text.splitOn '/' path.toList).map String.ofList

/-- Whether a part of a path stays where it is. -/
def staysHere (part : String) : Bool := part.isEmpty || part = "."

/-- Give up empty parts at the end. -/
def dropEmptyParts (parts : List String) : List String :=
  (parts.reverse.dropWhile String.isEmpty).reverse

/-- The most bytes of a name. -/
def maxNameBytes : Nat := 255

/-- The most bytes of a path. -/
def maxPathBytes : Nat := 4095

/-- How many bytes a name or a path takes. -/
def pathBytes (path : String) : Nat := Text.Utf8.byteLength path.toList

/-- What is wrong with a path wherever it leads. -/
def pathFault? (path : String) : Option PathFault :=
  if path.toList.contains '\x00' then some .nullCharacter
  else if maxPathBytes < pathBytes path then some .nameTooLong
  else if path.isEmpty then some .missing
  else none

namespace Entry

/-- The names to which the parts of a path lead from the end of `names`. Above the root is the
root. -/
def resolveFrom (tree : Entry) (names : List String) : List String → Except PathFault (List String)
  | [] => .ok names
  | part :: parts =>
    match tree.at? names with
    | none => .error .missing
    | some (.file _) => .error .notDirectory
    | some (.directory entries) =>
      if staysHere part then tree.resolveFrom names parts
      else if part = ".." then tree.resolveFrom names.dropLast parts
      else if maxNameBytes < pathBytes part then .error .nameTooLong
      else match entryNamed part entries with
        | none => .error .missing
        | some _ => tree.resolveFrom (names ++ [part]) parts

/-- The names of the file that writing at the last part of a path replaces or creates, after its
directory; a part that only a directory can be is refused. -/
def targetIn (tree : Entry) (directory : List String) (last : String) (onlyDirectory : Bool) :
    Except PathFault (List String) :=
  match tree.at? directory with
  | none => .error .missing
  | some (.file _) => .error .notDirectory
  | some (.directory entries) =>
    if onlyDirectory || staysHere last || last = ".." then .error .isDirectory
    else if maxNameBytes < pathBytes last then .error .nameTooLong
    else match entryNamed last entries with
      | some (.directory _) => .error .isDirectory
      | _ => .ok (directory ++ [last])

end Entry

/-- A tree of files, the names of the directory in which paths start, and what the system says at
paths whose files it refuses to read, such as `Permission denied (os error 13)`. -/
structure FileSystem where
  root : Entry
  workingDirectory : List String
  refusal : String → Option String := fun _ => none

/-- A way to look at what lies at a path. -/
abbrev Lookup := String → Except PathFault Entry

/-- What a run sees: what lies at a path, and what the system says if it refuses to read the file
there. -/
structure View where
  look : Lookup
  refusal : String → Option String

namespace FileSystem

/-- The names from which a path starts. -/
def start (system : FileSystem) (path : String) : List String :=
  if path.startsWith "/" then [] else system.workingDirectory

/-- The names to which a path leads. -/
def resolve (system : FileSystem) (path : String) : Except PathFault (List String) :=
  match pathFault? path with
  | some fault => .error fault
  | none => system.root.resolveFrom (system.start path) (pathParts path)

/-- What lies at a path. -/
def lookup (system : FileSystem) (path : String) : Except PathFault Entry := do
  match system.root.at? (← system.resolve path) with
  | some entry => return entry
  | none => throw .missing

/-- The names of the file that writing to a path replaces or creates. A path that ends in a slash
or in dots can only be a directory. -/
def target (system : FileSystem) (path : String) : Except PathFault (List String) :=
  match pathFault? path with
  | some fault => .error fault
  | none => do
    let parts := dropEmptyParts (pathParts path)
    let directory ← system.root.resolveFrom (system.start path) parts.dropLast
    system.root.targetIn directory (parts.getLast?.getD "") (path.endsWith "/")

/-- Write a file, whole or not at all. -/
def write (system : FileSystem) (path : String) (content : ByteArray) :
    Except PathFault FileSystem := do
  return { system with root := .put (.file content) (← system.target path) system.root }

/-- What can be seen of a file system. -/
def view (system : FileSystem) : View := ⟨system.lookup, system.refusal⟩

/-- What lies in the working directory. -/
def here (system : FileSystem) : Entry :=
  (system.root.at? system.workingDirectory).getD .empty

/-- The files in the working directory that are new or changed since an earlier state. -/
def changes (system earlier : FileSystem) : List (String × ByteArray) :=
  system.here.changes earlier.here

/-- Writing does not move the working directory. -/
theorem workingDirectory_write {system after : FileSystem} {path : String} {content : ByteArray}
    (h : system.write path content = .ok after) :
    after.workingDirectory = system.workingDirectory := by
  unfold write at h
  cases ht : system.target path with
  | error fault => simp [ht, bind, Except.bind] at h
  | ok names =>
    simp only [ht, bind, Except.bind, pure, Except.pure, Except.ok.injEq] at h
    rw [← h]

end FileSystem

end GraphqlClient
