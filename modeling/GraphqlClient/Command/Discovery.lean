import GraphqlClient.Command.FileSystem
import GraphqlClient.Warning

/-!
# Finding documents

The files at and under the paths of a request whose extension is asked for. A directory's entries
come in the order of their names, each with all that lies under it in its place; a directory whose
path is too long to open ends the search. If nothing is found and the only path is a file, that
file is taken with a warning.
-/

namespace GraphqlClient

/-- A file that was found: its path, which begins with the path it was found under. -/
structure FoundFile where
  path : String
  content : ByteArray

/-- The path of an entry of a directory. -/
def joinPath (directory name : String) : String :=
  if directory.endsWith "/" then directory ++ name else directory ++ "/" ++ name

/-- The part of a path after its last slash. -/
def fileName (path : String) : String := (pathParts path).getLast?.getD ""

/-- What follows the last dot of a file name, if that dot is not its first character. -/
def extension? (path : String) : Option String :=
  let name := (fileName path).toList
  let tail := (name.reverse.takeWhile (· != '.')).reverse
  if tail.length + 1 < name.length then some (String.ofList tail) else none

/-- An extension without the dots before it. -/
def plainExtension (extension : String) : String :=
  String.ofList (extension.toList.dropWhile (· = '.'))

/-- An order in which a run lists the members of a set, each of them once. A set has no order of its
own, so that two runs may list it differently. -/
structure Listing where
  list : List String → List String
  perm (texts : List String) : (list texts).Perm texts.eraseDups

/-- Members in the order in which they were put into the set. -/
def Listing.forwards : Listing := ⟨List.eraseDups, fun _ => .refl _⟩

/-- What a walk through a tree comes by. -/
inductive Visit where
  | file (found : FoundFile)
  | directory (path : String)

namespace Entry

mutual

/-- What a walk from an entry comes by, in order: a directory comes before what lies in it. -/
def visits (path : String) : Entry → List Visit
  | .file content => [.file ⟨path, content⟩]
  | .directory entries =>
    .directory path :: ((visitsByName path entries).mergeSort fun a b => a.1 ≤ b.1).flatMap Prod.snd

/-- The names of some entries of a directory, and what a walk from each comes by. -/
def visitsByName (path : String) : List (String × Entry) → List (String × List Visit)
  | [] => []
  | (name, entry) :: entries =>
    (name, entry.visits (joinPath path name)) :: visitsByName path entries

end

end Entry

/-- Why a search ended: at a path that cannot be opened, met below the path that was given. -/
structure ScanError where
  given : String
  path : String
  fault : PathFault
  deriving DecidableEq, Repr

/-- The wording of a search that ended. -/
def ScanError.message (e : ScanError) : String :=
  "Failed while scanning files at/under " ++ Text.quoted e.given ++ ": IO error for operation on " ++
    e.path ++ ": " ++ e.fault.message ++ ": " ++ e.fault.message

/-- Whether the extension of a file is asked for. -/
def FoundFile.matchesAny (f : FoundFile) (extensions : List String) : Bool :=
  (extension? f.path).any extensions.contains

/-- The files of a walk from a given path whose extension is asked for, if every directory can be
opened. -/
def scanVisits (given : String) (extensions : List String) :
    List Visit → Except ScanError (List FoundFile)
  | [] => .ok []
  | .directory path :: visits =>
    match pathFault? path with
    | some fault => .error ⟨given, path, fault⟩
    | none => scanVisits given extensions visits
  | .file f :: visits => do
    let found ← scanVisits given extensions visits
    return if f.matchesAny extensions then f :: found else found

/-- The files under some paths, or why the first search that ended did. -/
def scanPaths (look : Lookup) (extensions : List String) :
    List String → Except ScanError (List FoundFile)
  | [] => .ok []
  | path :: paths =>
    match look path with
    | .error fault => .error ⟨path, path, fault⟩
    | .ok entry => do
      let found ← scanVisits path extensions (entry.visits path)
      return found ++ (← scanPaths look extensions paths)

/-- The file that is taken although its extension was not asked for: the only path, if it is one. -/
def onlyFile? (look : Lookup) : List String → Option FoundFile
  | [path] =>
    match look path with
    | .ok (.file content) => some ⟨path, content⟩
    | _ => none
  | _ => none

/-- The files of a request, in order. The extensions are a set, which only the warning lists. -/
def findFiles (listing : Listing) (look : Lookup) (extensions : List String) (paths : List String) :
    Except ScanError (Warned (List FoundFile)) := do
  let extensions := extensions.map plainExtension
  match ← scanPaths look extensions paths with
  | [] =>
    match onlyFile? look paths with
    | some f => return ⟨[f], [.otherExtension f.path (listing.list extensions)]⟩
    | none => return ⟨[], []⟩
  | found => return ⟨found, []⟩

end GraphqlClient
