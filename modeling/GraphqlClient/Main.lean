import GraphqlClient.Command.Generate

/-!
# The program

Opens the files that a request names, hands them to `Request.generate`, and prints or writes what
comes of it. This layer opens files by their paths only: what lies under a path that is a directory
is read from standard input, as the paths of files, one on each line.
-/

namespace GraphqlClient

/-- How the program is called. -/
def usage : String :=
  "usage: [-v|--verbose] generate [--config FILE] [--schema FILE] [-o|--output FILE] " ++
    "[--graphql-file-exts EXT,...]... FILE_OR_DIR...\n" ++
    "  --config             JSON file with options for names and imports\n" ++
    "  --schema             GraphQL schema of the operations\n" ++
    "  -o, --output         file to write the client to, standard output if omitted\n" ++
    "  --graphql-file-exts  extensions of operation files (default: graphql,gql)\n" ++
    "The files under directories are listed on standard input, one path on each line."

/-- Why a file cannot be opened: its path has a fault, or the system refuses to open it. -/
inductive OpenError where
  | fault (fault : PathFault)
  | refused (wording : String)

/-- What the system says of a file that cannot be opened. -/
def OpenError.wording : OpenError → String
  | .fault reason => reason.message
  | .refused wording => wording

/-- An error of the system when a file was to be opened. -/
def OpenError.ofError : IO.Error → OpenError
  | .noFileOrDirectory _ _ _ => .fault .missing
  | .inappropriateType _ 21 _ => .fault .isDirectory
  | .inappropriateType _ _ _ => .fault .notDirectory
  | .invalidArgument _ 36 _ => .fault .nameTooLong
  | .permissionDenied _ code details => .refused (details ++ " (os error " ++ toString code ++ ")")
  | error => .refused (toString error)

/-- The content of the file at a path. -/
def openFile (path : String) : IO (Except OpenError ByteArray) := do
  match ← (IO.FS.readBinFile path).toBaseIO with
  | .ok content => return .ok content
  | .error error => return .error (.ofError error)

/-- The lines of standard input. -/
partial def inputLines (input : IO.FS.Stream) : IO (List String) := do
  let line ← input.getLine
  if line.isEmpty then return []
  else return String.ofList (line.toList.takeWhile (· != '\n')) :: (← inputLines input)

/-- What was opened: what lies at some paths, and what was said of the files that were refused. -/
structure Opened where
  entries : List (String × Except PathFault Entry) := []
  refusals : List (String × String) := []

namespace Opened

/-- Paths that were opened before others. -/
def append (first others : Opened) : Opened :=
  ⟨first.entries ++ others.entries, first.refusals ++ others.refusals⟩

/-- What can be seen of what was opened. -/
def view (opened : Opened) : View where
  look path := (opened.entries.lookup path).getD (.error .missing)
  refusal path := opened.refusals.lookup path

/-- Whether one of the opened paths is a directory. -/
def hasDirectory (opened : Opened) : Bool :=
  opened.entries.any fun
    | (_, .ok (.directory _)) => true
    | _ => false

end Opened

/-- The files of a list that lie under a directory, as a tree, and what was said of those that were
refused. -/
def listedTree (directory : String) : List String → IO (Entry × List (String × String))
  | [] => return (.empty, [])
  | path :: paths => do
    let (tree, refusals) ← listedTree directory paths
    let top := joinPath directory ""
    if path.startsWith top then
      let names := (pathParts (String.ofList (path.toList.drop top.length))).filter (!·.isEmpty)
      match ← openFile path with
      | .ok content => return (.put (.file content) names tree, refusals)
      | .error (.refused wording) =>
        return (.put (.file .empty) names tree, (path, wording) :: refusals)
      | .error (.fault _) => return (tree, refusals)
    else return (tree, refusals)

/-- Open a path; the files of a directory are those of a list. -/
def openPath (listed : List String) (path : String) : IO Opened := do
  match ← openFile path with
  | .ok content => return { entries := [(path, .ok (.file content))] }
  | .error (.refused wording) => return ⟨[(path, .ok (.file .empty))], [(path, wording)]⟩
  | .error (.fault .isDirectory) =>
    let (tree, refusals) ← listedTree path listed
    return ⟨[(path, .ok tree)], refusals⟩
  | .error (.fault fault) => return { entries := [(path, .error fault)] }

/-- Open some paths, one after the other. -/
def openAll (listed : List String) : List String → IO Opened
  | [] => return {}
  | path :: paths => return (← openPath listed path).append (← openAll listed paths)

/-- Print a report, and give the exit status. -/
def printReport : Report → IO UInt32
  | .ok text => do
    IO.println text
    return 0
  | .error text => do
    IO.eprintln text
    return 1

/-- Write a generated file where the request asks for it, if it asks. -/
def deliver (r : Request) (file : GeneratedFile) : IO Report := do
  match r.output with
  | none => return file.printed
  | some path =>
    match ← (IO.FS.writeBinFile path file.text.toUTF8).toBaseIO with
    | .ok _ => return file.written path
    | .error error => return writeFailure path (OpenError.ofError error).wording

/-- Carry out a request. -/
def carryOut (r : Request) : IO UInt32 := do
  let named := r.config.toList ++ r.schema.toList ++ r.paths
  let opened ← openAll [] named
  let opened ←
    if opened.hasDirectory then openAll (← inputLines (← IO.getStdin)) named else pure opened
  let generated := r.generate .forwards opened.view
  for warning in generated.warnings do
    IO.eprintln ("warning: " ++ warning.message)
  match generated.value with
  | .error error => printReport error.report
  | .ok file => printReport (← deliver r file)

end GraphqlClient

open GraphqlClient in
/-- Run the program. -/
def main (arguments : List String) : IO UInt32 := do
  match Invocation.ofArguments arguments with
  | .usageError =>
    IO.eprintln usage
    return 2
  | .help | .noCommand _ =>
    IO.println usage
    return 0
  | .version =>
    IO.println "0.0.1"
    return 0
  | .generate r => carryOut r
