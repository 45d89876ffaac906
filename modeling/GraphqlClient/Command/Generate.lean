import GraphqlClient.Command.Arguments
import GraphqlClient.Command.Discovery
import GraphqlClient.Schema.Reader
import GraphqlClient.Sdk.File
import GraphqlClient.Settings.Reader
import GraphqlClient.Text.Utf8

/-!
# The generate command

Configuration and schema are read first, then files are found and loaded, then the client is
generated and printed or written. Whatever fails first ends the run; only the last step changes the
file system.
-/

namespace GraphqlClient

/-- Why a file has no text. -/
inductive ReadError where
  | notFile (path : String)
  | refused (path : String) (wording : String)
  | notText (path : String) (error : Text.Utf8.DecodeError)
  deriving DecidableEq, Repr

/-- The wording of a file without text. -/
def ReadError.message : ReadError → String
  | .notFile path => "Path is not a file: " ++ Text.quoted path
  | .refused path wording => "Failed to read file at " ++ Text.quoted path ++ ": " ++ wording
  | .notText path error => "File at " ++ Text.quoted path ++ " is not valid UTF-8: " ++ error.message

/-- Why a client cannot be generated. -/
inductive RequestError where
  | unreadable (error : ReadError)
  | badOptions (path : String) (error : OptionsError)
  | badSchema (path : String) (position : Position)
  | scan (error : ScanError)
  | unreadableDocument (error : ReadError)
  | badDocument (error : DocumentError)
  | generation (error : GenerationError)
  deriving DecidableEq, Repr

/-- The wording of a failed request. -/
def RequestError.message : RequestError → String
  | .unreadable error => error.message
  | .badOptions path error =>
    "Invalid plugin config in " ++ Text.quoted path ++ ": " ++ error.message
  | .badSchema path position =>
    "Failed to parse schema file " ++ Text.quoted path ++ ": " ++ Schema.fault position
  | .scan error => error.message
  | .unreadableDocument error =>
    "Failure while trying to read an executable document file from disk: " ++ error.message ++ ": " ++
      error.message
  | .badDocument error => error.message
  | .generation error => error.message

/-- The text of a file's content, unless the system refuses to read it. -/
def View.textOf (view : View) (path : String) (content : ByteArray) : Except ReadError String :=
  match view.refusal path with
  | some wording => .error (.refused path wording)
  | none => (Text.Utf8.decode content.data.toList).mapError (.notText path)

/-- The text of the file at a path. -/
def View.textAt (view : View) (path : String) : Except ReadError String :=
  match view.look path with
  | .ok (.file content) => view.textOf path content
  | _ => .error (.notFile path)

/-- The settings that a request names. -/
def Request.settings (r : Request) (view : View) : Except RequestError Settings :=
  match r.config with
  | none => .ok (Options.settings {})
  | some path => do
    let text ← (view.textAt path).mapError .unreadable
    let options ← (Options.ofText text).mapError (.badOptions path)
    return options.settings

/-- The schema that a request names; without one it is empty. -/
def Request.readSchema (r : Request) (view : View) : Except RequestError Schema :=
  match r.schema with
  | none => .ok []
  | some path => do
    let text ← (view.textAt path).mapError .unreadable
    (Schema.ofText text).mapError (.badSchema path)

/-- The text of a file that was found. A walk may join names to a path that is too long to open. -/
def FoundFile.text (f : FoundFile) (view : View) : Except ReadError String :=
  if (pathFault? f.path).isSome then .error (.notFile f.path) else view.textOf f.path f.content

/-- The document in a file that was found. -/
def FoundFile.load (f : FoundFile) (view : View) : Except RequestError SourceDocument := do
  let text ← (f.text view).mapError .unreadableDocument
  (SourceDocument.ofText (some f.path) text).mapError .badDocument

/-- The documents in some files, or the first that is none. -/
def loadFiles (view : View) : List FoundFile → Except RequestError (List SourceDocument)
  | [] => .ok []
  | f :: fs => do
    let first ← f.load view
    let others ← loadFiles view fs
    return first :: others

/-- A generated file, and from how many documents it was generated. -/
structure GeneratedFile where
  text : String
  documents : Nat
  deriving DecidableEq, Repr

/-- What a request needs before documents are loaded. -/
def Request.prepare (r : Request) (listing : Listing) (view : View) :
    Except RequestError (Settings × Warned (List FoundFile)) := do
  let settings ← r.settings view
  let _ ← r.readSchema view
  let files ← (findFiles listing view.look r.extensions r.paths).mapError .scan
  return (settings, files)

/-- The client that a request asks for. -/
def Request.generate (r : Request) (listing : Listing) (view : View) :
    Warned (Except RequestError GeneratedFile) :=
  match r.prepare listing view with
  | .error error => ⟨.error error, []⟩
  | .ok (settings, files) =>
    match loadFiles view files.value with
    | .error error => ⟨.error error, files.warnings⟩
    | .ok documents =>
      let file := generateFile settings documents
      ⟨(file.value.map (⟨·, documents.length⟩)).mapError .generation, files.warnings ++ file.warnings⟩

/-- What a run says: on standard output if it succeeded, on standard error if not. -/
abbrev Report := Except String String

/-- The report of a request that failed. -/
def RequestError.report (e : RequestError) : Report :=
  .error ("❌ SDK generation failed: " ++ e.message)

/-- The report of a file that was to be printed. -/
def GeneratedFile.printed (g : GeneratedFile) : Report :=
  .ok (String.ofList (Text.trimEnd g.text.toList))

/-- The report of a file that was written. -/
def GeneratedFile.written (g : GeneratedFile) (path : String) : Report :=
  .ok ("✅ Generated SDK from " ++ toString g.documents ++ " GraphQL documents at " ++
    Text.quoted path ++ ".")

/-- The report of a file that could not be written. -/
def writeFailure (path : String) (fault : String) : Report :=
  .error ("❌ Failed to write the generated SDK to " ++ Text.quoted path ++ ": " ++ fault)

/-- Run a request on a file system: what it says, and the file system afterwards. -/
def Request.run (r : Request) (listing : Listing) (system : FileSystem) :
    Warned (Report × FileSystem) :=
  let generated := r.generate listing system.view
  let result := match generated.value, r.output with
    | .error error, _ => (error.report, system)
    | .ok file, none => (file.printed, system)
    | .ok file, some path =>
      match system.write path file.text.toUTF8 with
      | .ok system => (file.written path, system)
      | .error fault => (writeFailure path fault.message, system)
  ⟨result, generated.warnings⟩

end GraphqlClient
