/-!
# Command line arguments

Arguments are read from left to right, and the first that is wrong or asks for help or for the
version decides. Options take their value from the same argument or from the next one, which then
must not look like an option; after two dashes everything is a path.
-/

namespace GraphqlClient

/-- What `generate` is asked to do. -/
structure Request where
  config : Option String := none
  schema : Option String := none
  output : Option String := none
  extensions : List String := []
  paths : List String := []
  deriving DecidableEq, Repr, Inhabited

/-- The extensions of documents unless others are given. -/
def defaultExtensions : List String := ["graphql", "gql"]

/-- What a command line asks for. -/
inductive Invocation where
  | usageError
  | help
  | version
  | noCommand (verbose : Bool)
  | generate (request : Request)
  deriving DecidableEq, Repr, Inhabited

/-- The options of `generate` that take a value. -/
inductive RequestOption where
  | config
  | schema
  | output
  | extensions
  deriving DecidableEq, Repr

namespace RequestOption

/-- The name of an option after two dashes. -/
def name : RequestOption → String
  | .config => "config"
  | .schema => "schema"
  | .output => "output"
  | .extensions => "graphql-file-exts"

/-- The option of a name. -/
def ofName? (name : String) : Option RequestOption :=
  [config, schema, output, extensions].find? (·.name = name)

end RequestOption

/-- An option's value where there was none, if it is not empty. -/
def setOnce (current : Option String) (value : String) : Option (Option String) :=
  if current.isSome || value.isEmpty then none else some (some value)

/-- The request with an option's value, unless that is not allowed. -/
def Request.set (r : Request) (option : RequestOption) (value : String) : Option Request :=
  match option with
  | .config => (setOnce r.config value).map fun v => { r with config := v }
  | .schema => (setOnce r.schema value).map fun v => { r with schema := v }
  | .output => (setOnce r.output value).map fun v => { r with output := v }
  | .extensions => some { r with extensions := r.extensions ++ value.splitOn "," }

/-- The request with one more path, unless that is empty. -/
def Request.addPath (r : Request) (path : String) : Option Request :=
  if path.isEmpty then none else some { r with paths := r.paths ++ [path] }

/-- The request with more paths. -/
def Request.addPaths (r : Request) : List String → Option Request
  | [] => some r
  | path :: paths => (r.addPath path).bind (·.addPaths paths)

/-- A request that is complete: with a path, and with the default extensions if none are given. -/
def Request.close (r : Request) : Invocation :=
  if r.paths.isEmpty then .usageError
  else .generate (if r.extensions.isEmpty then { r with extensions := defaultExtensions } else r)

/-- An argument by its form. -/
inductive ArgumentForm where
  | separator
  | long (name : String) (value : Option String)
  | short (letters : List Char)
  | plain

/-- The form of an argument. -/
def ArgumentForm.ofText (argument : String) : ArgumentForm :=
  match argument.toList with
  | ['-', '-'] => .separator
  | '-' :: '-' :: rest =>
    let name := String.ofList (rest.takeWhile (· != '='))
    match rest.dropWhile (· != '=') with
    | [] => .long name none
    | _ :: value => .long name (some (String.ofList value))
  | '-' :: letter :: letters => .short (letter :: letters)
  | _ => .plain

/-- Whether an argument may be the value of the option before it. -/
def isValue (argument : String) : Bool :=
  match ArgumentForm.ofText argument with
  | .plain => true
  | _ => false

/-- How an argument of `generate` goes on: with the request so far, or with the value of an option. -/
inductive RequestStep where
  | done (invocation : Invocation)
  | next (request : Option Request)
  | value (option : RequestOption)
  | paths

/-- The step that an argument of `generate` takes. -/
def Request.step (r : Request) (argument : String) : RequestStep :=
  match ArgumentForm.ofText argument with
  | .separator => .paths
  | .plain => .next (r.addPath argument)
  | .long name none =>
    match RequestOption.ofName? name with
    | some option => .value option
    | none => .done (if name = "help" then .help else .usageError)
  | .long name (some value) => .next ((RequestOption.ofName? name).bind (r.set · value))
  | .short ('h' :: _) => .done .help
  | .short ['o'] => .value .output
  | .short ('o' :: '=' :: value) => .next (r.set .output (String.ofList value))
  | .short ('o' :: value) => .next (r.set .output (String.ofList value))
  | .short _ => .done .usageError

mutual

/-- Read the arguments of `generate`. -/
def Request.read (r : Request) : List String → Invocation
  | [] => r.close
  | argument :: arguments =>
    match r.step argument with
    | .done invocation => invocation
    | .next none => .usageError
    | .next (some r) => r.read arguments
    | .value option => r.readValue option arguments
    | .paths =>
      match r.addPaths arguments with
      | some r => r.close
      | none => .usageError

/-- Read the value of an option, and the arguments after it. -/
def Request.readValue (r : Request) (option : RequestOption) : List String → Invocation
  | [] => .usageError
  | value :: arguments =>
    if isValue value then
      match r.set option value with
      | some r => r.read arguments
      | none => .usageError
    else .usageError

end

/-- What the letters of an argument ask for, or whether it is the flag for verbosity. -/
def readLetters (verbose : Bool) : List Char → Except Invocation Bool
  | [] => .ok verbose
  | 'v' :: letters => if verbose then .error .usageError else readLetters true letters
  | 'h' :: _ => .error .help
  | 'V' :: _ => .error .version
  | _ => .error .usageError

/-- The help for a command, of which `arguments` are the words. -/
def readHelp (arguments : List String) : Invocation :=
  if arguments = [] ∨ arguments = ["generate"] ∨ arguments = ["help"] then .help else .usageError

/-- Read the arguments before a command. -/
def readCommand (verbose : Bool) : List String → Invocation
  | [] => .noCommand verbose
  | argument :: arguments =>
    match ArgumentForm.ofText argument with
    | .separator => if arguments.isEmpty then .noCommand verbose else .usageError
    | .plain =>
      if argument = "generate" then Request.read {} arguments
      else if argument = "help" then readHelp arguments
      else .usageError
    | .long _ (some _) => .usageError
    | .long name none =>
      if name = "help" then .help
      else if name = "version" then .version
      else if name = "verbose" ∧ !verbose then readCommand true arguments
      else .usageError
    | .short letters =>
      match readLetters verbose letters with
      | .ok verbose => readCommand verbose arguments
      | .error invocation => invocation

/-- What a command line asks for. -/
def Invocation.ofArguments (arguments : List String) : Invocation :=
  readCommand false arguments

end GraphqlClient
