import GraphqlClient.Token.Basic

/-!
# Executable documents

The syntax of operations and fragments. Object values keep their fields sorted by name and without
repetition; names may be any strings, also such as no text spells.
-/

namespace GraphqlClient

/-- An input value. -/
inductive Value where
  | variable (name : String)
  | int (value : Int)
  | float (value : Binary64)
  | string (value : String)
  | boolean (value : Bool)
  | null
  | enum (name : String)
  | list (items : List Value)
  | object (fields : List (String × Value))
  deriving Inhabited, Repr, BEq

/-- Put a field into fields sorted by name, in place of one of the same name. -/
def insertField (key : String) (value : Value) : List (String × Value) → List (String × Value)
  | [] => [(key, value)]
  | (k, v) :: fields =>
    if key < k then (key, value) :: (k, v) :: fields
    else if key = k then (key, value) :: fields
    else (k, v) :: insertField key value fields

/-- The object with the given fields, of which the last of each name counts. -/
def Value.ofFields (fields : List (String × Value)) : Value :=
  .object (fields.foldl (fun sorted field => insertField field.1 field.2 sorted) [])

/-- The type of a variable. -/
inductive TypeRef where
  | named (name : String)
  | list (item : TypeRef)
  | nonNull (type : TypeRef)
  deriving Inhabited, Repr, DecidableEq

/-- A directive with its arguments in written order. -/
structure Directive where
  name : String
  arguments : List (String × Value)
  deriving Inhabited, Repr, BEq

/-- A variable of an operation. -/
structure VariableDefinition where
  name : String
  type : TypeRef
  default : Option Value
  deriving Inhabited, Repr, BEq

/-- One entry of a selection set. -/
inductive Selection where
  | field (aliasName : Option String) (name : String) (arguments : List (String × Value))
      (directives : List Directive) (selections : List Selection)
  | spread (fragment : String) (directives : List Directive)
  | inline (on : Option String) (directives : List Directive) (selections : List Selection)
  deriving Inhabited, Repr, BEq

/-- The three kinds of operations. -/
inductive OperationKind where
  | query
  | mutation
  | subscription
  deriving DecidableEq, Repr, Inhabited

namespace OperationKind

/-- The keyword of an operation. -/
def keyword : OperationKind → String
  | .query => "query"
  | .mutation => "mutation"
  | .subscription => "subscription"

/-- The word that type names of such an operation end in. -/
def typeSuffix : OperationKind → String
  | .query => "Query"
  | .mutation => "Mutation"
  | .subscription => "Subscription"

/-- The kind that a keyword names. -/
def ofKeyword? (word : String) : Option OperationKind :=
  if word = "query" then some .query
  else if word = "mutation" then some .mutation
  else if word = "subscription" then some .subscription
  else none

end OperationKind

/-- An operation written with its keyword. -/
structure Operation where
  kind : OperationKind
  name : Option String
  variableDefinitions : List VariableDefinition
  directives : List Directive
  selections : List Selection
  position : Position
  deriving Inhabited, Repr, BEq

/-- A fragment definition. -/
structure Fragment where
  name : String
  on : String
  directives : List Directive
  selections : List Selection
  position : Position
  deriving Inhabited, Repr, BEq

/-- A definition of a document; a shorthand is a query of a selection set alone. -/
inductive Definition where
  | shorthand (selections : List Selection)
  | operation (operation : Operation)
  | fragment (fragment : Fragment)
  deriving Inhabited, Repr, BEq

/-- The definitions of a document, in order. -/
abbrev Document := List Definition

/-- The fragments of a document, in order. -/
def Document.fragments (document : Document) : List Fragment :=
  document.filterMap fun
    | .fragment fragment => some fragment
    | _ => none

/-- Whether values for the variables may be left out: none is both non-null and without default. -/
def areOptional (definitions : List VariableDefinition) : Bool :=
  definitions.all fun v =>
    match v.type, v.default with
    | .nonNull _, none => false
    | _, _ => true

end GraphqlClient
