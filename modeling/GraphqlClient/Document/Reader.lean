import GraphqlClient.Document.Basic
import GraphqlClient.Token.Reader

/-!
# Reading executable documents

The grammar of documents, one reader per construct. `depth` is the number of brackets that may
still be opened: a text has at most fifty open at once, and the bracket beyond them fails.
-/

namespace GraphqlClient

open Reader

/-- How many brackets may be open at once. -/
def maxDepth : Nat := 50

/-- Read what stands inside a bracket, if one more may be open; the bracket itself is next. -/
def bracketed {α : Type} (depth : Nat) (inner : Nat → Reader α) : Reader α :=
  match depth with
  | 0 => fail
  | depth + 1 => do
    take
    inner depth

namespace Value

/-- The value that a bare word spells. -/
def ofWord (word : String) : Value :=
  if word = "true" then .boolean true
  else if word = "false" then .boolean false
  else if word = "null" then .null
  else .enum word

/-- Read a value without brackets. -/
def readPlain (allowVariables : Bool) : Reader Value := do
  match ← peek with
  | .name word =>
    take
    return ofWord word
  | .int value =>
    take
    return .int value
  | .float value =>
    take
    return .float value
  | .string value =>
    take
    return .string value
  | .mark '$' =>
    if allowVariables then
      take
      return .variable (← name)
    else
      fail
  | _ => fail

/-- Read a name, a colon and a value. -/
def readField (value : Reader Value) : Reader (String × Value) := do
  let key ← name
  mark ':'
  return (key, ← value)

/-- Read a value; `allowVariables` tells whether it may hold any. -/
def read (allowVariables : Bool) : Nat → Reader Value
  | 0 => readPlain allowVariables
  | depth + 1 => do
    match ← peek with
    | .mark '[' =>
      take
      return .list (← closedBy ']' (read allowVariables depth))
    | .mark '{' =>
      take
      return ofFields (← closedBy '}' (readField (read allowVariables depth)))
    | _ => readPlain allowVariables

end Value

namespace TypeRef

/-- Read the exclamation mark that may follow a type. -/
def readStrength (type : TypeRef) : Reader TypeRef := do
  if ← mark? '!' then return .nonNull type else return type

/-- Read a type. -/
def read : Nat → Reader TypeRef
  | 0 => do
    readStrength (.named (← name))
  | depth + 1 => do
    if ← mark? '[' then
      let item ← read depth
      mark ']'
      readStrength (.list item)
    else
      readStrength (.named (← name))

end TypeRef

/-- Read arguments in parentheses, if there are any. -/
def readArguments (depth : Nat) : Reader (List (String × Value)) := do
  if (← peek) = .mark '(' then
    bracketed depth fun inner => someClosedBy ')' (Value.readField (Value.read true inner))
  else
    return []

/-- Read the directives that stand next. -/
def readDirectives (depth : Nat) : Reader (List Directive) := do
  let directive : Reader Directive := do
    let name ← name
    return ⟨name, ← readArguments depth⟩
  eachAfter '@' directive (← remaining)

namespace VariableDefinition

/-- Read the definition of a variable. -/
def read (depth : Nat) : Reader VariableDefinition := do
  mark '$'
  let name ← Reader.name
  mark ':'
  let type ← TypeRef.read depth
  if ← mark? '=' then
    return ⟨name, type, some (← Value.read false depth)⟩
  else
    return ⟨name, type, none⟩

/-- Read the variables of an operation, if there are any. -/
def readAll (depth : Nat) : Reader (List VariableDefinition) := do
  if (← peek) = .mark '(' then bracketed depth fun inner => someClosedBy ')' (read inner)
  else return []

end VariableDefinition

namespace Selection

/-- Read a selection set; `selection` reads its entries, if a bracket may be opened. -/
def readSet (selection : Option (Reader Selection)) : Reader (List Selection) := do
  match ← peek, selection with
  | .mark '{', some selection =>
    take
    someClosedBy '}' selection
  | _, _ => fail

/-- Read a field. -/
def readField (depth : Nat) (selection : Option (Reader Selection)) : Reader Selection := do
  let first ← name
  let aliased ← mark? ':'
  let name ← if aliased then name else pure first
  let arguments ← readArguments depth
  let directives ← readDirectives depth
  let selections ← if (← peek) = .mark '{' then readSet selection else pure []
  return .field (if aliased then some first else none) name arguments directives selections

/-- Read what follows three dots. -/
def readSpread (depth : Nat) (selection : Option (Reader Selection)) : Reader Selection := do
  match ← peek with
  | .name word =>
    take
    if word = "on" then
      let type ← name
      let directives ← readDirectives depth
      return .inline (some type) directives (← readSet selection)
    else
      return .spread word (← readDirectives depth)
  | _ =>
    let directives ← readDirectives depth
    return .inline none directives (← readSet selection)

/-- Read an entry of a selection set, of which the parts may be nested as `selection` can read. -/
def readWith (depth : Nat) (selection : Option (Reader Selection)) : Reader Selection := do
  if ← token? .spread then readSpread depth selection else readField depth selection

/-- Read an entry of a selection set. -/
def read : Nat → Reader Selection
  | 0 => readWith 0 none
  | depth + 1 => readWith (depth + 1) (some (read depth))

/-- Read a selection set. -/
def readAll (depth : Nat) : Reader (List Selection) :=
  readSet (match depth with | 0 => none | depth + 1 => some (read depth))

end Selection

namespace Definition

/-- Read an operation of a kind; its keyword, at `position`, is taken. -/
def readOperation (kind : OperationKind) (position : Position) : Reader Definition := do
  let name ← match ← peek with
    | .name text =>
      take
      pure (some text)
    | _ => pure none
  let definitions ← VariableDefinition.readAll maxDepth
  let directives ← readDirectives maxDepth
  let selections ← Selection.readAll maxDepth
  return .operation ⟨kind, name, definitions, directives, selections, position⟩

/-- Read a fragment; its keyword, at `position`, is taken. -/
def readFragment (position : Position) : Reader Definition := do
  let name ← name
  token (.name "on")
  let type ← Reader.name
  let directives ← readDirectives maxDepth
  let selections ← Selection.readAll maxDepth
  return .fragment ⟨name, type, directives, selections, position⟩

/-- Read a definition. -/
def read : Reader Definition := do
  let first ← next
  match first.token with
  | .mark '{' => return .shorthand (← Selection.readAll maxDepth)
  | .name word =>
    match OperationKind.ofKeyword? word with
    | some kind =>
      take
      readOperation kind first.position
    | none =>
      if word = "fragment" then
        take
        readFragment first.position
      else
        fail
  | _ => fail

end Definition

/-- The document that a text spells, or the position at which it cannot be one. -/
def Document.ofText (text : String) : Except Position Document :=
  (untilFinish Definition.read).ofText text

end GraphqlClient
