import GraphqlClient.Document.Reader
import GraphqlClient.Schema.Basic

/-!
# Reading schemas

The grammar of schema documents. Besides the grammar, root operations have to be known and named
once, an extension has to add something, and directives have known locations.
-/

namespace GraphqlClient.Schema

open Reader

/-- Take a name if it is the given word, and tell whether it was. -/
def word? (word : String) : Reader Bool := token? (.name word)

/-- Skip a description, if there is one. -/
def skipDescription : Reader Unit := do
  match ← peek with
  | .string _ => take
  | _ => return ()

/-- Read items in brackets, if there are any; there is at least one. -/
def readBlock? {α : Type} (opening close : Char) (depth : Nat) (item : Nat → Reader α) :
    Reader (List α) := do
  if (← peek) = .mark opening then bracketed depth fun inner => someClosedBy close (item inner)
  else return []

/-- Read names with a mark between them; the mark may also stand first. -/
def readNames {α : Type} (separator : Char) (item : Reader α) : Reader (List α) := do
  let _ ← mark? separator
  let first ← item
  let others ← eachAfter separator item (← remaining)
  return first :: others

/-- Read an argument or an input field. -/
def readInput (depth : Nat) : Reader Unit := do
  skipDescription
  let _ ← name
  mark ':'
  let _ ← TypeRef.read depth
  if ← mark? '=' then
    let _ ← Value.read false depth
  let _ ← readDirectives depth

/-- Read a field. -/
def readField (depth : Nat) : Reader Unit := do
  skipDescription
  let _ ← name
  let _ ← readBlock? '(' ')' depth readInput
  mark ':'
  let _ ← TypeRef.read depth
  let _ ← readDirectives depth

/-- Read an enum value. -/
def readEnumValue (depth : Nat) : Reader Unit := do
  skipDescription
  let _ ← name
  let _ ← readDirectives depth

/-- Read the interfaces that a type implements. -/
def readInterfaces : Reader (List String) := do
  if ← word? "implements" then readNames '&' name else return []

/-- Read the members of a union. -/
def readUnionMembers : Reader (List String) := do
  if ← mark? '=' then readNames '|' name else return []

/-- Read the rest of a type's definition after its name, and tell whether it says anything. The
interfaces of an object type count as such, those of an interface do not. -/
def readTypeBody (kind : TypeKind) : Reader Bool := do
  let interfaces ← match kind with
    | .object => readInterfaces
    | .interface =>
      let _ ← readInterfaces
      pure []
    | _ => pure []
  let directives ← readDirectives maxDepth
  let filled ← match kind with
    | .scalar => pure false
    | .union => (!·.isEmpty) <$> readUnionMembers
    | .enum => (!·.isEmpty) <$> readBlock? '\x7b' '\x7d' maxDepth readEnumValue
    | .input => (!·.isEmpty) <$> readBlock? '\x7b' '\x7d' maxDepth readInput
    | _ => (!·.isEmpty) <$> readBlock? '\x7b' '\x7d' maxDepth readField
  return filled || !interfaces.isEmpty || !directives.isEmpty

/-- Read the root operations of a schema; its keyword, at `position`, is taken. -/
def readRoots (position : Position) : Reader SchemaDefinition := do
  let _ ← readDirectives maxDepth
  if (← peek) = .mark '\x7b' then
    let roots ← bracketed maxDepth fun _ => closedBy '\x7d' do
      let operation ← name
      mark ':'
      let _ ← name
      return operation
    if roots.all (OperationKind.ofKeyword? · |>.isSome) ∧ roots.eraseDups = roots then return .roots
    else throw position
  else
    fail

/-- Read a place where a directive may stand. -/
def readLocation : Reader String := do
  let first ← next
  let location ← name
  if location ∈ directiveLocations then return location else throw first.position

/-- Read the places where a directive may stand; there are none unless a mark or a name is next. -/
def readLocations : Reader (List String) := do
  match ← peek with
  | .name _ | .mark '|' => readNames '|' readLocation
  | _ => return []

/-- Read a directive's definition; its keyword is taken. -/
def readDirectiveDefinition : Reader SchemaDefinition := do
  mark '@'
  let name ← name
  let _ ← readBlock? '(' ')' maxDepth readInput
  let _ ← word? "repeatable"
  token (.name "on")
  let _ ← readLocations
  return .directive name

/-- Read an extension; its keyword is taken. -/
def readExtension : Reader SchemaDefinition := do
  let first ← next
  match first.token with
  | .name word =>
    match TypeKind.ofKeyword? word with
    | some kind =>
      take
      let name ← name
      if ← readTypeBody kind then return .extension kind name else throw first.position
    | none => fail
  | _ => fail

/-- Read a definition that may have a description; it is skipped already. -/
def readDescribed : Reader SchemaDefinition := do
  match ← peek with
  | .name word =>
    match TypeKind.ofKeyword? word with
    | some kind =>
      take
      let name ← name
      let _ ← readTypeBody kind
      return .type kind name
    | none =>
      token (.name "directive")
      readDirectiveDefinition
  | _ => fail

/-- Read a definition. -/
def readDefinition : Reader SchemaDefinition := do
  let first ← next
  if first.token = .name "schema" then
    take
    readRoots first.position
  else if first.token = .name "extend" then
    take
    readExtension
  else
    skipDescription
    readDescribed

/-- The schema that a text spells, or the position at which it cannot be one. -/
def ofText (text : String) : Except Position Schema :=
  (untilFinish readDefinition).ofText text

/-- What is said of a schema text that cannot be read past a position. -/
def fault (p : Position) : String := "schema parse error: Parse error at " ++ p.text

end GraphqlClient.Schema
