import GraphqlClient.Json.Reader
import GraphqlClient.Settings.Basic

/-!
# Options from JSON

Options are the members of a JSON object, or the items of an array in the order of the keys. They
are taken one after the other and the first problem decides: a key that is unknown or repeated is
a problem before its value is looked at, and a null stands for an option that is not given.
-/

namespace GraphqlClient

/-- The options by their keys, in order. -/
inductive OptionKey where
  | dedupeOperationSuffix
  | documentVariablePrefix
  | documentVariableSuffix
  | fragmentVariablePrefix
  | fragmentVariableSuffix
  | gqlImport
  | namingConvention
  | omitOperationSuffix
  | operationResultSuffix
  | transformUnderscore
  deriving DecidableEq, Repr

namespace OptionKey

/-- The key's text. -/
def text : OptionKey → String
  | .dedupeOperationSuffix => "dedupeOperationSuffix"
  | .documentVariablePrefix => "documentVariablePrefix"
  | .documentVariableSuffix => "documentVariableSuffix"
  | .fragmentVariablePrefix => "fragmentVariablePrefix"
  | .fragmentVariableSuffix => "fragmentVariableSuffix"
  | .gqlImport => "gqlImport"
  | .namingConvention => "namingConvention"
  | .omitOperationSuffix => "omitOperationSuffix"
  | .operationResultSuffix => "operationResultSuffix"
  | .transformUnderscore => "transformUnderscore"

/-- All keys, in order. -/
def all : List OptionKey :=
  [.dedupeOperationSuffix, .documentVariablePrefix, .documentVariableSuffix, .fragmentVariablePrefix,
   .fragmentVariableSuffix, .gqlImport, .namingConvention, .omitOperationSuffix,
   .operationResultSuffix, .transformUnderscore]

/-- The key that a text spells. -/
def ofText? (text : String) : Option OptionKey := all.find? (·.text = text)

/-- Every key is in the list. -/
theorem mem_all (key : OptionKey) : key ∈ all := by cases key <;> decide

/-- Every key is found by its text. -/
theorem ofText?_text (key : OptionKey) : ofText? key.text = some key := by
  cases key <;> decide

end OptionKey

/-- What keeps a text from giving options. -/
inductive OptionsError where
  | malformed (fault : JsonFault)
  | unknownField (name : String)
  | duplicateField (key : OptionKey)
  | invalidType (found : String) (expected : String)
  | unknownVariant (name : String)
  deriving DecidableEq, Repr

namespace OptionsError

/-- A list of names between backticks. -/
def enumerate (names : List String) : String :=
  ", ".intercalate (names.map fun name => "`" ++ name ++ "`")

/-- The wording of an error in the options. -/
def message : OptionsError → String
  | .malformed fault => fault.message
  | .unknownField name =>
    "unknown field `" ++ name ++ "`, expected one of " ++ enumerate (OptionKey.all.map OptionKey.text)
  | .duplicateField key => "duplicate field `" ++ key.text ++ "`"
  | .invalidType found expected => "invalid type: " ++ found ++ ", expected " ++ expected
  | .unknownVariant name =>
    "unknown variant `" ++ name ++ "`, expected one of " ++
      enumerate ["keep", "change-case#pascalCase", "change-case-all#pascalCase", "pascalCase"]

end OptionsError

/-- A value of another type than expected, or one that cannot be read. -/
def Json.mismatch (value : Json) (expected : String) : OptionsError :=
  match value with
  | .malformed _ fault => .malformed fault
  | value => .invalidType value.description expected

/-- The flag that a value is, or nothing for a null. -/
def Json.flag? : Json → Except OptionsError (Option Bool)
  | .null => .ok none
  | .boolean value => .ok (some value)
  | value => .error (value.mismatch "a boolean")

/-- The text that a value is, or nothing for a null. -/
def Json.text? : Json → Except OptionsError (Option String)
  | .null => .ok none
  | .string value => .ok (some value)
  | value => .error (value.mismatch "a string")

/-- The naming convention that a name stands for. -/
def NamingConvention.ofName (name : String) : Except OptionsError NamingConvention :=
  if name = "keep" then .ok .keep
  else if name = "pascalCase" ∨ name = "change-case#pascalCase" ∨ name = "change-case-all#pascalCase" then
    .ok .pascalCase
  else .error (.unknownVariant name)

/-- The fault of an object that has more than the one member it should have. -/
def Json.surplusFault : Option JsonFault → JsonFault
  | some .endInObject => .endInObject
  | _ => .expectedValue

/-- The naming convention that an object's only member names; its value is null. An object that
ends without a member lacks a value, which is no fault of its syntax. -/
def NamingConvention.ofMembers (members : List (String × Json)) (fault : Option JsonFault) :
    Except OptionsError NamingConvention :=
  match members, fault with
  | [], fault => .error (.malformed (fault.getD .expectedValue))
  | (name, value) :: others, fault => do
    let convention ← ofName name
    match value with
    | .null =>
      match others, fault with
      | [], none => .ok convention
      | [], fault => .error (.malformed (Json.surplusFault fault))
      | _ :: _, _ => .error (.malformed .expectedValue)
    | value => .error (value.mismatch "unit")

/-- The naming convention that a value is, or nothing for a null. -/
def Json.convention? : Json → Except OptionsError (Option NamingConvention)
  | .null => .ok none
  | .string name => (NamingConvention.ofName name).map some
  | .object members fault => (NamingConvention.ofMembers members fault).map some
  | .malformed (some 'n') fault => .error (.malformed fault)
  | .malformed (some '"') fault => .error (.malformed fault)
  | .malformed none fault => .error (.malformed fault)
  | .malformed _ .expectedColon => .error (.malformed .expectedColon)
  | _ => .error (.malformed .expectedValue)

namespace Options

/-- Give an option the value that stands for it. -/
def put (o : Options) (key : OptionKey) (value : Json) : Except OptionsError Options :=
  match key with
  | .dedupeOperationSuffix => value.flag?.map fun v => { o with dedupeOperationSuffix := v }
  | .documentVariablePrefix => value.text?.map fun v => { o with documentVariablePrefix := v }
  | .documentVariableSuffix => value.text?.map fun v => { o with documentVariableSuffix := v }
  | .fragmentVariablePrefix => value.text?.map fun v => { o with fragmentVariablePrefix := v }
  | .fragmentVariableSuffix => value.text?.map fun v => { o with fragmentVariableSuffix := v }
  | .gqlImport => value.text?.map fun v => { o with gqlImport := v }
  | .namingConvention => value.convention?.map fun v => { o with namingConvention := v }
  | .omitOperationSuffix => value.flag?.map fun v => { o with omitOperationSuffix := v }
  | .operationResultSuffix => value.text?.map fun v => { o with operationResultSuffix := v }
  | .transformUnderscore => value.flag?.map fun v => { o with transformUnderscore := v }

/-- Take the members of an object after those with the keys `seen`. -/
def putMembers (seen : List OptionKey) (o : Options) :
    List (String × Json) → Except OptionsError Options
  | [] => .ok o
  | (name, value) :: members =>
    match OptionKey.ofText? name with
    | none => .error (.unknownField name)
    | some key =>
      if key ∈ seen then .error (.duplicateField key)
      else do
        putMembers (key :: seen) (← o.put key value) members

/-- The options that the members of an object give. -/
def ofMembers (members : List (String × Json)) : Except OptionsError Options :=
  putMembers [] {} members

/-- Take items for the given keys, one for each. -/
def putItems (o : Options) : List OptionKey → List Json → Except OptionsError Options
  | key :: keys, item :: items => do
    putItems (← o.put key item) keys items
  | _, _ => .ok o

/-- The fault of an array from which as many items as there are keys were taken. -/
def surplusFault (surplus : Bool) : Option JsonFault → Option JsonFault
  | none => if surplus then some .trailingCharacters else none
  | some fault =>
    if !surplus && (fault = .endInList || fault = .trailingComma) then some fault
    else some .trailingCharacters

/-- The options that the items of an array give. -/
def ofItems (items : List Json) (fault : Option JsonFault) : Except OptionsError Options := do
  let o ← putItems {} OptionKey.all items
  let fault :=
    if items.length < OptionKey.all.length then fault
    else surplusFault (OptionKey.all.length < items.length) fault
  match fault with
  | none => return o
  | some fault => throw (.malformed fault)

/-- The options that a value gives. -/
def ofJson : Json → Except OptionsError Options
  | .object members fault => do
    let o ← ofMembers members
    match fault with
    | none => return o
    | some fault => throw (.malformed fault)
  | .array items fault => ofItems items fault
  | value => .error (value.mismatch "struct RawClientSideBasePluginConfig")

/-- The options that a text spells; nothing may follow them. -/
def ofText (text : String) : Except OptionsError Options := do
  let (value, after) := Json.ofText text
  let o ← ofJson value
  match after with
  | .ok [] => return o
  | .ok (_ :: _) => throw (.malformed .trailingCharacters)
  | .error fault => throw (.malformed fault)

end Options

end GraphqlClient
