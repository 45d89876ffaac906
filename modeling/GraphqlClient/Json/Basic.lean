import GraphqlClient.Number.Decimal
import GraphqlClient.Text.Quoted

/-!
# JSON values

Values as far as a text spells them. A text that goes wrong still has a value: the place of the
fault is part of it, so that whoever looks at members in order meets whatever comes first.
-/

namespace GraphqlClient

/-- What can be wrong with the syntax of a JSON text. -/
inductive JsonFault where
  | endInValue
  | endInList
  | endInObject
  | endInString
  | expectedColon
  | expectedListEnd
  | expectedObjectEnd
  | expectedIdent
  | expectedValue
  | invalidEscape
  | invalidNumber
  | numberOutOfRange
  | controlCharacter
  | keyNotString
  | loneSurrogate
  | unpairedSurrogate
  | trailingComma
  | trailingCharacters
  | tooDeep
  deriving DecidableEq, Repr, Inhabited

/-- The wording of a syntax fault. -/
def JsonFault.message : JsonFault → String
  | .endInValue => "EOF while parsing a value"
  | .endInList => "EOF while parsing a list"
  | .endInObject => "EOF while parsing an object"
  | .endInString => "EOF while parsing a string"
  | .expectedColon => "expected `:`"
  | .expectedListEnd => "expected `,` or `]`"
  | .expectedObjectEnd => "expected `,` or `\x7d`"
  | .expectedIdent => "expected ident"
  | .expectedValue => "expected value"
  | .invalidEscape => "invalid escape"
  | .invalidNumber => "invalid number"
  | .numberOutOfRange => "number out of range"
  | .controlCharacter => "control character (\\u0000-\\u001F) found while parsing a string"
  | .keyNotString => "key must be a string"
  | .loneSurrogate => "lone leading surrogate in hex escape"
  | .unpairedSurrogate => "unexpected end of hex escape"
  | .trailingComma => "trailing comma"
  | .trailingCharacters => "trailing characters"
  | .tooDeep => "recursion limit exceeded"

/-- A number: an integer as long as 64 bits hold it, and else a float. -/
inductive JsonNumber where
  | integer (value : Int)
  | float (value : Binary64)
  deriving DecidableEq, Repr, Inhabited

/-- A JSON value, with the fault that ended it if there is one. -/
inductive Json where
  | null
  | boolean (value : Bool)
  | number (value : JsonNumber)
  | string (value : String)
  | array (items : List Json) (fault : Option JsonFault)
  | object (members : List (String × Json)) (fault : Option JsonFault)
  | malformed (first : Option Char) (fault : JsonFault)
  deriving Repr, Inhabited

/-- What a value is called in messages. -/
def Json.description : Json → String
  | .null => "null"
  | .boolean true => "boolean `true`"
  | .boolean false => "boolean `false`"
  | .number (.integer value) => "integer `" ++ toString value ++ "`"
  | .number (.float value) => "floating point `" ++ value.pointed ++ "`"
  | .string value => "string " ++ Text.quoted value
  | .array _ _ => "sequence"
  | .object _ _ => "map"
  | .malformed _ fault => fault.message

end GraphqlClient
