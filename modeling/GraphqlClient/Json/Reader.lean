import GraphqlClient.Json.Number
import GraphqlClient.Text.Utf8

/-!
# Reading JSON texts

A value is read as far as it goes. Beside it stands the text after it, or the fault at which
reading stopped, which is then also the fault of every value around it.
-/

namespace GraphqlClient.Json

/-- Whether a character may stand between the parts of a JSON text. -/
def isSpace (c : Char) : Bool := c = ' ' || c = '\n' || c = '\t' || c = '\r'

/-- The text without the spaces at its start. -/
def skipSpaces (text : List Char) : List Char := text.dropWhile isSpace

/-- The text after a reading, or the fault at which it stopped. -/
abbrev After := Except JsonFault (List Char)

/-- The value of a hexadecimal digit. -/
def hexDigit? (c : Char) : Option Nat :=
  if '0' ≤ c ∧ c ≤ '9' then some (c.toNat - '0'.toNat)
  else if 'a' ≤ c ∧ c ≤ 'f' then some (c.toNat - 'a'.toNat + 10)
  else if 'A' ≤ c ∧ c ≤ 'F' then some (c.toNat - 'A'.toNat + 10)
  else none

/-- Read four hexadecimal digits; a fault of the digits shows only when four bytes are left. -/
def readHex (text : List Char) : Except JsonFault (Nat × List Char) :=
  match text with
  | a :: b :: c :: d :: rest =>
    match hexDigit? a, hexDigit? b, hexDigit? c, hexDigit? d with
    | some a, some b, some c, some d => .ok (((a * 16 + b) * 16 + c) * 16 + d, rest)
    | _, _, _, _ => .error .invalidEscape
  | short =>
    if 4 ≤ Text.Utf8.byteLength short then .error .invalidEscape else .error .endInString

/-- Whether a code unit begins a surrogate pair. -/
def isHighSurrogate (unit : Nat) : Bool := 0xD800 ≤ unit && unit ≤ 0xDBFF

/-- Whether a code unit ends a surrogate pair. -/
def isLowSurrogate (unit : Nat) : Bool := 0xDC00 ≤ unit && unit ≤ 0xDFFF

/-- Read the second half of a surrogate pair. -/
def readLowSurrogate (high : Nat) (text : List Char) : Except JsonFault (Char × List Char) :=
  match text with
  | [] => .error .endInString
  | '\\' :: [] => .error .endInString
  | '\\' :: 'u' :: rest => do
    let (low, rest) ← readHex rest
    if isLowSurrogate low then
      return (Char.ofNat ((high - 0xD800) * 0x400 + (low - 0xDC00) + 0x10000), rest)
    else
      throw .loneSurrogate
  | _ => .error .unpairedSurrogate

/-- Read the character that an escape after `u` denotes. -/
def readUnicode (text : List Char) : Except JsonFault (Char × List Char) := do
  let (unit, rest) ← readHex text
  if isLowSurrogate unit then throw .loneSurrogate
  else if isHighSurrogate unit then readLowSurrogate unit rest
  else return (Char.ofNat unit, rest)

/-- Read an escape after its backslash. -/
def readEscape (text : List Char) : Except JsonFault (Char × List Char) :=
  match text with
  | [] => .error .endInString
  | '"' :: rest => .ok ('"', rest)
  | '\\' :: rest => .ok ('\\', rest)
  | '/' :: rest => .ok ('/', rest)
  | 'b' :: rest => .ok ('\x08', rest)
  | 'f' :: rest => .ok ('\x0c', rest)
  | 'n' :: rest => .ok ('\n', rest)
  | 'r' :: rest => .ok ('\r', rest)
  | 't' :: rest => .ok ('\t', rest)
  | 'u' :: rest => readUnicode rest
  | _ => .error .invalidEscape

/-- Read a string after its opening quote; `bound` is the length of the text, and `before` holds
the characters of the string so far, last first. -/
def readString (before : List Char) (bound : Nat) (text : List Char) :
    Except JsonFault (String × List Char) :=
  match bound, text with
  | _, [] => .error .endInString
  | _, '"' :: rest => .ok (String.ofList before.reverse, rest)
  | 0, _ => .error .endInString
  | bound + 1, '\\' :: rest => do
    let (c, rest) ← readEscape rest
    readString (c :: before) bound rest
  | bound + 1, c :: rest =>
    if c.toNat < 0x20 then .error .controlCharacter else readString (c :: before) bound rest

/-- Read the letters of a word, of which the first is taken. -/
def readWord (letters text : List Char) : After :=
  match letters, text with
  | [], rest => .ok rest
  | _ :: _, [] => .error .endInValue
  | letter :: letters, c :: rest => if c = letter then readWord letters rest else .error .expectedIdent

/-- A value that a word spells. -/
def wordValue (value : Json) (first : Char) (letters text : List Char) : Json × After :=
  match readWord letters text with
  | .ok rest => (value, .ok rest)
  | .error fault => (.malformed first fault, .error fault)

/-- A reader of values. -/
abbrev ValueReader := List Char → Json × After

/-- Read the items of an array, of which `bound` is at least the number; the text starts at an item. -/
def readItems (value : ValueReader) (bound : Nat) (text : List Char) :
    List Json × After :=
  match bound with
  | 0 => ([], .error .endInList)
  | bound + 1 =>
    match value text with
    | (item, .error fault) => ([item], .error fault)
    | (item, .ok rest) =>
      match skipSpaces rest with
      | [] => ([item], .error .endInList)
      | ']' :: rest => ([item], .ok rest)
      | ',' :: rest =>
        match skipSpaces rest with
        | [] => ([item], .error .endInValue)
        | ']' :: _ => ([item], .error .trailingComma)
        | rest =>
          let (items, after) := readItems value bound rest
          (item :: items, after)
      | _ => ([item], .error .expectedListEnd)

/-- Read an array after its opening bracket. -/
def readArray (value : ValueReader) (text : List Char) : List Json × After :=
  match skipSpaces text with
  | [] => ([], .error .endInList)
  | ']' :: rest => ([], .ok rest)
  | rest => readItems value rest.length rest

/-- Read the value of a member after its key. -/
def readMember (value : ValueReader) (text : List Char) : Json × After :=
  match skipSpaces text with
  | [] => (.malformed none .endInObject, .error .endInObject)
  | ':' :: rest => value (skipSpaces rest)
  | c :: _ => (.malformed c .expectedColon, .error .expectedColon)

/-- Read the members of an object, of which `bound` is at least the number; the text starts at a
key. -/
def readMembers (value : ValueReader) (bound : Nat) (text : List Char) :
    List (String × Json) × After :=
  match bound, text with
  | bound + 1, '"' :: rest =>
    match readString [] rest.length rest with
    | .error fault => ([], .error fault)
    | .ok (key, rest) =>
      match readMember value rest with
      | (item, .error fault) => ([(key, item)], .error fault)
      | (item, .ok rest) =>
        match skipSpaces rest with
        | [] => ([(key, item)], .error .endInObject)
        | '\x7d' :: rest => ([(key, item)], .ok rest)
        | ',' :: rest =>
          match skipSpaces rest with
          | [] => ([(key, item)], .error .endInValue)
          | '\x7d' :: _ => ([(key, item)], .error .trailingComma)
          | rest =>
            let (members, after) := readMembers value bound rest
            ((key, item) :: members, after)
        | _ => ([(key, item)], .error .expectedObjectEnd)
  | _, _ => ([], .error .keyNotString)

/-- Read an object after its opening brace. -/
def readObject (value : ValueReader) (text : List Char) : List (String × Json) × After :=
  match skipSpaces text with
  | [] => ([], .error .endInObject)
  | '\x7d' :: rest => ([], .ok rest)
  | rest => readMembers value rest.length rest

/-- The fault at which a reading stopped, if it did. -/
def faultOf? : After → Option JsonFault
  | .ok _ => none
  | .error fault => some fault

/-- Read a value at whose start the text stands; `inner` reads the values inside it. -/
def readValue (inner : ValueReader) (text : List Char) : Json × After :=
  match text with
  | [] => (.malformed none .endInValue, .error .endInValue)
  | 'n' :: rest => wordValue .null 'n' ['u', 'l', 'l'] rest
  | 't' :: rest => wordValue (.boolean true) 't' ['r', 'u', 'e'] rest
  | 'f' :: rest => wordValue (.boolean false) 'f' ['a', 'l', 's', 'e'] rest
  | '"' :: rest =>
    match readString [] rest.length rest with
    | .ok (s, rest) => (.string s, .ok rest)
    | .error fault => (.malformed '"' fault, .error fault)
  | '[' :: rest =>
    let (items, after) := readArray inner rest
    (.array items (faultOf? after), after)
  | '\x7b' :: rest =>
    let (members, after) := readObject inner rest
    (.object members (faultOf? after), after)
  | c :: rest =>
    if c = '-' ∨ c.isDigit then
      match readNumber (c :: rest) with
      | .ok (n, rest) => (.number n, .ok rest)
      | .error fault => (.malformed c fault, .error fault)
    else (.malformed c .expectedValue, .error .expectedValue)

/-- Read a value that lies in no more than `depth` others. -/
def readNested : Nat → ValueReader
  | 0 => fun text => (.malformed text.head? .tooDeep, .error .tooDeep)
  | depth + 1 => readValue (readNested depth)

/-- How many values may lie in one another. -/
def maxDepth : Nat := 128

/-- The value of a text, with the spaces around it skipped, and the text after it. -/
def ofText (text : String) : Json × After :=
  let (value, after) := readNested maxDepth (skipSpaces text.toList)
  (value, after.map skipSpaces)

end GraphqlClient.Json
