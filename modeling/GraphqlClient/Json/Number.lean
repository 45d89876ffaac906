import GraphqlClient.Json.Basic

/-!
# Numbers in JSON texts

A number is read as a significand of at most 64 bits and a power of ten. Digits that the
significand has no room for are dropped from a fraction and counted in an integer; a float is the
rounded significand, multiplied or divided by rounded powers of ten.
-/

namespace GraphqlClient.Json

/-- The significand has room for a digit if it stays below this bound. -/
def significandBound : Nat := 0x10000000000000000

/-- Exponents have room for a digit up to this bound. -/
def exponentBound : Nat := 0x80000000

/-- A result of reading a number: the number and the text after it. -/
abbrev NumberRead := Except JsonFault (JsonNumber × List Char)

/-- The rounded powers of ten, up to the largest that is finite. -/
def powerOfTen (exponent : Nat) : Binary64 := .ofDecimal false 1 exponent

/-- Divide by the largest power of ten until the exponent is in reach, and then by the rest. -/
def scaleDown (value : Binary64) (exponent : Nat) : Binary64 :=
  if h : exponent ≤ 308 then value.divMagnitude (powerOfTen exponent)
  else if value = .zero false then value
  else scaleDown (value.divMagnitude (powerOfTen 308)) (exponent - 308)
termination_by exponent

/-- The float of a significand and a power of ten, unless it is too large. -/
def floatOf (negative : Bool) (significand : Nat) (exponent : Int) : Except JsonFault JsonNumber :=
  let value := Binary64.ofDecimal false significand 0
  let scaled : Option Binary64 :=
    if exponent < 0 then some (scaleDown value exponent.natAbs)
    else if exponent ≤ 308 then
      match value.mulMagnitude (powerOfTen exponent.toNat) with
      | .infinite _ => none
      | product => some product
    else if significand = 0 then some value
    else none
  match scaled with
  | some value => .ok (.float (value.withSign negative))
  | none => .error .numberOutOfRange

/-- The value of a digit. -/
def digit (c : Char) : Nat := c.toNat - '0'.toNat

/-- The exponent's digits after the first, or nothing if they exceed the bound; and the text after
the digits that were read. -/
def exponentDigits (value : Nat) : List Char → Option Nat × List Char
  | [] => (some value, [])
  | c :: cs =>
    if c.isDigit then
      if 10 * value + digit c < exponentBound then exponentDigits (10 * value + digit c) cs
      else (none, cs.dropWhile Char.isDigit)
    else (some value, c :: cs)

/-- Read an exponent after its mark. -/
def readExponent (negative : Bool) (significand : Nat) (exponent : Int) (text : List Char) :
    NumberRead :=
  let (down, digits) := match text with
    | '+' :: rest => (false, rest)
    | '-' :: rest => (true, rest)
    | rest => (false, rest)
  match digits with
  | [] => .error .endInValue
  | c :: cs =>
    if !c.isDigit then .error .invalidNumber
    else match exponentDigits (digit c) cs with
      | (some value, rest) =>
        (floatOf negative significand (if down then exponent - value else exponent + value)).map
          (·, rest)
      | (none, rest) =>
        if significand ≠ 0 ∧ !down then .error .numberOutOfRange
        else .ok (.float (.zero negative), rest)

/-- Finish a float after its digits. -/
def finishFloat (negative : Bool) (significand : Nat) (exponent : Int) (text : List Char) :
    NumberRead :=
  match text with
  | 'e' :: rest => readExponent negative significand exponent rest
  | 'E' :: rest => readExponent negative significand exponent rest
  | rest => (floatOf negative significand exponent).map (·, rest)

/-- Read the digits of a fraction; `exponent` counts those that were read. -/
def readFraction (negative : Bool) (significand : Nat) (exponent : Int) : List Char → NumberRead
  | [] => finishFloat negative significand exponent []
  | c :: cs =>
    if c.isDigit then
      if 10 * significand + digit c < significandBound then
        readFraction negative (10 * significand + digit c) (exponent - 1) cs
      else finishFloat negative significand exponent (cs.dropWhile Char.isDigit)
    else finishFloat negative significand exponent (c :: cs)

/-- Read a fraction after its point: at least one digit. -/
def readPoint (negative : Bool) (significand : Nat) (exponent : Int) : List Char → NumberRead
  | [] => .error .endInValue
  | c :: cs =>
    if c.isDigit then readFraction negative significand exponent (c :: cs)
    else .error .invalidNumber

/-- The number that a significand without fraction and exponent is. -/
def integerOf (negative : Bool) (significand : Nat) : JsonNumber :=
  if !negative then .integer significand
  else if 0 < significand ∧ significand ≤ 0x8000000000000000 then .integer (-(significand : Int))
  else .float ((Binary64.ofDecimal false significand 0).withSign true)

/-- Finish a number after the digits of its integer part. -/
def finishInteger (negative : Bool) (significand : Nat) : List Char → NumberRead
  | '.' :: rest => readPoint negative significand 0 rest
  | 'e' :: rest => readExponent negative significand 0 rest
  | 'E' :: rest => readExponent negative significand 0 rest
  | rest => .ok (integerOf negative significand, rest)

/-- Count the digits of an integer part that the significand has no room for. -/
def readLong (negative : Bool) (significand : Nat) (exponent : Int) : List Char → NumberRead
  | [] => finishFloat negative significand exponent []
  | c :: cs =>
    if c.isDigit then readLong negative significand (exponent + 1) cs
    else if c = '.' then readPoint negative significand exponent cs
    else finishFloat negative significand exponent (c :: cs)

/-- Read the digits of an integer part after the first. -/
def readDigits (negative : Bool) (significand : Nat) : List Char → NumberRead
  | [] => finishInteger negative significand []
  | c :: cs =>
    if c.isDigit then
      if 10 * significand + digit c < significandBound then
        readDigits negative (10 * significand + digit c) cs
      else readLong negative significand 0 (c :: cs)
    else finishInteger negative significand (c :: cs)

/-- Read a number after its sign. -/
def readUnsigned (negative : Bool) : List Char → NumberRead
  | [] => .error .endInValue
  | '0' :: rest =>
    if rest.head?.any Char.isDigit then .error .invalidNumber else finishInteger negative 0 rest
  | c :: cs => if c.isDigit then readDigits negative (digit c) cs else .error .invalidNumber

/-- Read a number. -/
def readNumber : List Char → NumberRead
  | '-' :: rest => readUnsigned true rest
  | text => readUnsigned false text

end GraphqlClient.Json
