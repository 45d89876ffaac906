import GraphqlClient.Token.Basic

/-!
# Number tokens

A number runs up to the next blank or mark. Integers have no leading zeros and fit in 64 bits;
floats have a fraction or an exponent, and an exponent starts with a sign or one of the digits
one to eight.
-/

namespace GraphqlClient.Token

/-- The value of a digit string. -/
def digitsValue (digits : List Char) : Nat :=
  digits.foldl (fun value c => 10 * value + (c.toNat - '0'.toNat)) 0

/-- Whether an unsigned integer has no leading zero and digits only. -/
def isPlainInteger : List Char → Bool
  | [] => false
  | ['0'] => true
  | c :: cs => '1' ≤ c && c ≤ '9' && cs.all Char.isDigit

/-- A sign, and the digits after it. -/
def splitSign : List Char → Bool × List Char
  | '-' :: rest => (true, rest)
  | text => (false, text)

/-- The first natural number that a word of 64 bits with a sign has no room for. -/
def integerBound : Nat := 0x8000000000000000

/-- The value of an integer token of 64 bits with a sign. -/
def integerValue? (text : List Char) : Option Int :=
  let (negative, digits) := splitSign text
  let value : Int := if negative then -(digitsValue digits : Int) else digitsValue digits
  if isPlainInteger digits && -(integerBound : Int) ≤ value && value < integerBound then some value else none

/-- The parts before and after the last character that passes a test, or all and nothing. -/
def splitLast (test : Char → Bool) (text : List Char) : List Char × Option (List Char) :=
  let tail := (text.reverse.takeWhile (!test ·)).reverse
  if tail.length = text.length then (text, none)
  else (text.take (text.length - tail.length - 1), some tail)

/-- The value of an exponent: a sign and digits, or digits of which the first is one to eight. -/
def exponentValue? : List Char → Option Int
  | '+' :: digits => if !digits.isEmpty && digits.all Char.isDigit then some (digitsValue digits) else none
  | '-' :: digits => if !digits.isEmpty && digits.all Char.isDigit then some (-(digitsValue digits : Int)) else none
  | c :: digits =>
    if '1' ≤ c && c ≤ '8' && digits.all Char.isDigit then some (digitsValue (c :: digits)) else none
  | [] => none

/-- Whether a character starts an exponent. -/
def isExponentMark (c : Char) : Bool := c = 'e' || c = 'E'

/-- The value of a float token. -/
def floatValue? (text : List Char) : Option Binary64 := do
  let (mantissa, exponentText) := splitLast isExponentMark text
  let exponent ← match exponentText with
    | none => some 0
    | some digits => exponentValue? digits
  let (whole, fraction) := splitLast (· = '.') mantissa
  let (negative, digits) := splitSign whole
  if !isPlainInteger digits then none
  else match fraction with
    | none => some (Binary64.ofDecimal negative (digitsValue digits) exponent)
    | some fraction =>
      if fraction.isEmpty || !fraction.all Char.isDigit then none
      else
        some (Binary64.ofDecimal negative (digitsValue (digits ++ fraction))
          (exponent - fraction.length))

/-- The token that a number's text spells. -/
def ofNumber? (text : List Char) : Option Token :=
  if text.any fun c => c = '.' || isExponentMark c then (floatValue? text).map .float
  else (integerValue? text).map .int

end GraphqlClient.Token
