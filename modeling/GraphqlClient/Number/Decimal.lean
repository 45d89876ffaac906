import GraphqlClient.Number.Binary64

/-!
# Shortest decimals

The decimal with the fewest digits that reads back as a given binary number, found on the grids of
one to seventeen digits: the first grid with a point in the rounding interval gives the digits, the
nearest of its two neighbours of the number. Of two equally near a tie rule takes one: `positional`
goes up, `pointed` goes to the even digit.
-/

namespace GraphqlClient

/-- The decimal `digits * 10 ^ exponent`. -/
structure Decimal where
  digits : Nat
  exponent : Int
  deriving DecidableEq, Repr, Inhabited

namespace Decimal

/-- The number of digits of a positive number. -/
def width (n : Nat) : Nat := (Nat.toDigits 10 n).length

/-- The integer `e` with `10 ^ e ≤ num / den < 10 ^ (e + 1)`, for positive arguments. -/
def log10Ratio (num den : Nat) : Int :=
  if den ≤ num then (width (num / den) : Int) - 1
  else -(width ((den - 1) / num) : Int)

/-- Which of two equally near decimals is taken. -/
inductive TieRule where
  | upper
  | even
  deriving DecidableEq, Repr

/-- Whether the lower one of two neighbours is taken, `below` of which are whole steps and
`num / den` of a step is left. -/
def TieRule.takesLower (rule : TieRule) (below num den : Nat) : Bool :=
  2 * num < den || (2 * num = den && rule = .even && below % 2 = 0)

/-- The interval of the reals that round to a number, as numerators over a common denominator. -/
structure Interval where
  low : Nat
  value : Nat
  high : Nat
  den : Nat
  closed : Bool

namespace Interval

/-- The reals that round to `significand * 2 ^ exponent`. -/
def around (significand : Nat) (exponent : Int) : Interval :=
  let scale := Nat.pow 2 (exponent - 2).toNat
  let below := if significand = Binary64.leastNormal ∧ exponent ≠ Binary64.minExponent then 1 else 2
  { low := (4 * significand - below) * scale
    value := 4 * significand * scale
    high := (4 * significand + 2) * scale
    den := Nat.pow 2 (2 - exponent).toNat
    closed := significand % 2 = 0 }

/-- Whether the decimal lies in the interval. -/
def holds (i : Interval) (d : Decimal) : Bool :=
  let point := d.digits * Nat.pow 10 d.exponent.toNat * i.den
  let scale := Nat.pow 10 (-d.exponent).toNat
  if i.closed then i.low * scale ≤ point && point ≤ i.high * scale
  else i.low * scale < point && point < i.high * scale

/-- The point in the interval that is nearest to its value, of the multiples of a power of ten. -/
def nearest? (i : Interval) (ties : TieRule) (exponent : Int) : Option Decimal :=
  let num := i.value * Nat.pow 10 (-exponent).toNat
  let den := i.den * Nat.pow 10 exponent.toNat
  let below : Decimal := ⟨num / den, exponent⟩
  let above : Decimal := ⟨num / den + 1, exponent⟩
  match i.holds below, i.holds above with
  | true, true =>
    some (if ties.takesLower (num / den) (num % den) den then below else above)
  | true, false => some below
  | false, true => some above
  | false, false => none

/-- Try the grids from `exponent` down, at most `count` of them. -/
def firstGrid (i : Interval) (ties : TieRule) (exponent : Int) : Nat → Option Decimal
  | 0 => none
  | count + 1 =>
    match i.nearest? ties exponent with
    | some d => some d
    | none => i.firstGrid ties (exponent - 1) count

end Interval

/-- Give up the zeros at the end of a digit string, last digit first. -/
def dropZeros (exponent : Int) : List Char → List Char × Int
  | '0' :: rest => dropZeros (exponent + 1) rest
  | digits => (digits.reverse, exponent)

/-- A digit string without zeros at its end, and the power of ten that it counts. -/
structure Digits where
  text : List Char
  exponent : Int

/-- The digits of a decimal without zeros at the end. -/
def toDigits (d : Decimal) : Digits :=
  let (text, exponent) := dropZeros d.exponent (Nat.toDigits 10 d.digits).reverse
  ⟨text, exponent⟩

/-- The shortest digits of a positive finite number. -/
def shortest (ties : TieRule) (significand : Nat) (exponent : Int) : Digits :=
  let i := Interval.around significand exponent
  match i.firstGrid ties (log10Ratio i.value i.den) 17 with
  | some d => d.toDigits
  | none => Decimal.toDigits ⟨0, 0⟩

/-- Zeros. -/
def zeros (n : Nat) : List Char := List.replicate n '0'

namespace Digits

/-- How many digits stand before the decimal point. -/
def point (d : Digits) : Int := d.text.length + d.exponent

/-- All digits and the zeros they need, without an exponent. -/
def positional (d : Digits) : List Char :=
  if 0 ≤ d.exponent then d.text ++ zeros d.exponent.toNat
  else if 0 < d.point then
    d.text.take d.point.toNat ++ ['.'] ++ d.text.drop d.point.toNat
  else ['0', '.'] ++ zeros (-d.point).toNat ++ d.text

/-- An exponent, with a sign in any case. -/
def exponentText (exponent : Int) : List Char :=
  (if exponent < 0 then '-' else '+') :: Nat.toDigits 10 exponent.natAbs

/-- One digit, a point before the others if there are any, and the exponent. -/
def scientific (d : Digits) : List Char :=
  d.text.take 1 ++ (if d.text.length ≤ 1 then [] else ['.'] ++ d.text.drop 1) ++ ['e'] ++
    exponentText (d.point - 1)

/-- Positional with a point from five places below to sixteen above it, scientific elsewhere. -/
def pointed (d : Digits) : List Char :=
  if 0 ≤ d.exponent ∧ d.point ≤ 16 then d.positional ++ ['.', '0']
  else if -5 < d.point ∧ d.point ≤ 16 then d.positional
  else d.scientific

end Digits

end Decimal

namespace Binary64

/-- The sign in front of a text. -/
def signed (negative : Bool) (text : List Char) : String :=
  String.ofList (if negative then '-' :: text else text)

/-- The shortest text that reads back, without an exponent; ties go up. -/
def positional : Binary64 → String
  | .infinite negative => signed negative ['i', 'n', 'f']
  | .finite negative significand exponent =>
    if significand = 0 then signed negative ['0']
    else signed negative (Decimal.shortest .upper significand exponent).positional

/-- The shortest text that reads back, with a point or an exponent in it; ties go to even. -/
def pointed : Binary64 → String
  | .infinite negative => signed negative ['i', 'n', 'f']
  | .finite negative significand exponent =>
    if significand = 0 then signed negative ['0', '.', '0']
    else signed negative (Decimal.shortest .even significand exponent).pointed

end Binary64

end GraphqlClient
