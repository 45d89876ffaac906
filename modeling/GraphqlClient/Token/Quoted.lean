import GraphqlClient.Text.Blank
import GraphqlClient.Text.Lines
import GraphqlClient.Text.Utf8

/-!
# String tokens

The two spellings of strings: on one line between quotes, with escapes, and between triple quotes,
where the common indentation and the blank rows at both ends do not count.
-/

namespace GraphqlClient.Token

/-- The spelling up to the closing quote, and the text after it; a newline or the end fails. -/
def quotedBody (escaped : Bool) : List Char → Option (List Char × List Char)
  | [] => none
  | c :: cs =>
    if c = '"' ∧ !escaped then some ([], cs)
    else if c = '\n' then none
    else
      match quotedBody (!escaped && c = '\\') cs with
      | some (body, rest) => some (c :: body, rest)
      | none => none

/-- The value of a hexadecimal digit. -/
def hexDigit? (c : Char) : Option Nat :=
  if '0' ≤ c ∧ c ≤ '9' then some (c.toNat - '0'.toNat)
  else if 'a' ≤ c ∧ c ≤ 'f' then some (c.toNat - 'a'.toNat + 10)
  else if 'A' ≤ c ∧ c ≤ 'F' then some (c.toNat - 'A'.toNat + 10)
  else none

/-- The value of a run of hexadecimal digits. -/
def hexValue? (digits : List Char) : Option Nat :=
  digits.foldlM (fun value c => (hexDigit? c).map (16 * value + ·)) 0

/-- The character that four characters after a backslash and `u` denote; a plus may stand first. -/
def codePoint? (four : List Char) : Option Char :=
  match (match four with | '+' :: digits => hexValue? digits | digits => hexValue? digits) with
  | some n => if n.isValidChar then some (Char.ofNat n) else none
  | none => none

/-- The character that a letter after a backslash stands for. -/
def escape? : Char → Option Char
  | '"' => some '"'
  | '\\' => some '\\'
  | '/' => some '/'
  | 'b' => some '\x10'
  | 'f' => some '\x0c'
  | 'n' => some '\n'
  | 'r' => some '\r'
  | 't' => some '\t'
  | _ => none

/-- The value of a string's spelling. -/
def unescape? : List Char → Option (List Char)
  | [] => some []
  | '\\' :: 'u' :: a :: b :: c :: d :: rest => do
    let first ← codePoint? [a, b, c, d]
    let others ← unescape? rest
    return first :: others
  | '\\' :: letter :: rest => do
    let first ← escape? letter
    let others ← unescape? rest
    return first :: others
  | '\\' :: [] => none
  | c :: rest => (unescape? rest).map (c :: ·)

/-- The spelling up to the closing triple quote, and the text after it. A triple quote right after a
backslash is part of the spelling; the search goes on behind it. -/
def tripleBody (afterBackslash : Bool) : List Char → Option (List Char × List Char)
  | '"' :: '"' :: '"' :: rest =>
    if afterBackslash then
      (tripleBody false rest).map fun (body, rest) => ('"' :: '"' :: '"' :: body, rest)
    else some ([], rest)
  | c :: rest => (tripleBody (c = '\\') rest).map fun (body, rest) => (c :: body, rest)
  | [] => none

/-- Drop characters until a number of bytes is gone. -/
def dropBytes : Nat → List Char → List Char
  | 0, text => text
  | _, [] => []
  | n + 1, c :: cs => dropBytes (n + 1 - c.utf8Size) cs

/-- The bytes of indentation of a row that is not blank. -/
def indentation? (row : List Char) : Option Nat :=
  if row.all Text.isBlank then none else some (Text.Utf8.byteLength (row.takeWhile Text.isBlank))

/-- The least of some numbers. -/
def least? : List Nat → Option Nat
  | [] => none
  | n :: ns => some (ns.foldl min n)

/-- Drop the common indentation of a row that is long enough. -/
def outdentRow (indent : Option Nat) (row : List Char) : List Char :=
  match indent with
  | none => row
  | some indent => if indent ≤ Text.Utf8.byteLength row then dropBytes indent row else row

/-- Drop the blank rows at both ends. -/
def trimRows (rows : List (List Char)) : List (List Char) :=
  let blank (row : List Char) : Bool := row.all Text.isBlank
  ((rows.dropWhile blank).reverse.dropWhile blank).reverse

/-- Give up the backslash before each triple quote. -/
def unescapeTriple : List Char → List Char
  | '\\' :: '"' :: '"' :: '"' :: rest => '"' :: '"' :: '"' :: unescapeTriple rest
  | c :: rest => c :: unescapeTriple rest
  | [] => []

/-- The value of the spelling between triple quotes. -/
def blockValue (body : List Char) : List Char :=
  match Text.rows body with
  | [] => []
  | first :: others =>
    if (first :: others).all (·.all Text.isBlank) then []
    else
      let indent := least? (others.filterMap indentation?)
      ['\n'].intercalate ((trimRows (first :: others.map (outdentRow indent))).map unescapeTriple)

end GraphqlClient.Token
