import GraphqlClient.Token.Lexer

/-!
# Readers of lexemes

A reader looks at the lexemes ahead, takes some, and gives a value or fails at the lexeme where it
cannot go on. Repetition is bounded by the number of lexemes ahead, since every item takes one.
-/

namespace GraphqlClient

/-- A step through lexemes that gives a value or the position of a failure. -/
abbrev Reader := StateT Lexemes (Except Position)

namespace Reader

/-- The next lexeme, which stays. -/
def next : Reader Lexeme := do
  let lexemes ← get
  return lexemes.ahead.headD lexemes.stop

/-- The next token, which stays. -/
def peek : Reader Token := do
  return (← next).token

/-- Fail at the next lexeme. -/
def fail {α : Type} : Reader α := do
  throw (← next).position

/-- Take the next lexeme. -/
def take : Reader Unit :=
  modify fun lexemes => { lexemes with ahead := lexemes.ahead.tail }

/-- How many lexemes are ahead. -/
def remaining : Reader Nat := do
  return (← get).ahead.length

/-- Take one given token. -/
def token (expected : Token) : Reader Unit := do
  if (← peek) = expected then take else fail

/-- Take a mark. -/
def mark (c : Char) : Reader Unit := token (.mark c)

/-- Take a given token if it is next, and tell whether it was. -/
def token? (expected : Token) : Reader Bool := do
  if (← peek) = expected then
    take
    return true
  else
    return false

/-- Take a mark if it is next, and tell whether it was. -/
def mark? (c : Char) : Reader Bool := token? (.mark c)

/-- Take a name. -/
def name : Reader String := do
  match ← peek with
  | .name text =>
    take
    return text
  | _ => fail

/-- Read items up to a given token, which stays; `bound` is the number of lexemes ahead. -/
def itemsBefore {α : Type} (close : Token) (item : Reader α) (bound : Nat) : Reader (List α) := do
  if (← peek) = close then return []
  else match bound with
    | 0 => fail
    | bound + 1 =>
      let first ← item
      let others ← itemsBefore close item bound
      return first :: others

/-- Read items up to a mark, and the mark. -/
def closedBy {α : Type} (close : Char) (item : Reader α) : Reader (List α) := do
  let items ← itemsBefore (.mark close) item (← remaining)
  mark close
  return items

/-- Read one item or more up to a mark, and the mark. -/
def someClosedBy {α : Type} (close : Char) (item : Reader α) : Reader (List α) := do
  let first ← item
  let others ← closedBy close item
  return first :: others

/-- Read items as long as a mark stands before each; `bound` is the number of lexemes ahead. -/
def eachAfter {α : Type} (lead : Char) (item : Reader α) (bound : Nat) : Reader (List α) := do
  match bound with
  | 0 => return []
  | bound + 1 =>
    if ← mark? lead then
      let first ← item
      let others ← eachAfter lead item bound
      return first :: others
    else
      return []

/-- Read one item or more up to the end of the text. -/
def untilFinish {α : Type} (item : Reader α) : Reader (List α) := do
  let first ← item
  let others ← itemsBefore .finish item (← remaining)
  return first :: others

/-- What a reader makes of a text, or the position at which it fails. -/
def ofText {α : Type} (reader : Reader α) (text : String) : Except Position α :=
  (reader.run (Lexemes.ofText text)).map Prod.fst

end Reader

end GraphqlClient
