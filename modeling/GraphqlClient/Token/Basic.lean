import GraphqlClient.Number.Binary64

/-!
# Tokens

Positions in a text, the tokens of the query and schema language, and lexemes: tokens with the
positions where they start. The end of a text and a place that starts no token are tokens too, so
that a reader always has something to look at.
-/

namespace GraphqlClient

/-- A place in a text; lines and columns count from one. -/
structure Position where
  line : Nat
  column : Nat
  deriving DecidableEq, Repr, Inhabited

namespace Position

/-- The first place of a text. -/
def start : Position := ⟨1, 1⟩

/-- The place `n` columns further right. -/
def right (p : Position) (n : Nat) : Position := ⟨p.line, p.column + n⟩

/-- The first place of the next line. -/
def nextLine (p : Position) : Position := ⟨p.line + 1, 1⟩

/-- The text `line:column`. -/
def text (p : Position) : String := toString p.line ++ ":" ++ toString p.column

/-- The place after some characters, of which only newlines end lines. -/
def after (p : Position) : List Char → Position
  | [] => p
  | c :: cs => (if c = '\n' then p.nextLine else p.right 1).after cs

end Position

/-- A token; string tokens carry their values and not their spellings. -/
inductive Token where
  | mark (c : Char)
  | spread
  | name (text : String)
  | int (value : Int)
  | float (value : Binary64)
  | string (value : String)
  | finish
  | invalid
  deriving DecidableEq, Repr, Inhabited

/-- A token and the place where it starts. -/
structure Lexeme where
  token : Token
  position : Position
  deriving DecidableEq, Repr, Inhabited

end GraphqlClient
