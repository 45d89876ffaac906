import GraphqlClient.Token.Number
import GraphqlClient.Token.Quoted

/-!
# Lexing

A text becomes the list of its lexemes and a last one, the end of the text or the first place that
starts no token. Byte order marks, carriage returns, blanks, commas and comments separate tokens.
-/

namespace GraphqlClient

mutual

/-- Skip what separates tokens. -/
def skipSeparators (p : Position) : List Char → Position × List Char
  | [] => (p, [])
  | c :: cs =>
    if c = '\uFEFF' ∨ c = '\r' then skipSeparators p cs
    else if c = '\t' then skipSeparators (p.right 8) cs
    else if c = '\n' then skipSeparators p.nextLine cs
    else if c = ' ' ∨ c = ',' then skipSeparators (p.right 1) cs
    else if c = '#' then skipComment p cs
    else (p, c :: cs)

/-- Skip a comment that starts at `p`: a line end closes it and counts as a newline. -/
def skipComment (p : Position) : List Char → Position × List Char
  | [] => (p, [])
  | c :: cs => if c = '\r' ∨ c = '\n' then skipSeparators p.nextLine cs else skipComment p cs

end

/-- Whether a character starts a name. -/
def isNameStart (c : Char) : Bool := c = '_' || c.isAlpha

/-- Whether a character continues a name. -/
def isNameRest (c : Char) : Bool := c = '_' || c.isAlphanum

/-- Whether a character is a token of its own. -/
def isMark (c : Char) : Bool := "()[]{}!$:=@|&".toList.contains c

/-- Whether a character ends a number. -/
def endsNumber (c : Char) : Bool := isMark c || " \n\r\t,#".toList.contains c

/-- A token that was read: its value, the characters it covers, and the text after it. -/
structure Scanned where
  token : Token
  covered : List Char
  rest : List Char

/-- Read the token at the start of a text. -/
def scan? : List Char → Option Scanned
  | '.' :: '.' :: '.' :: rest => some ⟨.spread, ['.', '.', '.'], rest⟩
  | '"' :: '"' :: '"' :: cs =>
    (Token.tripleBody false cs).map fun (body, rest) =>
      ⟨.string (String.ofList (Token.blockValue body)),
        '"' :: '"' :: '"' :: (body ++ ['"', '"', '"']), rest⟩
  | '"' :: cs => do
    let (body, rest) ← Token.quotedBody false cs
    let value ← Token.unescape? body
    return ⟨.string (String.ofList value), '"' :: (body ++ ['"']), rest⟩
  | c :: cs =>
    if isMark c then some ⟨.mark c, [c], cs⟩
    else if isNameStart c then
      let name := c :: cs.takeWhile isNameRest
      some ⟨.name (String.ofList name), name, cs.dropWhile isNameRest⟩
    else if c = '-' ∨ c.isDigit then
      let text := c :: cs.takeWhile (!endsNumber ·)
      (Token.ofNumber? text).map (⟨·, text, cs.dropWhile (!endsNumber ·)⟩)
    else none
  | [] => none

/-- The text up to the closing quote is part of the text. -/
theorem quotedBody_eq_some {escaped : Bool} {text body rest : List Char}
    (h : Token.quotedBody escaped text = some (body, rest)) : text = body ++ '"' :: rest := by
  fun_induction Token.quotedBody escaped text generalizing body rest with
  | case1 => simp at h
  | case2 escaped c cs hc => simp_all
  | case3 => simp at h
  | case4 escaped c cs _ _ b r hq ih =>
    simp only [Option.some.injEq, Prod.mk.injEq] at h
    rw [← h.1, ← h.2, ih hq]
    rfl
  | case5 => simp at h

/-- The text up to the closing triple quote is part of the text. -/
theorem tripleBody_eq_some {after : Bool} {text body rest : List Char}
    (h : Token.tripleBody after text = some (body, rest)) :
    text = body ++ '"' :: '"' :: '"' :: rest := by
  fun_induction Token.tripleBody after text generalizing body rest with
  | case1 rest' ih =>
    obtain ⟨⟨b, r⟩, hb, he⟩ := Option.map_eq_some_iff.1 h
    simp only [Prod.mk.injEq] at he
    rw [← he.1, ← he.2, ih hb]
    rfl
  | case2 => simp_all
  | case3 after c rest' _ ih =>
    obtain ⟨⟨b, r⟩, hb, he⟩ := Option.map_eq_some_iff.1 h
    simp only [Prod.mk.injEq] at he
    rw [← he.1, ← he.2, ih hb]
    rfl
  | case4 => simp at h

/-- A token covers some characters at the start of the text, and the rest follows them. -/
theorem scan?_eq_some {text : List Char} {s : Scanned} (h : scan? text = some s) :
    text = s.covered ++ s.rest ∧ s.covered ≠ [] := by
  unfold scan? at h
  split at h
  · simp only [Option.some.injEq] at h
    subst h
    simp
  · simp only [Option.map_eq_some_iff, Prod.exists] at h
    obtain ⟨body, rest, hb, rfl⟩ := h
    simp [tripleBody_eq_some hb]
  · simp only [Option.bind_eq_bind, Option.bind_eq_some_iff, Option.pure_def, Prod.exists,
      Option.some.injEq] at h
    obtain ⟨body, rest, hb, _, _, rfl⟩ := h
    simp [quotedBody_eq_some hb]
  · split at h
    · simp only [Option.some.injEq] at h
      subst h
      simp
    · split at h
      · simp only [Option.some.injEq] at h
        subst h
        simp
      · split at h
        · simp only [Option.map_eq_some_iff] at h
          obtain ⟨_, _, rfl⟩ := h
          simp
        · simp at h
  · simp at h

/-- What is left after a token is shorter. -/
theorem scan?_shorter {text : List Char} {s : Scanned} (h : scan? text = some s) :
    s.rest.length < text.length := by
  obtain ⟨he, hn⟩ := scan?_eq_some h
  rw [he, List.length_append]
  have := List.length_pos_iff.2 hn
  omega

mutual

/-- Skipping separators never makes the text longer. -/
theorem skipSeparators_length (p : Position) (text : List Char) :
    (skipSeparators p text).2.length ≤ text.length := by
  cases text with
  | nil => simp [skipSeparators]
  | cons c cs =>
    simp only [skipSeparators, List.length_cons]
    repeat' split
    all_goals first
      | exact Nat.le_succ_of_le (skipSeparators_length _ cs)
      | exact Nat.le_succ_of_le (skipComment_length _ cs)
      | simp

/-- Skipping a comment never makes the text longer. -/
theorem skipComment_length (p : Position) (text : List Char) :
    (skipComment p text).2.length ≤ text.length := by
  cases text with
  | nil => simp [skipComment]
  | cons c cs =>
    simp only [skipComment, List.length_cons]
    split
    · exact Nat.le_succ_of_le (skipSeparators_length _ cs)
    · exact Nat.le_succ_of_le (skipComment_length _ cs)

end

/-- The lexemes of a text, and the one at which they stop. -/
structure Lexemes where
  ahead : List Lexeme
  stop : Lexeme

/-- The lexemes of a text that starts at `p`. -/
def Lexemes.scan (p : Position) (text : List Char) : Lexemes :=
  let start := (skipSeparators p text).1
  match (skipSeparators p text).2, skipSeparators_length p text with
  | [], _ => ⟨[], ⟨.finish, start⟩⟩
  | c :: cs, _shorter =>
    match _read : scan? (c :: cs) with
    | none => ⟨[], ⟨.invalid, start⟩⟩
    | some s =>
      let others := Lexemes.scan (start.after s.covered) s.rest
      ⟨⟨s.token, start⟩ :: others.ahead, others.stop⟩
termination_by text.length
decreasing_by
  have := scan?_shorter _read
  simp only [List.length_cons] at this _shorter
  omega

/-- The lexemes of a whole text. -/
def Lexemes.ofText (text : String) : Lexemes :=
  Lexemes.scan .start text.toList

end GraphqlClient
