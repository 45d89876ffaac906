import GraphqlClient.Text.Lines

/-!
# Words of a name

A name is cut into words at characters that are no ASCII letters or digits, before a capital after
a small letter or digit, and before the last capital of a run that a small letter follows.
-/

namespace GraphqlClient.Naming

/-- Whether a word starts between two adjacent letters or digits; `next` follows them. -/
def startsWord (previous c : Char) (next : Option Char) : Bool :=
  c.isUpper && (previous.isLower || previous.isDigit || (previous.isUpper && next.any Char.isLower))

/-- A word, if it has characters. -/
def closeWord (current : List Char) : List (List Char) :=
  if current.isEmpty then [] else [current.reverse]

/-- The words of a text after the characters `current`, last first, of an open word. -/
def wordsFrom (current : List Char) : List Char → List (List Char)
  | [] => closeWord current
  | c :: cs =>
    if c.isAlphanum then
      match current with
      | [] => wordsFrom [c] cs
      | previous :: _ =>
        if startsWord previous c cs.head? then closeWord current ++ wordsFrom [c] cs
        else wordsFrom (c :: current) cs
    else closeWord current ++ wordsFrom [] cs

/-- The words of a text. -/
def words (text : List Char) : List (List Char) := wordsFrom [] text

/-- A word with a capital first letter and small others. -/
def capitalize : List Char → List Char
  | [] => []
  | c :: cs => c.toUpper :: cs.map Char.toLower

/-- A word after the first: an underscore keeps a first digit apart. -/
def joinWord (word : List Char) : List Char :=
  if word.head?.any Char.isDigit then '_' :: capitalize word else capitalize word

/-- The words of a text, capitalized and run together. -/
def pascalCase (text : List Char) : List Char :=
  match words text with
  | [] => []
  | first :: others => capitalize first ++ others.flatMap joinWord

/-- The parts between underscores in Pascal case, with the underscores kept. -/
def pascalParts (text : List Char) : List Char :=
  ['_'].intercalate ((Text.splitOn '_' text).map pascalCase)

/-- Words are not empty. -/
theorem ne_nil_of_mem_wordsFrom {current text word : List Char} (h : word ∈ wordsFrom current text) :
    word ≠ [] := by
  have close : ∀ {w : List Char}, word ∈ closeWord w → word ≠ [] := by
    intro w hw
    simp only [closeWord, List.isEmpty_iff] at hw
    split at hw
    · simp at hw
    · simp_all
  fun_induction wordsFrom current text with
  | case1 => exact close h
  | case2 _ _ _ ih => exact ih h
  | case3 _ _ _ _ _ _ ih => exact (List.mem_append.1 h).elim close ih
  | case4 _ _ _ _ _ _ ih => exact ih h
  | case5 _ _ _ _ ih => exact (List.mem_append.1 h).elim close ih

end GraphqlClient.Naming
