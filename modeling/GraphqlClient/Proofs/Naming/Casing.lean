import Mathlib
import GraphqlClient.Proofs.Naming.Characters
import GraphqlClient.Proofs.Text.Lines

/-!
# Case of converted names

The words of a text run through its letters and digits, and a word starts inside a run of them only
at a capital. So Pascal case changes the case of letters and the place of underscores, and of names
whose underscores are kept apart it changes the case alone.
-/

namespace GraphqlClient.Naming

/-- A closed word runs through the characters of the open one. -/
theorem flatten_closeWord (current : List Char) : (closeWord current).flatten = current.reverse := by
  cases current <;> simp [closeWord]

/-- Words run through the letters and digits of a text, after those of the open word. -/
theorem flatten_wordsFrom (current text : List Char) :
    (wordsFrom current text).flatten = current.reverse ++ text.filter Char.isAlphanum := by
  fun_induction wordsFrom current text with
  | case1 current => rw [flatten_closeWord, List.filter_nil, List.append_nil]
  | case2 c cs hc ih => rw [ih, List.filter_cons_of_pos hc, List.reverse_singleton]; rfl
  | case3 c cs hc previous current _ ih =>
    rw [List.flatten_append, flatten_closeWord, ih, List.filter_cons_of_pos hc]
    rfl
  | case4 c cs hc previous current _ ih =>
    rw [ih, List.filter_cons_of_pos hc, List.reverse_cons, List.append_assoc]
    rfl
  | case5 current c cs hc ih =>
    rw [List.flatten_append, flatten_closeWord, ih, List.filter_cons_of_neg hc]
    rfl

/-- An open word is the start of the first word, and among letters and digits all words after it
start with a capital. -/
theorem exists_wordsFrom_eq_cons {current : List Char} (hcurrent : current ≠ [])
    (text : List Char) :
    ∃ rest others, wordsFrom current text = (current.reverse ++ rest) :: others ∧
      ((∀ c ∈ text, c.isAlphanum = true) →
        ∀ word ∈ others, ∃ c cs, word = c :: cs ∧ c.isUpper = true) := by
  fun_induction wordsFrom current text with
  | case1 current => exact ⟨[], [], by simp [closeWord, hcurrent], by simp⟩
  | case2 c cs hc ih => exact absurd rfl hcurrent
  | case3 c cs hc previous current hstarts ih =>
    obtain ⟨rest, others, heq, hothers⟩ := ih (by simp)
    refine ⟨[], ([c] ++ rest) :: others, by rw [heq]; simp [closeWord], fun htext => ?_⟩
    exact List.forall_mem_cons.mpr ⟨⟨c, rest, rfl, (Bool.and_eq_true_iff.mp hstarts).1⟩,
      hothers (List.forall_mem_cons.mp htext).2⟩
  | case4 c cs hc previous current _ ih =>
    obtain ⟨rest, others, heq, hothers⟩ := ih (by simp)
    exact ⟨c :: rest, others, by rw [heq]; simp,
      fun htext => hothers (List.forall_mem_cons.mp htext).2⟩
  | case5 current c cs hc _ =>
    exact ⟨[], wordsFrom [] cs, by simp [closeWord, hcurrent],
      fun htext => absurd (htext c List.mem_cons_self) hc⟩

/-- Capitalizing changes the case alone. -/
theorem map_toLower_capitalize (word : List Char) :
    (capitalize word).map Char.toLower = word.map Char.toLower := by
  cases word with
  | nil => rfl
  | cons c cs => simp [capitalize, Function.comp_def]

/-- A capital is no digit. -/
theorem isDigit_eq_false_of_isUpper {c : Char} (h : c.isUpper = true) : c.isDigit = false :=
  forall_isAlphanum (P := fun c => c.isUpper = true → c.isDigit = false) (by decide)
    (by simp [Char.isAlphanum, Char.isAlpha, h]) h

/-- A small letter is no digit. -/
theorem isDigit_eq_false_of_isLower {c : Char} (h : c.isLower = true) : c.isDigit = false :=
  forall_isAlphanum (P := fun c => c.isLower = true → c.isDigit = false) (by decide)
    (by simp [Char.isAlphanum, Char.isAlpha, h]) h

/-- A word that does not start with a digit is joined without an underscore. -/
theorem joinWord_eq_capitalize {word : List Char} (h : ∀ c ∈ word.head?, c.isDigit = false) :
    joinWord word = capitalize word := by
  rw [joinWord, if_neg]
  intro hany
  obtain ⟨d, hd, hdigit⟩ := (Option.any_eq_true _ _).mp hany
  exact Bool.false_ne_true ((h d hd).symm.trans hdigit)

/-- Pascal case runs capitalized words together, if none after the first starts with a digit. -/
theorem pascalCase_eq_flatMap {text : List Char}
    (h : ∀ word ∈ (words text).tail, ∀ c ∈ word.head?, c.isDigit = false) :
    pascalCase text = (words text).flatMap capitalize := by
  rw [pascalCase]
  split
  · next hwords => rw [hwords]; rfl
  · next first others hwords =>
    rw [hwords] at h
    rw [hwords, List.flatMap_cons]
    exact congrArg _ (List.flatMap_congr fun word hword => joinWord_eq_capitalize (h word hword))

/-- Pascal case changes the case alone of a text of letters and digits. -/
theorem map_toLower_pascalCase {text : List Char} (h : ∀ c ∈ text, c.isAlphanum = true) :
    (pascalCase text).map Char.toLower = text.map Char.toLower := by
  cases text with
  | nil => rfl
  | cons c cs =>
    obtain ⟨hc, hcs⟩ := List.forall_mem_cons.mp h
    obtain ⟨rest, others, heq, hothers⟩ := exists_wordsFrom_eq_cons (List.cons_ne_nil c []) cs
    have hwords : words (c :: cs) = ([c].reverse ++ rest) :: others := by
      rw [words, wordsFrom, if_pos hc, heq]
    have hjoin : ∀ word ∈ (words (c :: cs)).tail, ∀ x ∈ word.head?, x.isDigit = false := by
      rw [hwords]
      intro word hword x hx
      obtain ⟨y, ys, rfl, hy⟩ := hothers hcs word hword
      rw [← Option.mem_unique rfl hx]
      exact isDigit_eq_false_of_isUpper hy
    have hflatten : (words (c :: cs)).flatten = c :: cs := by
      rw [words, flatten_wordsFrom, List.filter_eq_self.mpr h]
      rfl
    calc (pascalCase (c :: cs)).map Char.toLower
        = (words (c :: cs)).flatMap fun word => (capitalize word).map Char.toLower := by
          rw [pascalCase_eq_flatMap hjoin, List.map_flatMap]
      _ = (words (c :: cs)).flatMap (List.map Char.toLower) := by
          simp only [map_toLower_capitalize]
      _ = (c :: cs).map Char.toLower := by
          rw [← hflatten, List.map_flatten, List.flatMap_def, hflatten]

/-- Between underscores there are letters and digits of a name. -/
theorem isAlphanum_of_mem_splitOn {text piece : List Char} (h : NameCharacters text)
    (hpiece : piece ∈ Text.splitOn '_' text) : ∀ c ∈ piece, c.isAlphanum = true := by
  intro c hc
  have hne : c ≠ '_' := fun heq => Text.notMem_of_mem_splitOn hpiece (heq ▸ hc)
  simpa [isNameRest, hne] using h c (Text.mem_of_mem_splitOn hpiece hc)

/-- Pascal case between underscores changes the case alone of a name. -/
theorem map_toLower_pascalParts {text : List Char} (h : NameCharacters text) :
    (pascalParts text).map Char.toLower = text.map Char.toLower := by
  have hpieces : (Text.splitOn '_' text).map (fun piece => (pascalCase piece).map Char.toLower) =
      (Text.splitOn '_' text).map (List.map Char.toLower) :=
    List.map_congr_left fun piece hpiece =>
      map_toLower_pascalCase (isAlphanum_of_mem_splitOn h hpiece)
  calc (pascalParts text).map Char.toLower
      = ['_'].intercalate ((Text.splitOn '_' text).map (List.map Char.toLower)) := by
        rw [pascalParts, Text.map_intercalate, List.map_map, ← hpieces]
        rfl
    _ = (['_'].intercalate (Text.splitOn '_' text)).map Char.toLower := by
        rw [Text.map_intercalate]
        rfl
    _ = text.map Char.toLower := by rw [Text.intercalate_splitOn]

/-- A text in lower case and without underscores. -/
def folded (text : List Char) : List Char := (text.map Char.toLower).filter (· ≠ '_')

/-- Texts are folded piece by piece. -/
theorem folded_append (xs ys : List Char) : folded (xs ++ ys) = folded xs ++ folded ys := by
  rw [folded, List.map_append, List.filter_append]
  rfl

/-- A text of name characters may lose its underscores before it is put in lower case. -/
theorem map_toLower_filter {text : List Char} (h : NameCharacters text) :
    (text.filter (· ≠ '_')).map Char.toLower = folded text := by
  rw [folded, List.filter_map]
  refine congrArg (List.map Char.toLower) (List.filter_congr fun c hc => ?_)
  simp [toLower_eq_underscore_iff (h c hc)]

/-- Capitalizing is folded away. -/
theorem folded_capitalize (word : List Char) : folded (capitalize word) = folded word := by
  rw [folded, map_toLower_capitalize]
  rfl

/-- The underscore before a joined word is folded away. -/
theorem folded_joinWord (word : List Char) : folded (joinWord word) = folded word := by
  rw [joinWord]
  split
  · exact folded_capitalize word
  · exact folded_capitalize word

/-- Words that are joined are folded as they follow each other. -/
theorem folded_flatMap_joinWord (words : List (List Char)) :
    folded (words.flatMap joinWord) = folded words.flatten := by
  induction words with
  | nil => rfl
  | cons word words ih =>
    rw [List.flatMap_cons, List.flatten_cons, folded_append, folded_append, folded_joinWord, ih]

/-- Pascal case is folded to the letters and digits of a text. -/
theorem folded_pascalCase (text : List Char) :
    folded (pascalCase text) = folded (text.filter Char.isAlphanum) := by
  have hflatten : (words text).flatten = text.filter Char.isAlphanum := flatten_wordsFrom [] text
  rw [← hflatten, pascalCase]
  split
  · next hwords => rw [hwords]; rfl
  · next first others hwords =>
    rw [hwords, List.flatten_cons, folded_append, folded_append, folded_capitalize,
      folded_flatMap_joinWord]

/-- All that is folded away of a name but its case are the underscores. -/
theorem folded_filter_isAlphanum {text : List Char} (h : NameCharacters text) :
    folded (text.filter Char.isAlphanum) = folded text := by
  rw [folded, folded, List.filter_map, List.filter_map, List.filter_filter]
  refine congrArg _ (List.filter_congr fun c hc => ?_)
  by_cases hunderscore : c = '_'
  · rw [hunderscore]
    decide
  · have halnum : c.isAlphanum = true := by simpa [isNameRest, hunderscore] using h c hc
    rw [halnum, Bool.and_true]

/-- What conversion under some settings keeps of a name. -/
def spelling (s : Settings) (name : String) : List Char :=
  match s.namingConvention with
  | .keep => name.toList
  | .pascalCase => if s.transformUnderscore then folded name.toList else name.toList.map Char.toLower

/-- Conversion keeps the spelling of a name. -/
theorem spelling_convert (s : Settings) {name : String} (h : NameCharacters name.toList) :
    spelling s (convert s name) = spelling s name := by
  rw [spelling, spelling, convert]
  cases s.namingConvention with
  | keep => rfl
  | pascalCase =>
    simp only [String.toList_ofList]
    split
    · rw [folded_pascalCase, folded_filter_isAlphanum h]
    · exact map_toLower_pascalParts h

end GraphqlClient.Naming
