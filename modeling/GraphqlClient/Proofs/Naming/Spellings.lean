import GraphqlClient.Proofs.Naming.Identifiers
import GraphqlClient.Proofs.Naming.WordBreaks

/-!
# Spellings of a name

Words in small letters can be run together with capitals at their starts, with or without one at the
very start, or they can be set apart by separators. All these texts have the same words but for
case, and so they are one text in Pascal case.
-/

namespace GraphqlClient.Naming

/-- A small letter or a digit. -/
def isSmall (c : Char) : Bool := c.isLower || c.isDigit

/-- A word as spelled in small letters: one of these first, then small letters or digits. There are
two characters at least. -/
def IsSmallWord (word : List Char) : Prop :=
  ∃ c cs, word = c :: cs ∧ c.isLower = true ∧ cs ≠ [] ∧ ∀ d ∈ cs, isSmall d = true

/-- Words with capital first letters, run together. -/
def pascalSpelling (ws : List (List Char)) : List Char := ws.flatMap (List.modifyHead Char.toUpper)

/-- Words with capital first letters behind one in small letters. -/
def camelSpelling : List (List Char) → List Char
  | [] => []
  | first :: others => first ++ pascalSpelling others

/-- Words with underscores between them. -/
def snakeSpelling (ws : List (List Char)) : List Char := ['_'].intercalate ws

/-- A text has words in a row with separators behind each, which only the last can be without. -/
inductive Separated : List (List Char) → List Char → Prop
  | nil : Separated [] []
  | cons {word gap text : List Char} {others : List (List Char)}
      (hgap : AreSeparators gap) (hne : others ≠ [] → gap ≠ [])
      (h : Separated others text) : Separated (word :: others) (word ++ (gap ++ text))

/-- Underscores separate words. -/
theorem separated_snakeSpelling (ws : List (List Char)) : Separated ws (snakeSpelling ws) := by
  induction ws with
  | nil => exact .nil
  | cons word others ih =>
    cases others with
    | nil =>
      have h : Separated [word] (word ++ ([] ++ [])) := .cons (by decide) (absurd rfl) .nil
      rw [List.append_nil, List.append_nil] at h
      rwa [snakeSpelling, List.intercalate_singleton]
    | cons next others =>
      rw [snakeSpelling, List.intercalate_cons_cons, List.append_assoc]
      exact .cons (by decide) (by simp) ih

/-- Small letters and digits are letters and digits. -/
theorem isAlphanum_of_isSmall {c : Char} (h : isSmall c = true) : c.isAlphanum = true := by
  rw [isSmall, Bool.or_eq_true] at h
  rw [Char.isAlphanum, Char.isAlpha, Bool.or_eq_true, Bool.or_eq_true]
  exact h.imp .inr id

/-- They are no capitals. -/
theorem isUpper_eq_false_of_isSmall {c : Char} (h : isSmall c = true) : c.isUpper = false :=
  forall_isAlphanum (P := fun c => isSmall c = true → c.isUpper = false) (by decide)
    (isAlphanum_of_isSmall h) h

/-- In lower case they stay as they are. -/
theorem toLower_of_isSmall {c : Char} (h : isSmall c = true) : c.toLower = c :=
  forall_isAlphanum (P := fun c => isSmall c = true → c.toLower = c) (by decide)
    (isAlphanum_of_isSmall h) h

/-- A small letter is one of the letters and digits. -/
theorem isAlphanum_of_isLower {c : Char} (h : c.isLower = true) : c.isAlphanum = true :=
  isAlphanum_of_isSmall (by rw [isSmall, h, Bool.true_or])

/-- It has a capital, which has no other. -/
theorem isUpper_toUpper {c : Char} (h : c.isLower = true) :
    c.toUpper.isUpper = true ∧ c.toUpper.toUpper = c.toUpper :=
  forall_isAlphanum (P := fun c => c.isLower = true →
    c.toUpper.isUpper = true ∧ c.toUpper.toUpper = c.toUpper) (by decide)
    (isAlphanum_of_isLower h) h

/-- Small letters and digits are read into the open word. -/
theorem wordsFrom_append_small (previous : Char) (current : List Char) {run : List Char}
    (h : ∀ c ∈ run, isSmall c = true) (text : List Char) :
    wordsFrom (previous :: current) (run ++ text) =
      wordsFrom (run.reverse ++ previous :: current) text := by
  induction run generalizing previous current with
  | nil => rfl
  | cons c run ih =>
    obtain ⟨hc, hrun⟩ := List.forall_mem_cons.mp h
    have hgoes : ¬ startsWord previous c (run ++ text).head? = true := by
      simp [startsWord, isUpper_eq_false_of_isSmall hc]
    rw [List.cons_append, wordsFrom, if_pos (isAlphanum_of_isSmall hc), if_neg hgoes, ih c _ hrun,
      List.reverse_cons, List.append_assoc, List.singleton_append]

/-- Behind the first letter or digit of a word there are small ones, and every capital behind these
starts a word. -/
theorem wordsFrom_append_pascalSpelling (c : Char) {cs : List Char} (hne : cs ≠ [])
    (hcs : ∀ d ∈ cs, isSmall d = true) {ws : List (List Char)}
    (hws : ∀ word ∈ ws, IsSmallWord word) :
    wordsFrom [c] (cs ++ pascalSpelling ws) =
      (c :: cs) :: ws.map (List.modifyHead Char.toUpper) := by
  -- The induction is on the words to come, for any word that is being read: the capital of the next
  -- word becomes the first letter of the one being read.
  induction ws generalizing c cs with
  | nil =>
    rw [wordsFrom_append_small c [] hcs, pascalSpelling, List.flatMap_nil, wordsFrom]
    simp [closeWord]
  | cons word ws ih =>
    obtain ⟨⟨d, ds, rfl, hd, hnext, hds⟩, hothers⟩ := List.forall_mem_cons.mp hws
    obtain ⟨last, front, hlast⟩ := List.exists_cons_of_ne_nil (List.reverse_ne_nil_iff.mpr hne)
    have hsmall : isSmall last = true :=
      hcs last (List.mem_reverse.mp (hlast ▸ List.mem_cons_self))
    have hopen : cs.reverse ++ [c] = last :: (front ++ [c]) := by rw [hlast, List.cons_append]
    have hclosed : closeWord (last :: (front ++ [c])) = [c :: cs] := by
      rw [← hopen]
      simp [closeWord]
    have hspelled : pascalSpelling ((d :: ds) :: ws) = d.toUpper :: (ds ++ pascalSpelling ws) := rfl
    have hletter := isAlphanum_toUpper (isAlphanum_of_isLower hd)
    have hstarts : startsWord last d.toUpper (ds ++ pascalSpelling ws).head? = true := by
      rw [isSmall] at hsmall
      rw [startsWord, (isUpper_toUpper hd).1, hsmall, Bool.true_or, Bool.true_and]
    rw [wordsFrom_append_small c [] hcs, hopen, hspelled, wordsFrom, if_pos hletter, if_pos hstarts,
      hclosed, ih d.toUpper hnext hds hothers]
    rfl

/-- The words of a spelling with capitals are the words with capitals. -/
theorem words_pascalSpelling {ws : List (List Char)} (hws : ∀ word ∈ ws, IsSmallWord word) :
    words (pascalSpelling ws) = ws.map (List.modifyHead Char.toUpper) := by
  cases ws with
  | nil => rfl
  | cons word ws =>
    obtain ⟨⟨c, cs, rfl, hc, hne, hcs⟩, hothers⟩ := List.forall_mem_cons.mp hws
    have hletter := isAlphanum_toUpper (isAlphanum_of_isLower hc)
    have hspelled : pascalSpelling ((c :: cs) :: ws) = c.toUpper :: (cs ++ pascalSpelling ws) := rfl
    rw [words, hspelled, wordsFrom, if_pos hletter,
      wordsFrom_append_pascalSpelling _ hne hcs hothers]
    rfl

/-- Without a capital at its start the first word is as it was. -/
theorem words_camelSpelling {word : List Char} {ws : List (List Char)}
    (hws : ∀ w ∈ word :: ws, IsSmallWord w) :
    words (camelSpelling (word :: ws)) = word :: ws.map (List.modifyHead Char.toUpper) := by
  obtain ⟨⟨c, cs, rfl, hc, hne, hcs⟩, hothers⟩ := List.forall_mem_cons.mp hws
  rw [words, camelSpelling, List.cons_append, wordsFrom,
    if_pos (isAlphanum_of_isLower hc),
    wordsFrom_append_pascalSpelling c hne hcs hothers]

/-- The words of a text with separators are those that are separated. -/
theorem wordsFrom_separated {ws : List (List Char)} {text : List Char} (h : Separated ws text)
    (hws : ∀ word ∈ ws, IsSmallWord word) : wordsFrom [] text = ws := by
  induction h with
  | nil => rfl
  | @cons word gap text others hgap hsep h ih =>
    obtain ⟨⟨c, cs, rfl, hc, -, hcs⟩, hothers⟩ := List.forall_mem_cons.mp hws
    have hclosed : closeWord (cs.reverse ++ [c]) = [c :: cs] := by simp [closeWord]
    rw [List.cons_append, wordsFrom, if_pos (isAlphanum_of_isLower hc),
      wordsFrom_append_small c [] hcs]
    by_cases hempty : gap = []
    · cases h with
      | nil => rw [hempty, List.append_nil, wordsFrom, hclosed]
      | cons => exact absurd hempty (hsep (List.cons_ne_nil _ _))
    · rw [wordsFrom_append hempty hgap, hclosed, ih hothers]
      rfl

/-- A small word is capitalized by its first letter alone. -/
theorem IsSmallWord.capitalize_eq {word : List Char} (h : IsSmallWord word) :
    capitalize word = word.modifyHead Char.toUpper := by
  obtain ⟨c, cs, rfl, -, -, hcs⟩ := h
  have hlower : cs.map Char.toLower = cs :=
    (List.map_congr_left fun d hd => toLower_of_isSmall (hcs d hd)).trans (List.map_id cs)
  rw [capitalize, hlower]
  rfl

/-- With a capital it is capitalized already. -/
theorem IsSmallWord.capitalize_modifyHead {word : List Char} (h : IsSmallWord word) :
    capitalize (word.modifyHead Char.toUpper) = word.modifyHead Char.toUpper := by
  rw [← h.capitalize_eq]
  obtain ⟨c, cs, rfl, hc, -, -⟩ := h
  simp [capitalize, (isUpper_toUpper hc).2]

/-- A text whose words are small words but for capitals is their spelling with capitals in Pascal
case. -/
theorem pascalCase_eq_pascalSpelling {text : List Char} {ws : List (List Char)}
    (hws : ∀ word ∈ ws, IsSmallWord word)
    (h : (words text).map capitalize = ws.map (List.modifyHead Char.toUpper)) :
    pascalCase text = pascalSpelling ws := by
  have hdigit : ∀ word ∈ words text, ∀ c ∈ word.head?, c.isDigit = false := by
    intro word hword c hc
    obtain ⟨cs, rfl⟩ := List.head?_eq_some_iff.mp hc
    obtain ⟨small, hsmall, heq⟩ := List.mem_map.mp (h ▸ List.mem_map_of_mem hword)
    obtain ⟨d, ds, rfl, hd, -⟩ := hws small hsmall
    have hupper : d.toUpper = c.toUpper := List.head_eq_of_cons_eq heq
    have hcname := isNameRest_of_isAlphanum
      (isAlphanum_of_mem_wordsFrom (by simp) hword c List.mem_cons_self)
    have hdname := isNameRest_of_isAlphanum (isAlphanum_of_isLower hd)
    rw [← isDigit_toUpper hcname, ← hupper, isDigit_toUpper hdname, isDigit_eq_false_of_isLower hd]
  rw [pascalCase_eq_flatMap fun word hword => hdigit word (List.mem_of_mem_tail hword),
    pascalSpelling, List.flatMap_def, List.flatMap_def, h]

section

variable {ws : List (List Char)} (hws : ∀ word ∈ ws, IsSmallWord word)

include hws

/-- A spelling with capitals is in Pascal case. -/
theorem pascalCase_pascalSpelling : pascalCase (pascalSpelling ws) = pascalSpelling ws := by
  refine pascalCase_eq_pascalSpelling hws ?_
  rw [words_pascalSpelling hws, List.map_map]
  exact List.map_congr_left fun word hword => (hws word hword).capitalize_modifyHead

/-- In Pascal case the first word gets its capital. -/
theorem pascalCase_camelSpelling : pascalCase (camelSpelling ws) = pascalSpelling ws := by
  refine pascalCase_eq_pascalSpelling hws ?_
  cases ws with
  | nil => rfl
  | cons word others =>
    obtain ⟨hword, hothers⟩ := List.forall_mem_cons.mp hws
    rw [words_camelSpelling hws, List.map_cons, List.map_cons, hword.capitalize_eq, List.map_map]
    exact congrArg _ (List.map_congr_left fun w hw => (hothers w hw).capitalize_modifyHead)

/-- In Pascal case all words get capitals and no separator is left. -/
theorem pascalCase_separated {before text : List Char} (hbefore : AreSeparators before)
    (htext : Separated ws text) : pascalCase (before ++ text) = pascalSpelling ws := by
  refine pascalCase_eq_pascalSpelling hws ?_
  rw [words, wordsFrom_nil_append hbefore, wordsFrom_separated htext hws]
  exact List.map_congr_left fun word hword => (hws word hword).capitalize_eq

end

/-- Operations whose names are one text in Pascal case have the same identifiers if that is what
names are converted to, and type names say the kind without regard to the name. -/
theorem operationNames_congr {s : Settings} (hdrops : s.DropsUnderscores)
    (hdedupe : s.dedupeOperationSuffix = false) (kind : OperationKind) {a b : List Char}
    (h : pascalCase a = pascalCase b) :
    operationNames s kind (String.ofList a) = operationNames s kind (String.ofList b) := by
  have hconvert : convert s (String.ofList a) = convert s (String.ofList b) := by
    rw [← String.toList_inj, toList_convert_of_drops hdrops, toList_convert_of_drops hdrops,
      String.toList_ofList, String.toList_ofList, h]
  have hsuffix : kindSuffix s kind (String.ofList a) = kindSuffix s kind (String.ofList b) := by
    rw [kindSuffix, kindSuffix, hdedupe]
    rfl
  rw [operationNames, operationNames, hconvert, hsuffix]

/-- Spellings of the same small words are one text in Pascal case: with capitals, which stay as they
are, with capitals behind a first word without one, and with any separators between the words,
before and behind them. Where names lose their underscores and may say their kind twice, operations
whose names are such spellings have the same identifiers. -/
theorem pascalCase_spellings {ws : List (List Char)} (hws : ∀ word ∈ ws, IsSmallWord word) :
    pascalCase (pascalSpelling ws) = pascalSpelling ws ∧
    pascalCase (camelSpelling ws) = pascalSpelling ws ∧
    (∀ before text, AreSeparators before → Separated ws text →
      pascalCase (before ++ text) = pascalSpelling ws) ∧
    ∀ s kind, s.DropsUnderscores → s.dedupeOperationSuffix = false →
      operationNames s kind (String.ofList (snakeSpelling ws)) =
          operationNames s kind (String.ofList (pascalSpelling ws)) ∧
        operationNames s kind (String.ofList (camelSpelling ws)) =
          operationNames s kind (String.ofList (pascalSpelling ws)) := by
  have hpascal := pascalCase_pascalSpelling hws
  have hcamel := pascalCase_camelSpelling hws
  have hsnake : pascalCase (snakeSpelling ws) = pascalSpelling ws :=
    pascalCase_separated hws (show AreSeparators [] by decide) (separated_snakeSpelling ws)
  refine ⟨hpascal, hcamel, fun _ _ => pascalCase_separated hws,
    fun s kind hdrops hdedupe => ⟨?_, ?_⟩⟩
  · exact operationNames_congr hdrops hdedupe kind (hsnake.trans hpascal.symm)
  · exact operationNames_congr hdrops hdedupe kind (hcamel.trans hpascal.symm)

/-- Three small words, one with a digit at its end. -/
def userWords : List (List Char) := ["get".toList, "user2".toList, "by".toList]

/-- Spellings of three words, one of them with several separators of any kind. -/
theorem pascalCase_spellings_user :
    (∀ word ∈ userWords, IsSmallWord word) ∧
      pascalCase "GetUser2By".toList = "GetUser2By".toList ∧
      pascalCase "getUser2By".toList = "GetUser2By".toList ∧
      pascalCase "__get-- user2é_by!".toList = "GetUser2By".toList ∧
      operationNames droppingSettings .query "get_user2_by" =
        operationNames droppingSettings .query "GetUser2By" ∧
      operationNames droppingSettings .query "getUser2By" =
        operationNames droppingSettings .query "GetUser2By" := by
  have hget : IsSmallWord "get".toList :=
    ⟨'g', ['e', 't'], rfl, rfl, by simp, List.all_eq_true.mp rfl⟩
  have huser : IsSmallWord "user2".toList :=
    ⟨'u', ['s', 'e', 'r', '2'], rfl, rfl, by simp, List.all_eq_true.mp rfl⟩
  have hby : IsSmallWord "by".toList := ⟨'b', ['y'], rfl, rfl, by simp, List.all_eq_true.mp rfl⟩
  have hws : ∀ word ∈ userWords, IsSmallWord word := by
    simp only [userWords, List.forall_mem_cons]
    exact ⟨hget, huser, hby, List.forall_mem_nil _⟩
  have hlast : Separated ["by".toList] ("by".toList ++ ("!".toList ++ [])) :=
    .cons (by decide +kernel) (by simp) .nil
  have hseparated : Separated userWords
      ("get".toList ++ ("-- ".toList ++ ("user2".toList ++ ("é_".toList ++ _)))) :=
    .cons (by decide +kernel) (by simp) (.cons (by decide +kernel) (by simp) hlast)
  obtain ⟨hpascal, hcamel, htext, hnames⟩ := pascalCase_spellings hws
  exact ⟨hws, hpascal, hcamel, htext "__".toList _ (by decide +kernel) hseparated,
    hnames droppingSettings .query ⟨rfl, rfl⟩ rfl⟩

end GraphqlClient.Naming
