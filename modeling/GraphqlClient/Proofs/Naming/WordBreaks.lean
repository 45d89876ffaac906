import GraphqlClient.Proofs.Naming.Casing

/-!
# Where words end

Between two letters or digits of a text, with nothing of the sort between them, a word ends or goes
on by what these two are, by what stands between them and by the character behind them. Together
with the letters and digits in their order this determines the words, and by it the words are the
ones that the text is cut into.
-/

namespace GraphqlClient.Naming

/-- The number of the word that holds a character, by its place among the characters of all the
words. -/
def wordIndex : List (List Char) → Nat → Nat
  | [], _ => 0
  | word :: others, place =>
    if place < word.length then 0 else wordIndex others (place - word.length) + 1

/-- Characters that belong to no word. -/
def AreSeparators (text : List Char) : Prop := ∀ c ∈ text, c.isAlphanum = false

instance (text : List Char) : Decidable (AreSeparators text) :=
  decidable_of_iff ((text.all fun c => !c.isAlphanum) = true) (by simp [AreSeparators])

/-- Whether a word ends between a letter or digit `c` and the next one `d`: there is a gap between
them, or `d` is a capital behind a small letter or digit, or it is a capital behind a capital and a
small letter follows at once. -/
def BreaksBetween (c : Char) (gap : List Char) (d : Char) (after : List Char) : Prop :=
  gap ≠ [] ∨ (c.isLower = true ∨ c.isDigit = true) ∧ d.isUpper = true ∨
    c.isUpper = true ∧ d.isUpper = true ∧ ∃ e ∈ after.head?, e.isLower = true

/-- The words of a text: they have characters, they run through the letters and digits of the text,
and two of these that follow each other are in different words where a word ends between them. -/
structure IsWordsOf (text : List Char) (ws : List (List Char)) : Prop where
  ne_nil : ∀ word ∈ ws, word ≠ []
  flatten_eq : ws.flatten = text.filter Char.isAlphanum
  apart_iff : ∀ {before gap after : List Char} {c d : Char},
    text = before ++ c :: (gap ++ d :: after) → c.isAlphanum = true → d.isAlphanum = true →
    AreSeparators gap →
    (wordIndex ws (before.countP Char.isAlphanum) ≠
      wordIndex ws (before.countP Char.isAlphanum + 1) ↔ BreaksBetween c gap d after)

/-- Without a gap a word starts where one ends. -/
theorem breaksBetween_nil_iff {c d : Char} {after : List Char} :
    BreaksBetween c [] d after ↔ startsWord c d after.head? = true := by
  simp only [BreaksBetween, startsWord, Bool.and_eq_true, Bool.or_eq_true, Option.any_eq_true,
    Option.mem_def]
  tauto

/-- A letter or digit is read into an open word, in front of which words may have been closed. -/
theorem exists_wordsFrom_cons (current : List Char) {c : Char} (hc : c.isAlphanum = true)
    (text : List Char) :
    ∃ closed start, wordsFrom current (c :: text) = closed ++ wordsFrom (c :: start) text ∧
      closed.flatten ++ start.reverse = current.reverse := by
  cases current with
  | nil => exact ⟨[], [], by rw [wordsFrom, if_pos hc]; rfl, rfl⟩
  | cons previous current =>
    rw [wordsFrom, if_pos hc]
    split
    · refine ⟨closeWord (previous :: current), [], rfl, ?_⟩
      rw [flatten_closeWord, List.reverse_nil, List.append_nil]
    · exact ⟨[], previous :: current, rfl, rfl⟩

/-- A separator closes the open word. -/
theorem wordsFrom_separator (current : List Char) {c : Char} (hc : c.isAlphanum = false)
    (text : List Char) :
    wordsFrom current (c :: text) = closeWord current ++ wordsFrom [] text := by
  cases current <;> rw [wordsFrom, if_neg (Bool.eq_false_iff.mp hc)]

/-- Reading up to a letter or digit leaves it the last of the open word, behind those before it. -/
theorem exists_wordsFrom_append (current before : List Char) {c : Char} (hc : c.isAlphanum = true)
    (text : List Char) :
    ∃ closed start,
      wordsFrom current (before ++ c :: text) = closed ++ wordsFrom (c :: start) text ∧
      closed.flatten ++ start.reverse = current.reverse ++ before.filter Char.isAlphanum := by
  -- Words that are closed on the way stay closed, and the rest is read behind another open word.
  induction before generalizing current with
  | nil =>
    obtain ⟨closed, start, heq, hflatten⟩ := exists_wordsFrom_cons current hc text
    exact ⟨closed, start, heq, by rw [hflatten, List.filter_nil, List.append_nil]⟩
  | cons x before ih =>
    by_cases hx : x.isAlphanum = true
    · obtain ⟨closed, start, heq, hflatten⟩ :=
        exists_wordsFrom_cons current hx (before ++ c :: text)
      obtain ⟨closed', start', heq', hflatten'⟩ := ih (x :: start)
      refine ⟨closed ++ closed', start', ?_, ?_⟩
      · rw [List.cons_append, heq, heq', List.append_assoc]
      · rw [List.flatten_append, List.append_assoc, hflatten', List.filter_cons_of_pos hx,
          ← hflatten]
        simp
    · obtain ⟨closed, start, heq, hflatten⟩ := ih []
      refine ⟨closeWord current ++ closed, start, ?_, ?_⟩
      · rw [List.cons_append, wordsFrom_separator current (Bool.eq_false_iff.mpr hx), heq,
          List.append_assoc]
      · rw [List.flatten_append, List.append_assoc, hflatten, flatten_closeWord,
          List.filter_cons_of_neg hx]
        rfl

/-- Separators outside of a word are passed over. -/
theorem wordsFrom_nil_append {gap : List Char} (h : AreSeparators gap) (text : List Char) :
    wordsFrom [] (gap ++ text) = wordsFrom [] text := by
  induction gap with
  | nil => rfl
  | cons x gap ih =>
    obtain ⟨hx, hgap⟩ := List.forall_mem_cons.mp h
    rw [List.cons_append, wordsFrom_separator [] hx, ih hgap]
    rfl

/-- One separator or more close the open word. -/
theorem wordsFrom_append {current gap : List Char} (hgap : gap ≠ []) (h : AreSeparators gap)
    (text : List Char) :
    wordsFrom current (gap ++ text) = closeWord current ++ wordsFrom [] text := by
  obtain ⟨x, gap, rfl⟩ := List.exists_cons_of_ne_nil hgap
  obtain ⟨hx, hgap⟩ := List.forall_mem_cons.mp h
  rw [List.cons_append, wordsFrom_separator current hx, wordsFrom_nil_append hgap]

/-- Behind the first word the numbers are those of the other words, one up. -/
theorem wordIndex_cons_add (word : List Char) (others : List (List Char)) (place : Nat) :
    wordIndex (word :: others) (word.length + place) = wordIndex others place + 1 := by
  rw [wordIndex, if_neg (by omega), Nat.add_sub_cancel_left]

/-- A character that stands in a word behind others has the number of that word. -/
theorem wordIndex_append (closed : List (List Char)) {word : List Char} {place : Nat}
    (h : place < word.length) (others : List (List Char)) :
    wordIndex (closed ++ word :: others) (closed.flatten.length + place) = closed.length := by
  induction closed with
  | nil => simp [wordIndex, h]
  | cons first closed ih =>
    rw [List.cons_append, List.flatten_cons, List.length_append, Nat.add_assoc, wordIndex_cons_add,
      ih, List.length_cons]

section

variable {before gap after : List Char} {c d : Char} (hc : c.isAlphanum = true)
  (hd : d.isAlphanum = true) (hgap : AreSeparators gap)

include hd hgap in
/-- An open word is closed where a word ends behind it. -/
theorem wordsFrom_of_breaks (start : List Char) (h : BreaksBetween c gap d after) :
    wordsFrom (c :: start) (gap ++ d :: after) =
      (start.reverse ++ [c]) :: wordsFrom [d] after := by
  by_cases hempty : gap = []
  · subst hempty
    rw [List.nil_append, wordsFrom, if_pos hd, if_pos (breaksBetween_nil_iff.mp h)]
    simp [closeWord]
  · rw [wordsFrom_append hempty hgap, wordsFrom, if_pos hd]
    simp [closeWord]

include hd in
/-- And it goes on where none does. -/
theorem wordsFrom_of_not_breaks (start : List Char) (h : ¬ BreaksBetween c gap d after) :
    wordsFrom (c :: start) (gap ++ d :: after) = wordsFrom (d :: c :: start) after := by
  have hempty : gap = [] := not_not.mp fun hne => h (.inl hne)
  subst hempty
  rw [List.nil_append, wordsFrom, if_pos hd, if_neg (mt breaksBetween_nil_iff.mpr h)]

include hc hd hgap in
/-- In the words of a text two letters or digits are apart where a word ends between them. -/
theorem wordIndex_words_ne_iff :
    wordIndex (words (before ++ c :: (gap ++ d :: after))) (before.countP Char.isAlphanum) ≠
        wordIndex (words (before ++ c :: (gap ++ d :: after))) (before.countP Char.isAlphanum + 1) ↔
      BreaksBetween c gap d after := by
  obtain ⟨closed, start, heq, hflatten⟩ :=
    exists_wordsFrom_append [] before hc (gap ++ d :: after)
  have hplace : before.countP Char.isAlphanum = closed.flatten.length + start.length := by
    rw [List.countP_eq_length_filter, ← List.nil_append (before.filter _), ← List.reverse_nil,
      ← hflatten, List.length_append, List.length_reverse]
  rw [words, heq, hplace]
  by_cases h : BreaksBetween c gap d after
  · -- The word ends in `c`, and `d` is the first of the next one.
    obtain ⟨rest, others, hrest, -⟩ := exists_wordsFrom_eq_cons (List.cons_ne_nil d []) after
    have hlast : start.length < (start.reverse ++ [c]).length := by simp
    have hsecond : wordIndex (closed ++ [start.reverse ++ [c]] ++ wordsFrom [d] after)
        ((closed ++ [start.reverse ++ [c]]).flatten.length + 0) = closed.length + 1 := by
      rw [hrest, wordIndex_append _ (by simp), List.length_append, List.length_singleton]
    have hlength : (closed ++ [start.reverse ++ [c]]).flatten.length + 0 =
        closed.flatten.length + start.length + 1 := by
      simp [Nat.add_assoc]
    rw [hlength, List.append_assoc, List.singleton_append] at hsecond
    rw [wordsFrom_of_breaks hd hgap start h, wordIndex_append closed hlast, hsecond]
    simp [h]
  · -- The word has both of them in it.
    obtain ⟨rest, others, hrest, -⟩ :=
      exists_wordsFrom_eq_cons (List.cons_ne_nil d (c :: start)) after
    have hinside : start.length + 1 < ((d :: c :: start).reverse ++ rest).length := by simp
    rw [wordsFrom_of_not_breaks hd start h, hrest,
      wordIndex_append closed (Nat.lt_of_succ_lt hinside), Nat.add_assoc,
      wordIndex_append closed hinside]
    simp [h]

end

/-- A text is cut into its words. -/
theorem isWordsOf_words (text : List Char) : IsWordsOf text (words text) where
  ne_nil _ := ne_nil_of_mem_wordsFrom
  flatten_eq := flatten_wordsFrom [] text
  apart_iff := by
    rintro before gap after c d rfl hc hd hgap
    exact wordIndex_words_ne_iff hc hd hgap

/-- Letters and digits that follow each other have a gap without any between them. -/
theorem exists_neighbours {text : List Char} {place : Nat}
    (h : place + 1 < (text.filter Char.isAlphanum).length) :
    ∃ before c gap d after, text = before ++ c :: (gap ++ d :: after) ∧ c.isAlphanum = true ∧
      d.isAlphanum = true ∧ AreSeparators gap ∧ before.countP Char.isAlphanum = place := by
  obtain ⟨passed, c, d, rest, hfilter, hlength⟩ : ∃ passed c d rest,
      text.filter Char.isAlphanum = passed ++ c :: d :: rest ∧ passed.length = place := by
    have hcut := List.take_append_drop place (text.filter Char.isAlphanum)
    rw [List.drop_eq_getElem_cons (by omega), List.drop_eq_getElem_cons h] at hcut
    exact ⟨_, _, _, _, hcut.symm, List.length_take_of_le (by omega)⟩
  obtain ⟨front, back, rfl, hfront, hback⟩ := List.filter_eq_append_iff.mp hfilter
  obtain ⟨lead, back, rfl, hlead, hc, hback⟩ := List.filter_eq_cons_iff.mp hback
  obtain ⟨gap, after, rfl, hgap, hd, -⟩ := List.filter_eq_cons_iff.mp hback
  refine ⟨front ++ lead, c, gap, d, after, (List.append_assoc _ _ _).symm, hc, hd,
    fun x hx => Bool.eq_false_iff.mpr (hgap x hx), ?_⟩
  rw [List.countP_append, List.countP_eq_zero.mpr hlead, List.countP_eq_length_filter, hfront,
    hlength, Nat.add_zero]

/-- Where the last character of a first word and the next one are apart in other words too, the
first of these is no longer. -/
theorem length_le_of_wordIndex {word word' : List Char} {others others' : List (List Char)}
    (hword : word ≠ [])
    (h : ∀ place, place + 1 < (word' :: others').flatten.length →
      wordIndex (word :: others) place ≠ wordIndex (word :: others) (place + 1) →
        wordIndex (word' :: others') place ≠ wordIndex (word' :: others') (place + 1)) :
    word'.length ≤ word.length := by
  -- A longer one would hold that character and the next one both.
  by_contra hlonger
  have hpos := List.length_pos_iff.mpr hword
  have hinside : word.length - 1 + 1 < (word' :: others').flatten.length := by
    rw [List.flatten_cons, List.length_append]
    omega
  refine h (word.length - 1) hinside ?_ ?_
  · simp [wordIndex, show word.length - 1 < word.length by omega,
      show ¬ word.length - 1 + 1 < word.length by omega]
  · simp [wordIndex, show word.length - 1 < word'.length by omega,
      show word.length - 1 + 1 < word'.length by omega]

/-- Words are determined by their characters in a row and by which of these are apart. -/
theorem eq_of_wordIndex {ws ws' : List (List Char)} (hws : ∀ word ∈ ws, word ≠ [])
    (hws' : ∀ word ∈ ws', word ≠ []) (hflatten : ws.flatten = ws'.flatten)
    (h : ∀ place, place + 1 < ws.flatten.length →
      (wordIndex ws place ≠ wordIndex ws (place + 1) ↔
        wordIndex ws' place ≠ wordIndex ws' (place + 1))) : ws = ws' := by
  induction ws generalizing ws' with
  | nil =>
    cases ws' with
    | nil => rfl
    | cons word' others' =>
      exact absurd (List.append_eq_nil_iff.mp hflatten.symm).1 (hws' word' List.mem_cons_self)
  | cons word others ih =>
    cases ws' with
    | nil => exact absurd (List.append_eq_nil_iff.mp hflatten).1 (hws word List.mem_cons_self)
    | cons word' others' =>
      obtain ⟨hword, hothers⟩ := List.forall_mem_cons.mp hws
      obtain ⟨hword', hothers'⟩ := List.forall_mem_cons.mp hws'
      have hlength : word.length = word'.length := le_antisymm
        (length_le_of_wordIndex hword' fun place hplace => (h place hplace).mpr)
        (length_le_of_wordIndex hword fun place hplace => (h place (hflatten ▸ hplace)).mp)
      obtain ⟨rfl, hrest⟩ := List.append_inj hflatten hlength
      refine congrArg (word :: ·) (ih hothers hothers' hrest fun place hplace => ?_)
      have hinside : word.length + place + 1 < (word :: others).flatten.length := by
        rw [List.flatten_cons, List.length_append]
        omega
      have hshifted := h (word.length + place) hinside
      rw [Nat.add_assoc, wordIndex_cons_add, wordIndex_cons_add, wordIndex_cons_add,
        wordIndex_cons_add] at hshifted
      simpa using hshifted

/-- A text has no other words. -/
theorem IsWordsOf.eq_words {text : List Char} {ws : List (List Char)} (h : IsWordsOf text ws) :
    ws = words text := by
  have hwords := isWordsOf_words text
  refine eq_of_wordIndex h.ne_nil hwords.ne_nil (h.flatten_eq.trans hwords.flatten_eq.symm) ?_
  intro place hplace
  rw [h.flatten_eq] at hplace
  obtain ⟨before, c, gap, d, after, htext, hc, hd, hgap, rfl⟩ := exists_neighbours hplace
  exact (h.apart_iff htext hc hd hgap).trans (hwords.apart_iff htext hc hd hgap).symm

/-- A word at its place in a text in Pascal case: with a capital first letter and small others, and
behind an underscore if it is not the first word and starts with a digit. -/
def placedWord (place : Nat) (word : List Char) : List Char :=
  (if 0 < place ∧ word.head?.any Char.isDigit = true then ['_'] else []) ++
    (word.take 1).map Char.toUpper ++ (word.drop 1).map Char.toLower

/-- The first word is capitalized. -/
theorem placedWord_zero (word : List Char) : placedWord 0 word = capitalize word := by
  cases word <;> rfl

/-- The words behind it are joined to it. -/
theorem placedWord_succ (place : Nat) (word : List Char) :
    placedWord (place + 1) word = joinWord word := by
  rw [placedWord, joinWord]
  cases word with
  | nil => rfl
  | cons c cs => by_cases h : c.isDigit = true <;> simp [h, capitalize]

/-- Pascal case puts the words of a text in their places. -/
theorem pascalCase_eq_placed (text : List Char) :
    pascalCase text = ((words text).mapIdx placedWord).flatten := by
  rw [pascalCase]
  cases words text with
  | nil => rfl
  | cons first others =>
    have hjoin : others.mapIdx (fun place => placedWord (place + 1)) = others.map joinWord := by
      refine List.ext_getElem? fun place => ?_
      rw [List.getElem?_mapIdx, List.getElem?_map]
      exact Option.map_congr fun word _ => placedWord_succ place word
    rw [List.mapIdx_cons, List.flatten_cons, placedWord_zero, hjoin]
    rfl

/-- Without its underscores a text in Pascal case is made of the letters and digits of the text, but
for case. -/
theorem map_toLower_filter_pascalCase (text : List Char) :
    ((pascalCase text).filter (· ≠ '_')).map Char.toLower =
      (text.filter Char.isAlphanum).map Char.toLower := by
  have hcharacters : NameCharacters (text.filter Char.isAlphanum) := fun c hc =>
    isNameRest_of_isAlphanum (List.mem_filter.mp hc).2
  have hkept : (text.filter Char.isAlphanum).filter (· ≠ '_') = text.filter Char.isAlphanum := by
    refine List.filter_eq_self.mpr fun c hc => ?_
    have hne : c ≠ '_' := by
      rintro rfl
      exact absurd (List.mem_filter.mp hc).2 (by decide)
    simpa using hne
  rw [map_toLower_filter (nameCharacters_pascalCase text), folded_pascalCase,
    ← map_toLower_filter hcharacters, hkept]

/-- Pascal case by the words of a text, which are the only ones that have characters, run through
its letters and digits and end where they should: all are capitalized and follow each other, and an
underscore keeps a digit at the start of a word apart from the word before. So but for underscores
and case the letters and digits are those of the text. -/
theorem pascalCase_by_words (text : List Char) :
    (∀ ws, IsWordsOf text ws ↔ ws = words text) ∧
    pascalCase text = ((words text).mapIdx placedWord).flatten ∧
    ((pascalCase text).filter (· ≠ '_')).map Char.toLower =
      (text.filter Char.isAlphanum).map Char.toLower := by
  refine ⟨fun ws => ⟨IsWordsOf.eq_words, ?_⟩, pascalCase_eq_placed text,
    map_toLower_filter_pascalCase text⟩
  rintro rfl
  exact isWordsOf_words text

/-- Words end at separators, before the last capital of an acronym and before a capital behind a
digit, and not before a digit. -/
example : words "get-2HTTPUsers4you".toList = ["get".toList, "2".toList, "HTTP".toList,
    "Users4you".toList] := by decide +kernel

end GraphqlClient.Naming
