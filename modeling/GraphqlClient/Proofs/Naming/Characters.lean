import GraphqlClient.Naming.Identifier
import GraphqlClient.Proofs.Text.Characters
import GraphqlClient.Token.Lexer

/-!
# Characters of converted names

Words of a name consist of letters and digits, and so a name in Pascal case consists of letters,
digits and underscores, whatever it was made from. A name that is kept consists of its own
characters.
-/

namespace GraphqlClient.Naming

/-- A text is made of letters, digits and underscores. -/
def NameCharacters (text : List Char) : Prop := ∀ c ∈ text, isNameRest c = true

/-- Letters and digits are ASCII characters. -/
theorem toNat_lt_of_isAlphanum {c : Char} (h : c.isAlphanum = true) : c.toNat < 128 := by
  have hupper (h : c.isUpper = true) : c.toNat ≤ 90 :=
    UInt32.le_iff_toNat_le.mp (of_decide_eq_true h).2
  have hlower (h : c.isLower = true) : c.toNat ≤ 122 :=
    UInt32.le_iff_toNat_le.mp (of_decide_eq_true (Bool.and_eq_true_iff.mp h).2)
  have hdigit (h : c.isDigit = true) : c.toNat ≤ 57 :=
    UInt32.le_iff_toNat_le.mp (of_decide_eq_true (Bool.and_eq_true_iff.mp h).2)
  rcases Bool.or_eq_true_iff.mp h with h | h
  · rcases Bool.or_eq_true_iff.mp h with h | h
    · exact Nat.lt_of_le_of_lt (hupper h) (by decide)
    · exact Nat.lt_of_le_of_lt (hlower h) (by decide)
  · exact Nat.lt_of_le_of_lt (hdigit h) (by decide)

/-- What holds of all ASCII letters and digits holds of all letters and digits. -/
theorem forall_isAlphanum {P : Char → Prop}
    (hascii : ∀ n : Fin 128, (Char.ofNat n).isAlphanum = true → P (Char.ofNat n)) {c : Char}
    (h : c.isAlphanum = true) : P c := by
  have hlt := toNat_lt_of_isAlphanum h
  have hof : Char.ofNat (⟨c.toNat, hlt⟩ : Fin 128) = c := Char.ofNat_toNat c
  exact hof ▸ hascii ⟨c.toNat, hlt⟩ (hof.symm ▸ h)

/-- What holds of all ASCII name characters holds of all name characters. -/
theorem forall_isNameRest {P : Char → Prop}
    (hascii : ∀ n : Fin 128, isNameRest (Char.ofNat n) = true → P (Char.ofNat n)) {c : Char}
    (h : isNameRest c = true) : P c := by
  have hlt : c.toNat < 128 := by
    rcases Bool.or_eq_true_iff.mp h with hunderscore | halphanum
    · rw [of_decide_eq_true hunderscore]
      decide
    · exact toNat_lt_of_isAlphanum halphanum
  have hof : Char.ofNat (⟨c.toNat, hlt⟩ : Fin 128) = c := Char.ofNat_toNat c
  exact hof ▸ hascii ⟨c.toNat, hlt⟩ (hof.symm ▸ h)

/-- A capital is a letter or digit if its small letter is. -/
theorem isAlphanum_toUpper {c : Char} (h : c.isAlphanum = true) : c.toUpper.isAlphanum = true :=
  forall_isAlphanum (P := fun c => c.toUpper.isAlphanum = true) (by decide) h

/-- A small letter is a letter or digit if its capital is. -/
theorem isAlphanum_toLower {c : Char} (h : c.isAlphanum = true) : c.toLower.isAlphanum = true :=
  forall_isAlphanum (P := fun c => c.toLower.isAlphanum = true) (by decide) h

/-- Letters and digits are name characters. -/
theorem isNameRest_of_isAlphanum {c : Char} (h : c.isAlphanum = true) : isNameRest c = true := by
  rw [isNameRest, h, Bool.or_true]

/-- In lower case the digits of a name are the same. -/
theorem isDigit_toLower {c : Char} (h : isNameRest c = true) : c.toLower.isDigit = c.isDigit :=
  forall_isNameRest (P := fun c => c.toLower.isDigit = c.isDigit) (by decide) h

/-- In upper case the digits of a name are the same. -/
theorem isDigit_toUpper {c : Char} (h : isNameRest c = true) : c.toUpper.isDigit = c.isDigit :=
  forall_isNameRest (P := fun c => c.toUpper.isDigit = c.isDigit) (by decide) h

/-- Of the characters of names only the underscore is one in lower case. -/
theorem toLower_eq_underscore_iff {c : Char} (h : isNameRest c = true) :
    c.toLower = '_' ↔ c = '_' :=
  forall_isNameRest (P := fun c => c.toLower = '_' ↔ c = '_') (by decide) h

/-- A closed word has the characters of the open one. -/
theorem mem_closeWord {current word : List Char} (h : word ∈ closeWord current) {c : Char}
    (hc : c ∈ word) : c ∈ current := by
  rw [closeWord] at h
  split at h
  · simp at h
  · rw [List.mem_singleton.mp h] at hc
    exact List.mem_reverse.mp hc

/-- Words consist of letters and digits, if the open word does. -/
theorem isAlphanum_of_mem_wordsFrom {current text word : List Char}
    (hcurrent : ∀ c ∈ current, c.isAlphanum = true) (h : word ∈ wordsFrom current text) :
    ∀ c ∈ word, c.isAlphanum = true := by
  fun_induction wordsFrom current text with
  | case1 current => exact fun c hc => hcurrent c (mem_closeWord h hc)
  | case2 c cs hc ih => exact ih (by simpa using hc) h
  | case3 c cs hc previous current _ ih =>
    rcases List.mem_append.mp h with h | h
    · exact fun x hx => hcurrent x (mem_closeWord h hx)
    · exact ih (by simpa using hc) h
  | case4 c cs hc previous current _ ih =>
    exact ih (List.forall_mem_cons.mpr ⟨hc, hcurrent⟩) h
  | case5 current c cs hc ih =>
    rcases List.mem_append.mp h with h | h
    · exact fun x hx => hcurrent x (mem_closeWord h hx)
    · exact ih (by simp) h

/-- A capitalized word consists of letters and digits, as the word does. -/
theorem isAlphanum_of_mem_capitalize {word : List Char} (h : ∀ c ∈ word, c.isAlphanum = true) :
    ∀ c ∈ capitalize word, c.isAlphanum = true := by
  cases word with
  | nil => simp [capitalize]
  | cons c cs =>
    obtain ⟨hc, hcs⟩ := List.forall_mem_cons.mp h
    refine List.forall_mem_cons.mpr ⟨isAlphanum_toUpper hc, ?_⟩
    intro x hx
    obtain ⟨y, hy, rfl⟩ := List.mem_map.mp hx
    exact isAlphanum_toLower (hcs y hy)

/-- A capitalized word consists of name characters. -/
theorem nameCharacters_capitalize {word : List Char} (h : ∀ c ∈ word, c.isAlphanum = true) :
    NameCharacters (capitalize word) :=
  fun c hc => isNameRest_of_isAlphanum (isAlphanum_of_mem_capitalize h c hc)

/-- A word after the first consists of name characters. -/
theorem nameCharacters_joinWord {word : List Char} (h : ∀ c ∈ word, c.isAlphanum = true) :
    NameCharacters (joinWord word) := by
  rw [joinWord]
  split
  · exact List.forall_mem_cons.mpr ⟨by decide, nameCharacters_capitalize h⟩
  · exact nameCharacters_capitalize h

/-- Pascal case consists of name characters. -/
theorem nameCharacters_pascalCase (text : List Char) : NameCharacters (pascalCase text) := by
  have hwords : ∀ word ∈ words text, ∀ c ∈ word, c.isAlphanum = true :=
    fun word hword => isAlphanum_of_mem_wordsFrom (by simp) hword
  rw [pascalCase]
  split
  · simp [NameCharacters]
  · next first others heq =>
    rw [heq] at hwords
    obtain ⟨hfirst, hothers⟩ := List.forall_mem_cons.mp hwords
    refine List.forall_mem_append.mpr ⟨nameCharacters_capitalize hfirst, fun c hc => ?_⟩
    obtain ⟨word, hword, hc⟩ := List.mem_flatMap.mp hc
    exact nameCharacters_joinWord (hothers word hword) c hc

/-- Pascal case between underscores consists of name characters. -/
theorem nameCharacters_pascalParts (text : List Char) : NameCharacters (pascalParts text) := by
  intro c hc
  rcases Text.mem_of_mem_intercalate hc with hc | ⟨part, hpart, hc⟩
  · rw [List.mem_singleton.mp hc]
    decide
  · obtain ⟨piece, _, rfl⟩ := List.mem_map.mp hpart
    exact nameCharacters_pascalCase piece c hc

/-- A converted name consists of name characters if the name does. -/
theorem nameCharacters_convert (s : Settings) {name : String} (h : NameCharacters name.toList) :
    NameCharacters (convert s name).toList := by
  rw [convert]
  split
  · exact h
  · rw [String.toList_ofList]
    split
    · exact nameCharacters_pascalCase _
    · exact nameCharacters_pascalParts _

end GraphqlClient.Naming
