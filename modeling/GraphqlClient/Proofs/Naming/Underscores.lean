import GraphqlClient.Proofs.Naming.Casing

/-!
# Underscores of converted names

Only Pascal case of a whole name gives up underscores; otherwise a converted name has the length of
the name. A name that loses its underscores starts with the first letter or digit that it has, and
the underscores that are put in again stand before digits.
-/

namespace GraphqlClient

/-- Names lose their underscores when they are converted. -/
def Settings.DropsUnderscores (s : Settings) : Prop :=
  s.namingConvention = .pascalCase ∧ s.transformUnderscore = true

/-- They do not if underscores are not transformed. -/
theorem Settings.not_dropsUnderscores {s : Settings} (h : s.transformUnderscore = false) :
    ¬ s.DropsUnderscores :=
  fun hdrops => Bool.false_ne_true (h.symm.trans hdrops.2)

namespace Naming

/-- The suffix of a kind is its keyword but for case. -/
theorem map_toLower_typeSuffix (kind : OperationKind) :
    kind.typeSuffix.toList.map Char.toLower = kind.keyword.toList := by
  cases kind <;> rfl

/-- Keywords consist of small letters. -/
theorem isLower_of_mem_keyword {kind : OperationKind} {c : Char} (h : c ∈ kind.keyword.toList) :
    c.isLower = true := by
  revert c
  cases kind <;> simp [OperationKind.keyword]

/-- A name that loses its underscores is one text in Pascal case. -/
theorem toList_convert_of_drops {s : Settings} (h : s.DropsUnderscores) (name : String) :
    (convert s name).toList = pascalCase name.toList := by
  simp only [convert, h.1, h.2, if_true, String.toList_ofList]

/-- A name that keeps its underscores keeps all but its case. -/
theorem map_toLower_convert {s : Settings} (h : ¬ s.DropsUnderscores) {name : String}
    (hname : NameCharacters name.toList) :
    (convert s name).toList.map Char.toLower = name.toList.map Char.toLower := by
  rw [convert]
  split
  · rfl
  · next hpascal =>
    have hkeeps : ¬ s.transformUnderscore = true := fun htransform => h ⟨hpascal, htransform⟩
    rw [if_neg hkeeps, String.toList_ofList]
    exact map_toLower_pascalParts hname

/-- A text in Pascal case starts with its first letter or digit. -/
theorem head?_pascalCase (text : List Char) :
    (pascalCase text).head? = (text.find? Char.isAlphanum).map Char.toUpper := by
  have hflatten : (words text).flatten = text.filter Char.isAlphanum := flatten_wordsFrom [] text
  rw [← List.head?_filter, ← hflatten, pascalCase]
  split
  · next hwords => rw [hwords]; rfl
  · next first others hwords =>
    have hfirst : first ≠ [] :=
      ne_nil_of_mem_wordsFrom (show first ∈ words text from hwords ▸ List.mem_cons_self)
    obtain ⟨c, cs, rfl⟩ := List.exists_cons_of_ne_nil hfirst
    rw [hwords]
    rfl

/-- Whatever end of a text has an underscore has a digit too. -/
def UnderscoresBeforeDigits (text : List Char) : Prop :=
  ∀ tail, tail <:+ text → '_' ∈ tail → ∃ d ∈ tail, d.isDigit = true

/-- Texts that have digits behind underscores may be joined. -/
theorem UnderscoresBeforeDigits.append {xs ys : List Char} (hxs : UnderscoresBeforeDigits xs)
    (hys : UnderscoresBeforeDigits ys) : UnderscoresBeforeDigits (xs ++ ys) := by
  intro tail htail hmem
  rcases List.suffix_or_suffix_of_suffix htail (List.suffix_append xs ys) with hshort | hlong
  · exact hys tail hshort hmem
  · obtain ⟨front, rfl⟩ := hlong
    obtain ⟨before, htext⟩ := htail
    have hfront : front <:+ xs := ⟨before, by simpa [← List.append_assoc] using htext⟩
    have hdigit : (∃ d ∈ front, d.isDigit = true) ∨ ∃ d ∈ ys, d.isDigit = true :=
      (List.mem_append.mp hmem).imp (hxs front hfront) (hys ys List.suffix_rfl)
    rcases hdigit with ⟨d, hd, hdigit⟩ | ⟨d, hd, hdigit⟩
    · exact ⟨d, List.mem_append_left _ hd, hdigit⟩
    · exact ⟨d, List.mem_append_right _ hd, hdigit⟩

/-- A text without underscores has none before anything. -/
theorem underscoresBeforeDigits_of_notMem {text : List Char} (h : '_' ∉ text) :
    UnderscoresBeforeDigits text :=
  fun _ htail hmem => absurd (htail.mem hmem) h

/-- A capitalized word of letters and digits has no underscores. -/
theorem notMem_capitalize {word : List Char} (h : ∀ c ∈ word, c.isAlphanum = true) :
    '_' ∉ capitalize word :=
  fun hmem => absurd (isAlphanum_of_mem_capitalize h '_' hmem) (by decide)

/-- The underscore before a joined word stands before a digit. -/
theorem underscoresBeforeDigits_joinWord {word : List Char} (h : ∀ c ∈ word, c.isAlphanum = true) :
    UnderscoresBeforeDigits (joinWord word) := by
  have hplain := underscoresBeforeDigits_of_notMem (notMem_capitalize h)
  rw [joinWord]
  split
  · next hany =>
    obtain ⟨d, hd, hdigit⟩ := (Option.any_eq_true _ _).mp hany
    obtain ⟨cs, rfl⟩ := List.head?_eq_some_iff.mp hd
    have hupper : d.toUpper.isDigit = true := by
      rw [isDigit_toUpper (isNameRest_of_isAlphanum (h d List.mem_cons_self)), hdigit]
    intro tail htail hmem
    rcases List.suffix_cons_iff.mp htail with rfl | htail
    · exact ⟨d.toUpper, by simp [capitalize], hupper⟩
    · exact hplain tail htail hmem
  · exact hplain

/-- In Pascal case all underscores stand before digits. -/
theorem underscoresBeforeDigits_pascalCase (text : List Char) :
    UnderscoresBeforeDigits (pascalCase text) := by
  have hwords : ∀ word ∈ words text, ∀ c ∈ word, c.isAlphanum = true :=
    fun word hword => isAlphanum_of_mem_wordsFrom (by simp) hword
  rw [pascalCase]
  split
  · exact underscoresBeforeDigits_of_notMem List.not_mem_nil
  · next first others heq =>
    rw [heq] at hwords
    obtain ⟨hfirst, hothers⟩ := List.forall_mem_cons.mp hwords
    refine (underscoresBeforeDigits_of_notMem (notMem_capitalize hfirst)).append ?_
    clear heq hwords
    induction others with
    | nil => exact underscoresBeforeDigits_of_notMem List.not_mem_nil
    | cons word others ih =>
      obtain ⟨hword, hothers⟩ := List.forall_mem_cons.mp hothers
      rw [List.flatMap_cons]
      exact (underscoresBeforeDigits_joinWord hword).append (ih hothers)

end Naming

end GraphqlClient
