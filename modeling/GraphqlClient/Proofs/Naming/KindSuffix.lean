import GraphqlClient.Proofs.Naming.Underscores
import GraphqlClient.Proofs.Token.Names

/-!
# Kinds in type names

A type name that would say the kind of its operation twice says it once. Whether the kind is there
already is read off the name and not off the converted name. The two agree unless the name loses
underscores from inside the word for its kind.
-/

namespace GraphqlClient.Naming

/-- A name without its underscores. -/
def withoutUnderscores (name : String) : String := String.ofList (name.toList.filter (· ≠ '_'))

/-- Without underscores in front of digits an ending without digits is one with them too. -/
theorem UnderscoresBeforeDigits.suffix_of_suffix_filter {text ending : List Char}
    (h : UnderscoresBeforeDigits text) (hending : ∀ c ∈ ending, c.isDigit = false)
    (hsuffix : ending <:+ text.filter (· ≠ '_')) : ending <:+ text := by
  induction text with
  | nil => exact hsuffix
  | cons c cs ih =>
    have hcs : UnderscoresBeforeDigits cs := fun tail htail =>
      h tail (htail.trans (List.suffix_cons c cs))
    by_cases hunderscore : c = '_'
    · rw [List.filter_cons_of_neg (by simp [hunderscore])] at hsuffix
      exact (ih hcs hsuffix).trans (List.suffix_cons c cs)
    · rw [List.filter_cons_of_pos (by simp [hunderscore])] at hsuffix
      rcases List.suffix_cons_iff.mp hsuffix with hall | hlater
      · -- An underscore that was left out would leave a digit in the ending.
        have hnone : '_' ∉ cs := by
          intro hmem
          obtain ⟨d, hd, hdigit⟩ := hcs cs List.suffix_rfl hmem
          have hne : d ≠ '_' := fun heq => by simp [heq, Char.isDigit] at hdigit
          have hkept : d ∈ ending :=
            hall ▸ List.mem_cons_of_mem c (List.mem_filter.mpr ⟨hd, by simpa using hne⟩)
          exact absurd hdigit (by simp [hending d hkept])
        have hfilter : cs.filter (· ≠ '_') = cs :=
          List.filter_eq_self.mpr fun x hx => by simpa using fun heq : x = '_' => hnone (heq ▸ hx)
        rw [hall, hfilter]
      · exact (ih hcs hlater).trans (List.suffix_cons c cs)

/-- A text in lower case has its underscores before digits if the text has. -/
theorem UnderscoresBeforeDigits.map_toLower {text : List Char} (h : UnderscoresBeforeDigits text)
    (hname : NameCharacters text) : UnderscoresBeforeDigits (text.map Char.toLower) := by
  rintro tail ⟨before, htail⟩ hmem
  obtain ⟨front, rest, htext, -, rfl⟩ := List.map_eq_append_iff.mp htail.symm
  obtain ⟨c, hc, hlower⟩ := List.mem_map.mp hmem
  have hunderscore : c = '_' :=
    (toLower_eq_underscore_iff (hname c (htext ▸ List.mem_append_right _ hc))).mp hlower
  obtain ⟨d, hd, hdigit⟩ := h rest ⟨front, htext.symm⟩ (hunderscore ▸ hc)
  have hsmall : d.toLower.isDigit = true := by
    rw [isDigit_toLower (hname d (htext ▸ List.mem_append_right _ hd)), hdigit]
  exact ⟨d.toLower, List.mem_map_of_mem hd, hsmall⟩

/-- Small letters are no underscores. -/
theorem ne_underscore_of_isLower {c : Char} (h : c.isLower = true) : c ≠ '_' := by
  rintro rfl
  exact absurd h (by decide)

/-- What small letters a text ends in, it ends in without its underscores. -/
theorem suffix_folded {text ending : List Char} (hending : ∀ c ∈ ending, c.isLower = true)
    (h : ending <:+ text.map Char.toLower) : ending <:+ folded text := by
  have hkept : ending.filter (· ≠ '_') = ending := List.filter_eq_self.mpr fun c hc => by
    simpa using ne_underscore_of_isLower (hending c hc)
  rw [← hkept]
  exact h.filter _

/-- A text in Pascal case ends in those small letters in which the text ends without case and
underscores. -/
theorem suffix_pascalCase_iff {text ending : List Char} (htext : NameCharacters text)
    (hending : ∀ c ∈ ending, c.isLower = true) :
    ending <:+ (pascalCase text).map Char.toLower ↔ ending <:+ folded text := by
  have hfolded : folded (pascalCase text) = folded text :=
    (folded_pascalCase text).trans (folded_filter_isAlphanum htext)
  have hunderscores := (underscoresBeforeDigits_pascalCase text).map_toLower
    (nameCharacters_pascalCase text)
  rw [← hfolded]
  exact ⟨suffix_folded hending, hunderscores.suffix_of_suffix_filter fun c hc =>
    isDigit_eq_false_of_isLower (hending c hc)⟩

/-- A name ends in the suffix of a kind when its small letters end in the keyword. -/
theorem endsIgnoringCase_iff (name : String) (kind : OperationKind) :
    endsIgnoringCase name kind.typeSuffix = true ↔
      kind.keyword.toList <:+ name.toList.map Char.toLower := by
  rw [endsIgnoringCase, map_toLower_typeSuffix, List.isSuffixOf_iff_suffix]

/-- A converted name that keeps its underscores ends in the suffix of a kind when the name does. -/
theorem endsIgnoringCase_convert {s : Settings} (h : ¬ s.DropsUnderscores) {name : String}
    (hname : NameCharacters name.toList) (kind : OperationKind) :
    endsIgnoringCase (convert s name) kind.typeSuffix = endsIgnoringCase name kind.typeSuffix := by
  rw [Bool.eq_iff_iff, endsIgnoringCase_iff, endsIgnoringCase_iff, map_toLower_convert h hname]

/-- A name without underscores ends in the suffix of a kind when what is left of its small letters
ends in the keyword. -/
theorem endsIgnoringCase_withoutUnderscores_iff {name : String} (hname : NameCharacters name.toList)
    (kind : OperationKind) :
    endsIgnoringCase (withoutUnderscores name) kind.typeSuffix = true ↔
      kind.keyword.toList <:+ folded name.toList := by
  rw [endsIgnoringCase_iff, withoutUnderscores, String.toList_ofList, map_toLower_filter hname]

/-- One that loses its underscores ends in it when the name does without them. -/
theorem endsIgnoringCase_convert_of_drops {s : Settings} (h : s.DropsUnderscores) {name : String}
    (hname : NameCharacters name.toList) (kind : OperationKind) :
    endsIgnoringCase (convert s name) kind.typeSuffix =
      endsIgnoringCase (withoutUnderscores name) kind.typeSuffix := by
  rw [Bool.eq_iff_iff, endsIgnoringCase_iff, endsIgnoringCase_withoutUnderscores_iff hname,
    toList_convert_of_drops h, suffix_pascalCase_iff hname fun _ => isLower_of_mem_keyword]

/-- A name that ends in the suffix of a kind does so without its underscores too. -/
theorem endsIgnoringCase_withoutUnderscores {name : String} (hname : NameCharacters name.toList)
    {kind : OperationKind} (h : endsIgnoringCase name kind.typeSuffix = true) :
    endsIgnoringCase (withoutUnderscores name) kind.typeSuffix = true := by
  rw [endsIgnoringCase_withoutUnderscores_iff hname]
  exact suffix_folded (fun _ => isLower_of_mem_keyword) ((endsIgnoringCase_iff name kind).mp h)

/-- A name loses underscores from inside the suffix of a kind: it ends in the suffix without them and
does not with them. -/
def UncoversSuffix (s : Settings) (name : String) (kind : OperationKind) : Prop :=
  s.DropsUnderscores ∧ endsIgnoringCase name kind.typeSuffix = false ∧
    endsIgnoringCase (withoutUnderscores name) kind.typeSuffix = true

/-- A name ends in the suffix of a kind when the converted name does, unless conversion has brought
that about. -/
theorem endsIgnoringCase_iff_convert (s : Settings) {name : String}
    (hname : NameCharacters name.toList) (kind : OperationKind) :
    endsIgnoringCase name kind.typeSuffix = true ↔
      endsIgnoringCase (convert s name) kind.typeSuffix = true ∧ ¬ UncoversSuffix s name kind := by
  rw [UncoversSuffix]
  by_cases hdrops : s.DropsUnderscores
  · have hkept : endsIgnoringCase name kind.typeSuffix = true →
        endsIgnoringCase (withoutUnderscores name) kind.typeSuffix = true :=
      endsIgnoringCase_withoutUnderscores hname
    rw [endsIgnoringCase_convert_of_drops hdrops hname, and_iff_right hdrops]
    cases hends : endsIgnoringCase name kind.typeSuffix with
    | true => simp [hkept hends]
    | false => simp
  · rw [endsIgnoringCase_convert hdrops hname, and_iff_left fun h => hdrops h.1]

/-- Both type names of an operation have a text between the converted name and their own ending. -/
def TypesHave (s : Settings) (kind : OperationKind) (name middle : String) : Prop :=
  (operationNames s kind name).resultType =
      convert s name ++ middle ++ s.operationResultSuffix ∧
    (operationNames s kind name).variablesType = convert s name ++ middle ++ "Variables"

/-- What stands there is what type names say of the kind, and nothing else. -/
theorem typesHave_iff {s : Settings} {kind : OperationKind} {name middle : String} :
    TypesHave s kind name middle ↔ kindSuffix s kind name = middle := by
  constructor
  · rintro ⟨-, hvariables⟩
    exact (String.append_right_inj _).mp ((String.append_left_inj _).mp hvariables)
  · rintro rfl
    exact ⟨rfl, rfl⟩

/-- If the suffix of the kind is not to be repeated, the type names have it after the converted name
exactly when the converted name does not end in it already, and they go without it otherwise. The
exception are names that end in it only because they lose underscores: these have it again. -/
theorem typesHave_suffix_iff {s : Settings} (hdedupe : s.dedupeOperationSuffix = true)
    (homit : s.omitOperationSuffix = false) {name : String} (hname : IsName name)
    (kind : OperationKind) :
    (TypesHave s kind name kind.typeSuffix ↔
      endsIgnoringCase (convert s name) kind.typeSuffix = false ∨ UncoversSuffix s name kind) ∧
    (TypesHave s kind name "" ↔
      endsIgnoringCase (convert s name) kind.typeSuffix = true ∧ ¬ UncoversSuffix s name kind) := by
  have hkind : kind.typeSuffix ≠ "" := by cases kind <;> decide
  have hends := endsIgnoringCase_iff_convert s hname.isNameRest kind
  rw [typesHave_iff, typesHave_iff, kindSuffix, hdedupe, homit, ← hends]
  have hnot : (endsIgnoringCase (convert s name) kind.typeSuffix = false ∨
      UncoversSuffix s name kind) ↔ ¬ endsIgnoringCase name kind.typeSuffix = true := by
    rw [hends, not_and_or, not_not, Bool.not_eq_true]
  rw [hnot]
  by_cases h : endsIgnoringCase name kind.typeSuffix = true <;> simp [h, hkind, hkind.symm]

/-- Settings under which the suffix of the kind is not to be repeated, and names lose their
underscores. -/
def dedupingSettings : Settings :=
  Options.settings { dedupeOperationSuffix := some true, transformUnderscore := some true }

/-- A name that ends in its kind has type names without a suffix, and one that ends otherwise has
type names with one. -/
theorem typesHave_suffix_user_query :
    IsName "user_Query" ∧ convert dedupingSettings "user_Query" = "UserQuery" ∧
      TypesHave dedupingSettings .query "user_Query" "" ∧
      TypesHave dedupingSettings .mutation "user_Query" "Mutation" := by
  have hname : IsName "user_Query" := by decide +kernel
  have hquery : endsIgnoringCase (convert dedupingSettings "user_Query") "Query" = true := by
    decide +kernel
  have hmutation : endsIgnoringCase (convert dedupingSettings "user_Query") "Mutation" = false := by
    decide +kernel
  have hcovered : ¬ UncoversSuffix dedupingSettings "user_Query" .query := fun h =>
    absurd h.2.1 (by decide +kernel)
  exact ⟨hname, by decide +kernel,
    (typesHave_suffix_iff rfl rfl hname .query).2.mpr ⟨hquery, hcovered⟩,
    (typesHave_suffix_iff rfl rfl hname .mutation).1.mpr (.inl hmutation)⟩

/-- A name that loses an underscore from inside its kind has type names that repeat the kind. -/
theorem typesHave_suffix_repeated :
    dedupingSettings.dedupeOperationSuffix = true ∧ dedupingSettings.omitOperationSuffix = false ∧
      IsName "get_que_ry" ∧
      endsIgnoringCase (convert dedupingSettings "get_que_ry") "Query" = true ∧
      (operationNames dedupingSettings .query "get_que_ry").resultType = "GetQueRyQuery" ∧
      TypesHave dedupingSettings .query "get_que_ry" "Query" := by
  exact ⟨rfl, rfl, by decide +kernel, by decide +kernel, by decide +kernel,
    typesHave_iff.mpr (by decide +kernel)⟩

end GraphqlClient.Naming
