import GraphqlClient.Proofs.Naming.Underscores
import GraphqlClient.Proofs.Token.Names

/-!
# Identifiers of converted names

With affixes that are names themselves, generated identifiers are names of the grammar again, so
that they are valid identifiers. What can go wrong goes wrong at their start: a name that loses its
underscores may start with a digit afterwards, or be gone.
-/

namespace GraphqlClient

/-- A text starts with a digit. -/
def StartsWithDigit (text : String) : Prop := ∃ d ∈ text.toList.head?, d.isDigit = true

/-- Of the characters of names those that are no digits start one. -/
theorem isNameStart_iff {c : Char} (h : isNameRest c = true) :
    isNameStart c = true ↔ c.isDigit = false :=
  Naming.forall_isNameRest (P := fun c => isNameStart c = true ↔ c.isDigit = false) (by decide) h

/-- Names are the texts of name characters that are not empty and do not start with a digit. -/
theorem isName_iff {text : String} :
    IsName text ↔ text ≠ "" ∧ Naming.NameCharacters text.toList ∧ ¬ StartsWithDigit text := by
  constructor
  · intro h
    obtain ⟨first, others, htext, hstart, -⟩ := id h
    refine ⟨fun hempty => ?_, h.isNameRest, ?_⟩
    · simp [hempty] at htext
    · rintro ⟨d, hd, hdigit⟩
      rw [htext, List.head?_cons, Option.mem_some_iff] at hd
      subst hd
      have hno := (isNameStart_iff (isNameRest_of_isNameStart hstart)).mp hstart
      exact Bool.false_ne_true (hno.symm.trans hdigit)
  · rintro ⟨hempty, hcharacters, hdigit⟩
    obtain ⟨first, others, htext⟩ :=
      List.exists_cons_of_ne_nil (mt String.toList_eq_nil_iff.mp hempty)
    rw [htext] at hcharacters
    obtain ⟨hrest, hothers⟩ := List.forall_mem_cons.mp hcharacters
    have hno : first.isDigit = false :=
      Bool.eq_false_iff.mpr fun h => hdigit ⟨first, by rw [htext]; rfl, h⟩
    exact ⟨first, others, htext, (isNameStart_iff hrest).mpr hno, hothers⟩

/-- A joined text starts with a digit if its first part does that has characters. -/
theorem startsWithDigit_append {before after : String} :
    StartsWithDigit (before ++ after) ↔
      StartsWithDigit before ∨ before = "" ∧ StartsWithDigit after := by
  rw [StartsWithDigit, String.toList_append, List.head?_append]
  cases hbefore : before.toList with
  | nil =>
    have hempty : before = "" := String.toList_eq_nil_iff.mp hbefore
    simp [StartsWithDigit, hempty]
  | cons c cs =>
    have hempty : before ≠ "" := fun h => by simp [h] at hbefore
    simp [StartsWithDigit, hbefore, hempty]

/-- Joined texts consist of name characters when both parts do. -/
theorem Naming.NameCharacters.append {before after : String} (hbefore : NameCharacters before.toList)
    (hafter : NameCharacters after.toList) : NameCharacters (before ++ after).toList := by
  rw [String.toList_append]
  exact List.forall_mem_append.mpr ⟨hbefore, hafter⟩

/-- An affix that identifiers may have: a name, or nothing. -/
def IsAffix (text : String) : Prop := text = "" ∨ IsName text

namespace IsAffix

variable {text : String}

/-- An affix consists of name characters. -/
theorem nameCharacters (h : IsAffix text) : Naming.NameCharacters text.toList := by
  rcases h with rfl | h
  · simp [Naming.NameCharacters]
  · exact (isName_iff.mp h).2.1

/-- No affix starts with a digit. -/
theorem not_startsWithDigit (h : IsAffix text) : ¬ StartsWithDigit text := by
  rcases h with rfl | h
  · simp [StartsWithDigit]
  · exact (isName_iff.mp h).2.2

/-- Affixes in a row are an affix. -/
theorem append {after : String} (h : IsAffix text) (hafter : IsAffix after) :
    IsAffix (text ++ after) := by
  refine or_iff_not_imp_left.mpr fun hempty => isName_iff.mpr ⟨hempty, ?_, ?_⟩
  · exact h.nameCharacters.append hafter.nameCharacters
  · rw [startsWithDigit_append]
    rintro (hdigit | ⟨-, hdigit⟩)
    · exact h.not_startsWithDigit hdigit
    · exact hafter.not_startsWithDigit hdigit

end IsAffix

/-- All affixes of the settings are such as identifiers may have, and constants have a suffix. -/
structure Settings.NameAffixes (s : Settings) : Prop where
  documentPrefix : IsAffix s.documentVariablePrefix
  documentSuffix : IsName s.documentVariableSuffix
  fragmentPrefix : IsAffix s.fragmentVariablePrefix
  fragmentSuffix : IsName s.fragmentVariableSuffix
  resultSuffix : IsAffix s.operationResultSuffix

namespace Naming

/-- A name loses its underscores, and a digit comes first without them. -/
def LeadsWithDigit (s : Settings) (name : String) : Prop :=
  s.DropsUnderscores ∧ ∃ d ∈ name.toList.find? (· ≠ '_'), d.isDigit = true

/-- A name loses its underscores, and it has no other characters. -/
def Vanishes (s : Settings) (name : String) : Prop :=
  s.DropsUnderscores ∧ ∀ c ∈ name.toList, c = '_'

/-- Without its underscores a name starts with its first letter or digit, if it has one. -/
theorem head?_convert_of_drops {s : Settings} (h : s.DropsUnderscores) {name : String}
    (hname : NameCharacters name.toList) :
    (convert s name).toList.head? = (name.toList.find? (· ≠ '_')).map Char.toUpper := by
  rw [toList_convert_of_drops h, head?_pascalCase, ← List.head?_filter, ← List.head?_filter]
  refine congrArg (fun text : List Char => text.head?.map Char.toUpper)
    (List.filter_congr fun c hc => ?_)
  by_cases hunderscore : c = '_'
  · rw [hunderscore]
    decide
  · simpa [isNameRest, hunderscore] using hname c hc

/-- A converted name starts with a digit exactly when nothing but lost underscores stood before
one. -/
theorem startsWithDigit_convert_iff (s : Settings) {name : String} (hname : IsName name) :
    StartsWithDigit (convert s name) ↔ LeadsWithDigit s name := by
  by_cases hdrops : s.DropsUnderscores
  · have hupper : ∀ c ∈ name.toList.find? (· ≠ '_'), c.toUpper.isDigit = c.isDigit :=
      fun c hc => isDigit_toUpper (hname.isNameRest c (List.mem_of_find?_eq_some hc))
    rw [StartsWithDigit, head?_convert_of_drops hdrops hname.isNameRest, LeadsWithDigit,
      and_iff_right hdrops]
    cases hfind : name.toList.find? (· ≠ '_') with
    | none => simp
    | some c => simp [hupper c hfind]
  · have hlead : ¬ LeadsWithDigit s name := fun h => hdrops h.1
    have hhead := congrArg List.head? (map_toLower_convert hdrops hname.isNameRest)
    obtain ⟨-, hcharacters, hdigit⟩ := isName_iff.mp hname
    rw [List.head?_map, List.head?_map] at hhead
    refine iff_of_false ?_ hlead
    rintro ⟨d, hd, hdigit'⟩
    refine hdigit ?_
    rw [Option.mem_def.mp hd, Option.map_some, eq_comm, Option.map_eq_some_iff] at hhead
    obtain ⟨c, hc, hlower⟩ := hhead
    refine ⟨c, hc, ?_⟩
    have hcrest := hcharacters c (List.mem_of_mem_head? hc)
    have hdrest := nameCharacters_convert s hcharacters d (List.mem_of_mem_head? hd)
    rw [← isDigit_toLower hcrest, hlower, isDigit_toLower hdrest, hdigit']

/-- A converted name is empty exactly when all its characters are lost. -/
theorem convert_eq_empty_iff (s : Settings) {name : String} (hname : IsName name) :
    convert s name = "" ↔ Vanishes s name := by
  rw [← String.toList_eq_nil_iff, Vanishes]
  by_cases hdrops : s.DropsUnderscores
  · rw [and_iff_right hdrops, ← List.head?_eq_none_iff,
      head?_convert_of_drops hdrops hname.isNameRest, Option.map_eq_none_iff, List.find?_eq_none]
    simp
  · have hlength := congrArg List.length (map_toLower_convert hdrops hname.isNameRest)
    rw [List.length_map, List.length_map] at hlength
    refine iff_of_false (fun hempty => (isName_iff.mp hname).1 ?_) fun h => hdrops h.1
    rw [hempty, List.length_nil, eq_comm, List.length_eq_zero_iff] at hlength
    exact String.toList_eq_nil_iff.mp hlength

/-- A converted name between affixes is a name unless a digit comes first in it, or all is empty. -/
theorem isName_affixed_iff (s : Settings) {name before after : String} (hname : IsName name)
    (hbefore : IsAffix before) (hafter : IsAffix after) :
    IsName (before ++ convert s name ++ after) ↔
      ¬ (before = "" ∧ LeadsWithDigit s name) ∧ ¬ (before = "" ∧ Vanishes s name ∧ after = "") := by
  have hcharacters : NameCharacters (before ++ convert s name ++ after).toList :=
    (hbefore.nameCharacters.append (nameCharacters_convert s hname.isNameRest)).append
      hafter.nameCharacters
  rw [isName_iff, and_iff_right hcharacters, startsWithDigit_append, startsWithDigit_append, Ne,
    String.append_eq_empty_iff, String.append_eq_empty_iff, convert_eq_empty_iff s hname,
    startsWithDigit_convert_iff s hname]
  have hb := hbefore.not_startsWithDigit
  have ha := hafter.not_startsWithDigit
  tauto

/-- A name of underscores alone ends in no suffix of a kind. -/
theorem endsIgnoringCase_eq_false {name : String} (h : ∀ c ∈ name.toList, c = '_')
    (kind : OperationKind) : endsIgnoringCase name kind.typeSuffix = false := by
  refine Bool.eq_false_iff.mpr fun hends => ?_
  rw [endsIgnoringCase, List.isSuffixOf_iff_suffix, map_toLower_typeSuffix] at hends
  have hkeyword : kind.keyword.toList ≠ [] := by cases kind <;> decide
  obtain ⟨letter, hletter⟩ := List.exists_mem_of_ne_nil _ hkeyword
  obtain ⟨c, hc, rfl⟩ := List.mem_map.mp (hends.mem hletter)
  have hlower := isLower_of_mem_keyword hletter
  rw [h c hc] at hlower
  exact absurd hlower (by decide)

/-- The type names of a name of underscores alone say its kind unless that is left out. -/
theorem kindSuffix_eq_empty_iff {s : Settings} {name : String} (h : ∀ c ∈ name.toList, c = '_')
    (kind : OperationKind) : kindSuffix s kind name = "" ↔ s.omitOperationSuffix = true := by
  have hkind : kind.typeSuffix ≠ "" := by cases kind <;> decide
  rw [kindSuffix, endsIgnoringCase_eq_false h kind]
  by_cases homit : s.omitOperationSuffix = true <;> simp [homit, hkind]

/-- What type names say of a kind is an affix that identifiers may have. -/
theorem isAffix_kindSuffix (s : Settings) (kind : OperationKind) (name : String) :
    IsAffix (kindSuffix s kind name) := by
  have hkind : IsName kind.typeSuffix := by cases kind <;> decide +kernel
  rw [kindSuffix]
  split
  · exact .inl rfl
  · split
    · exact .inl rfl
    · exact .inr hkind

/-- Generated identifiers consist of letters, digits and underscores. They are names of the grammar,
neither empty nor with a digit at the start, but for names that lose their underscores. If a digit
comes first in such a name, it comes first in its types too, and in its constants where these have
no prefix. If nothing is left of the name, the result type is empty where it has no suffix either. -/
theorem isName_identifiers_iff {s : Settings} (haffixes : s.NameAffixes) {name : String}
    (hname : IsName name) (kind : OperationKind) :
    (∀ text ∈ [(operationNames s kind name).document, (operationNames s kind name).resultType,
        (operationNames s kind name).variablesType, fragmentVariable s name],
      NameCharacters text.toList) ∧
    (IsName (operationNames s kind name).document ↔
      ¬ (s.documentVariablePrefix = "" ∧ LeadsWithDigit s name)) ∧
    (IsName (fragmentVariable s name) ↔
      ¬ (s.fragmentVariablePrefix = "" ∧ LeadsWithDigit s name)) ∧
    (IsName (operationNames s kind name).variablesType ↔ ¬ LeadsWithDigit s name) ∧
    (IsName (operationNames s kind name).resultType ↔ ¬ LeadsWithDigit s name ∧
      ¬ (Vanishes s name ∧ s.omitOperationSuffix = true ∧ s.operationResultSuffix = "")) := by
  have hkind := isAffix_kindSuffix s kind name
  have hending : IsName "Variables" := by decide +kernel
  have hconverted := nameCharacters_convert s hname.isNameRest
  have hresult := isName_affixed_iff s hname (.inl rfl) (hkind.append haffixes.resultSuffix)
  have htypes := isName_affixed_iff s hname (.inl rfl) (hkind.append (.inr hending))
  rw [String.empty_append, ← String.append_assoc] at hresult htypes
  refine ⟨?characters, ?document, ?fragment, ?variablesType, ?resultType⟩
  case characters =>
    simp only [List.forall_mem_cons, List.not_mem_nil, false_imp_iff, implies_true, and_true]
    exact ⟨(haffixes.documentPrefix.nameCharacters.append hconverted).append
        haffixes.documentSuffix.isNameRest,
      (hconverted.append hkind.nameCharacters).append haffixes.resultSuffix.nameCharacters,
      (hconverted.append hkind.nameCharacters).append hending.isNameRest,
      (haffixes.fragmentPrefix.nameCharacters.append hconverted).append
        haffixes.fragmentSuffix.isNameRest⟩
  case document =>
    have hsuffix := (isName_iff.mp haffixes.documentSuffix).1
    exact (isName_affixed_iff s hname haffixes.documentPrefix (.inr haffixes.documentSuffix)).trans
      (and_iff_left fun h => hsuffix h.2.2)
  case fragment =>
    have hsuffix := (isName_iff.mp haffixes.fragmentSuffix).1
    exact (isName_affixed_iff s hname haffixes.fragmentPrefix (.inr haffixes.fragmentSuffix)).trans
      (and_iff_left fun h => hsuffix h.2.2)
  case variablesType =>
    refine htypes.trans ?_
    simp [String.append_eq_empty_iff]
  case resultType =>
    refine hresult.trans ?_
    rw [and_iff_right rfl, and_iff_right rfl, String.append_eq_empty_iff]
    refine and_congr_right fun _ => not_congr (and_congr_right fun hvanishes => ?_)
    rw [kindSuffix_eq_empty_iff hvanishes.2]

/-- The settings without options, and with underscores given up. -/
def droppingSettings : Settings := Options.settings { transformUnderscore := some true }

/-- The default affixes are such as identifiers may have. -/
theorem nameAffixes_dropping : droppingSettings.NameAffixes where
  documentPrefix := .inl rfl
  documentSuffix := by decide +kernel
  fragmentPrefix := .inl rfl
  fragmentSuffix := by decide +kernel
  resultSuffix := .inl rfl

/-- Names that begin with underscores and a letter have valid identifiers, even if they lose the
underscores and have digits further on. -/
theorem isName_identifiers_letter :
    droppingSettings.NameAffixes ∧ IsName "__get_2fa" ∧
      (operationNames droppingSettings .query "__get_2fa").document = "Get_2faDocument" ∧
      IsName (operationNames droppingSettings .query "__get_2fa").document ∧
      IsName (operationNames droppingSettings .query "__get_2fa").resultType := by
  have hname : IsName "__get_2fa" := by decide +kernel
  have hletter : ¬ LeadsWithDigit droppingSettings "__get_2fa" := by
    simp [LeadsWithDigit, Char.isDigit]
  obtain ⟨-, hdocument, -, -, hresult⟩ := isName_identifiers_iff nameAffixes_dropping hname .query
  refine ⟨nameAffixes_dropping, hname, by decide +kernel, hdocument.mpr fun h => hletter h.2,
    hresult.mpr ⟨hletter, fun h => absurd h.2.1 (by decide)⟩⟩

/-- An underscore before a digit is lost, and then the identifiers start with the digit. -/
theorem identifiers_start_with_digit :
    droppingSettings.NameAffixes ∧ IsName "_1" ∧
      (operationNames droppingSettings .query "_1").document = "1Document" ∧
      (operationNames droppingSettings .query "_1").resultType = "1Query" ∧
      ¬ IsName (operationNames droppingSettings .query "_1").document ∧
      ¬ IsName (operationNames droppingSettings .query "_1").resultType := by
  have hname : IsName "_1" := by decide +kernel
  have hdocument : (operationNames droppingSettings .query "_1").document = "1Document" := by
    decide +kernel
  have hresult : (operationNames droppingSettings .query "_1").resultType = "1Query" := by
    decide +kernel
  refine ⟨nameAffixes_dropping, hname, hdocument, hresult, ?_, ?_⟩
  · rw [hdocument]
    decide +kernel
  · rw [hresult]
    decide +kernel

end Naming

end GraphqlClient
