import GraphqlClient.Proofs.Naming.Underscores
import GraphqlClient.Proofs.Token.Names

/-!
# Names that stay apart

A name that keeps its underscores is converted character by character, and nothing but the case of
its letters changes. Type names put the kind of the operation behind it, and no kind's suffix ends
in another's, so that they give away both the kind and the name but for case.
-/

namespace GraphqlClient

/-- Two texts agree character by character but for the case of ASCII letters. -/
def EqualButForCase (a b : String) : Prop := a.toList.map Char.toLower = b.toList.map Char.toLower

namespace Naming

/-- Underscores and digits have no case. -/
theorem toLower_eq_self {c : Char} (h : isNameRest c = true) (hc : c = '_' ∨ c.isDigit = true) :
    c.toLower = c :=
  forall_isNameRest (P := fun c => c = '_' ∨ c.isDigit = true → c.toLower = c) (by decide) h hc

/-- Underscores and digits have one spelling each. -/
theorem eq_of_toLower_eq {c d : Char} (hc : isNameRest c = true) (hd : isNameRest d = true)
    (h : c.toLower = d.toLower) (hmark : d = '_' ∨ d.isDigit = true) : c = d := by
  have hmark' : c = '_' ∨ c.isDigit = true := by
    rwa [← toLower_eq_underscore_iff hc, ← isDigit_toLower hc, h, toLower_eq_underscore_iff hd,
      isDigit_toLower hd]
  rw [← toLower_eq_self hc hmark', h, toLower_eq_self hd hmark]

/-- Where one of two texts has an underscore or a digit, the other one has it too if they agree but
for case. -/
theorem getElem?_of_map_toLower {xs ys : List Char} (hxs : NameCharacters xs)
    (hys : NameCharacters ys) (h : xs.map Char.toLower = ys.map Char.toLower) {i : Nat} {c : Char}
    (hc : xs[i]? = some c) (hmark : c = '_' ∨ c.isDigit = true) : ys[i]? = some c := by
  have hlower : ys[i]?.map Char.toLower = some c.toLower := by
    rw [← List.getElem?_map, ← h, List.getElem?_map, hc, Option.map_some]
  obtain ⟨d, hd, heq⟩ := Option.map_eq_some_iff.mp hlower
  rw [hd, eq_of_toLower_eq (hys d (List.mem_of_getElem? hd)) (hxs c (List.mem_of_getElem? hc)) heq
    hmark]

/-- Where underscores are not transformed, conversion of a name changes nothing but case: there are
as many characters, every underscore and every digit stands where it stood, and names that become
one differ in nothing else. -/
theorem convert_equalButForCase {s : Settings} (hkept : s.transformUnderscore = false)
    {name : String} (hname : IsName name) :
    (convert s name).length = name.length ∧ EqualButForCase (convert s name) name ∧
    (∀ (i : Nat) (c : Char), c = '_' ∨ c.isDigit = true →
      ((convert s name).toList[i]? = some c ↔ name.toList[i]? = some c)) ∧
    ∀ other, IsName other → convert s other = convert s name → EqualButForCase other name := by
  have hdrops := Settings.not_dropsUnderscores hkept
  have hcase : EqualButForCase (convert s name) name := map_toLower_convert hdrops hname.isNameRest
  have hconverted := nameCharacters_convert s hname.isNameRest
  refine ⟨?length, hcase, fun i c hmark => ⟨fun h => ?there, fun h => ?back⟩, ?apart⟩
  case length =>
    have hlength := congrArg List.length hcase
    rwa [List.length_map, List.length_map, String.length_toList, String.length_toList] at hlength
  case there => exact getElem?_of_map_toLower hconverted hname.isNameRest hcase h hmark
  case back => exact getElem?_of_map_toLower hname.isNameRest hconverted hcase.symm h hmark
  case apart =>
    intro other hother heq
    have hcase' : EqualButForCase (convert s other) other :=
      map_toLower_convert hdrops hother.isNameRest
    exact hcase'.symm.trans (heq ▸ hcase)

/-- Two spellings of a name are converted to a third one. -/
theorem convert_equalButForCase_user :
    IsName "get_user2HTML" ∧ IsName "GET_User2HTML" ∧
      convert ({} : Options).settings "get_user2HTML" = "Get_User2Html" ∧
      convert ({} : Options).settings "GET_User2HTML" = "Get_User2Html" ∧
      EqualButForCase "Get_User2Html" "get_user2HTML" ∧
      EqualButForCase "GET_User2HTML" "get_user2HTML" := by
  have hname : IsName "get_user2HTML" := by decide +kernel
  have hother : IsName "GET_User2HTML" := by decide +kernel
  have hconvert : convert ({} : Options).settings "get_user2HTML" = "Get_User2Html" := by
    decide +kernel
  have hconvert' : convert ({} : Options).settings "GET_User2HTML" = "Get_User2Html" := by
    decide +kernel
  obtain ⟨-, hcase, -, hapart⟩ :=
    convert_equalButForCase (s := ({} : Options).settings) rfl hname
  exact ⟨hname, hother, hconvert, hconvert', hconvert ▸ hcase,
    hapart _ hother (hconvert'.trans hconvert.symm)⟩

/-- No kind's suffix ends in the suffix of another kind. -/
theorem typeSuffix_suffix_iff {kind kind' : OperationKind} :
    kind.typeSuffix.toList <:+ kind'.typeSuffix.toList ↔ kind = kind' := by
  rw [← List.isSuffixOf_iff_suffix]
  cases kind <;> cases kind' <;> decide

/-- Texts in front of the suffixes of kinds can be told apart, as can the kinds. -/
theorem append_typeSuffix_inj {a b : String} {kind kind' : OperationKind} :
    a ++ kind.typeSuffix = b ++ kind'.typeSuffix ↔ a = b ∧ kind = kind' := by
  refine ⟨fun h => ?_, fun ⟨ha, hkind⟩ => by rw [ha, hkind]⟩
  have hsuffix : kind.typeSuffix.toList <:+ (b ++ kind'.typeSuffix).toList := by
    rw [← h, String.toList_append]
    exact List.suffix_append _ _
  have hsuffix' : kind'.typeSuffix.toList <:+ (b ++ kind'.typeSuffix).toList := by
    rw [String.toList_append]
    exact List.suffix_append _ _
  have hkind : kind = kind' :=
    (List.suffix_or_suffix_of_suffix hsuffix hsuffix').elim typeSuffix_suffix_iff.mp
      fun hback => (typeSuffix_suffix_iff.mp hback).symm
  subst hkind
  exact ⟨(String.append_left_inj _).mp h, rfl⟩

/-- Nor does the suffix of a kind end as variables types do. -/
theorem append_typeSuffix_ne (a b : String) (kind kind' : OperationKind) :
    a ++ kind.typeSuffix ≠ b ++ kind'.typeSuffix ++ "Variables" := by
  intro h
  have hlast := congrArg (fun text : String => text.toList.getLast?) h
  cases kind <;>
    simp [OperationKind.typeSuffix, String.toList_append, List.getLast?_append] at hlast

/-- Type names say the kind if that is not left out, whether or not the name says it too. -/
theorem kindSuffix_eq_typeSuffix {s : Settings} (homit : s.omitOperationSuffix = false)
    (hdedupe : s.dedupeOperationSuffix = false) (kind : OperationKind) (name : String) :
    kindSuffix s kind name = kind.typeSuffix := by
  rw [kindSuffix, homit, hdedupe]
  rfl

/-- Where type names say the kind and names keep their underscores, operations with one result type
or one variables type are of one kind, and their names differ in case at most. If results have no
suffix, no result type is a variables type. -/
theorem operationNames_types_apart {s : Settings} (homit : s.omitOperationSuffix = false)
    (hdedupe : s.dedupeOperationSuffix = false) (hkept : s.transformUnderscore = false)
    {a b : String} (ha : IsName a) (hb : IsName b) (kind kind' : OperationKind) :
    ((operationNames s kind a).resultType = (operationNames s kind' b).resultType ∨
        (operationNames s kind a).variablesType = (operationNames s kind' b).variablesType →
      kind = kind' ∧ EqualButForCase a b ∧ (s.namingConvention = .keep → a = b)) ∧
    (s.operationResultSuffix = "" →
      (operationNames s kind a).resultType ≠ (operationNames s kind' b).variablesType) := by
  have hresult (kind : OperationKind) (name : String) : (operationNames s kind name).resultType =
      convert s name ++ kind.typeSuffix ++ s.operationResultSuffix := by
    rw [operationNames, kindSuffix_eq_typeSuffix homit hdedupe]
  have hvariables (kind : OperationKind) (name : String) :
      (operationNames s kind name).variablesType =
        convert s name ++ kind.typeSuffix ++ "Variables" := by
    rw [operationNames, kindSuffix_eq_typeSuffix homit hdedupe]
  rw [hresult, hresult, hvariables, hvariables]
  constructor
  · intro h
    have hsuffixed : convert s a ++ kind.typeSuffix = convert s b ++ kind'.typeSuffix :=
      h.elim (String.append_left_inj _).mp (String.append_left_inj _).mp
    obtain ⟨hconvert, hkind⟩ := append_typeSuffix_inj.mp hsuffixed
    have hdrops := Settings.not_dropsUnderscores hkept
    refine ⟨hkind, ?_, fun hkeep => ?_⟩
    · rw [EqualButForCase, ← map_toLower_convert hdrops ha.isNameRest, hconvert,
        map_toLower_convert hdrops hb.isNameRest]
    · rwa [convert, convert, hkeep] at hconvert
  · intro hempty
    rw [hempty, String.append_empty]
    exact append_typeSuffix_ne _ _ kind kind'

/-- Two queries with the same types have names that differ in case, and no result type of theirs is
a variables type. -/
theorem operationNames_types_apart_user :
    IsName "getUser" ∧ IsName "GetUser" ∧
      (operationNames ({} : Options).settings .query "getUser").resultType = "GetUserQuery" ∧
      (operationNames ({} : Options).settings .query "GetUser").resultType = "GetUserQuery" ∧
      EqualButForCase "getUser" "GetUser" ∧
      (operationNames ({} : Options).settings .query "getUser").resultType ≠
        (operationNames ({} : Options).settings .query "GetUser").variablesType := by
  have ha : IsName "getUser" := by decide +kernel
  have hb : IsName "GetUser" := by decide +kernel
  have hresult : (operationNames ({} : Options).settings .query "getUser").resultType =
      "GetUserQuery" := by decide +kernel
  have hresult' : (operationNames ({} : Options).settings .query "GetUser").resultType =
      "GetUserQuery" := by decide +kernel
  obtain ⟨hsame, hother⟩ := operationNames_types_apart (s := ({} : Options).settings) rfl rfl rfl
    ha hb .query .query
  exact ⟨ha, hb, hresult, hresult', (hsame (.inl (hresult.trans hresult'.symm))).2.1, hother rfl⟩

end Naming

end GraphqlClient
