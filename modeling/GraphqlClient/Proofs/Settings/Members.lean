import Mathlib.Data.List.Nodup
import GraphqlClient.Proofs.Sdk.Methods
import GraphqlClient.Settings.Reader

/-!
# Members of a configuration

The members of an object give options when their keys are those of options, no key is repeated and
each value is of the type of its option. The options are then what the single members say, and an
option of which no member says anything is not given, as if a null were given for it.
-/

namespace GraphqlClient

/-- The value of an option that is given. -/
inductive OptionValue where
  | flag (value : Bool)
  | text (value : String)
  | convention (value : NamingConvention)
  deriving DecidableEq

/-- What a JSON value says of an option: its value, or nothing if it is null. -/
def OptionKey.read (key : OptionKey) (value : Json) : Except OptionsError (Option OptionValue) :=
  match key with
  | .dedupeOperationSuffix | .omitOperationSuffix | .transformUnderscore =>
    value.flag?.map (Option.map .flag)
  | .namingConvention => value.convention?.map (Option.map .convention)
  | .documentVariablePrefix | .documentVariableSuffix | .fragmentVariablePrefix
  | .fragmentVariableSuffix | .gqlImport | .operationResultSuffix =>
    value.text?.map (Option.map .text)

/-- A null says nothing of any option. -/
theorem OptionKey.read_null (key : OptionKey) : key.read .null = .ok none := by
  cases key <;> rfl

/-- Keys have different texts. -/
theorem OptionKey.text_injective : Function.Injective text := by
  intro key other h
  have hsame : ofText? key.text = ofText? other.text := congrArg ofText? h
  rw [ofText?_text, ofText?_text] at hsame
  exact Option.some.inj hsame

/-- A text that spells a key is the text of that key. -/
theorem OptionKey.ofText?_eq_some_iff {name : String} {key : OptionKey} :
    ofText? name = some key ↔ key.text = name := by
  constructor
  · intro h
    simpa using List.find?_some h
  · rintro rfl
    exact ofText?_text key

namespace Options

/-- The value of an option, if it is given. -/
def value? (o : Options) : OptionKey → Option OptionValue
  | .dedupeOperationSuffix => o.dedupeOperationSuffix.map .flag
  | .documentVariablePrefix => o.documentVariablePrefix.map .text
  | .documentVariableSuffix => o.documentVariableSuffix.map .text
  | .fragmentVariablePrefix => o.fragmentVariablePrefix.map .text
  | .fragmentVariableSuffix => o.fragmentVariableSuffix.map .text
  | .gqlImport => o.gqlImport.map .text
  | .namingConvention => o.namingConvention.map .convention
  | .omitOperationSuffix => o.omitOperationSuffix.map .flag
  | .operationResultSuffix => o.operationResultSuffix.map .text
  | .transformUnderscore => o.transformUnderscore.map .flag

/-- Without members no option is given. -/
theorem value?_empty (key : OptionKey) : ({} : Options).value? key = none := by
  cases key <;> rfl

/-- Options are no more than their values. -/
theorem eq_of_value?_eq {o other : Options} (h : ∀ key, o.value? key = other.value? key) :
    o = other := by
  have hflag : Function.Injective OptionValue.flag := fun _ _ => OptionValue.flag.inj
  have htext : Function.Injective OptionValue.text := fun _ _ => OptionValue.text.inj
  have hconvention : Function.Injective OptionValue.convention :=
    fun _ _ => OptionValue.convention.inj
  cases o
  cases other
  congr
  · exact Option.map_injective hflag (h .dedupeOperationSuffix)
  · exact Option.map_injective htext (h .documentVariablePrefix)
  · exact Option.map_injective htext (h .documentVariableSuffix)
  · exact Option.map_injective htext (h .fragmentVariablePrefix)
  · exact Option.map_injective htext (h .fragmentVariableSuffix)
  · exact Option.map_injective htext (h .gqlImport)
  · exact Option.map_injective hconvention (h .namingConvention)
  · exact Option.map_injective hflag (h .omitOperationSuffix)
  · exact Option.map_injective htext (h .operationResultSuffix)
  · exact Option.map_injective hflag (h .transformUnderscore)

/-- A value that is put in is what the option's value becomes, and the others stay what they are. -/
theorem put_eq_ok {o after : Options} {key : OptionKey} {value : Json}
    (h : o.put key value = .ok after) :
    key.read value = .ok (after.value? key) ∧
      ∀ other, other ≠ key → after.value? other = o.value? other := by
  cases key <;>
  · obtain ⟨v, hv, rfl⟩ := map_eq_ok_iff.mp h
    refine ⟨by rw [OptionKey.read, hv]; rfl, fun other hother => ?_⟩
    cases other <;> first | rfl | exact absurd rfl hother

/-- A value can be put in when it says something of its option. -/
theorem exists_put_eq_ok {key : OptionKey} {value : Json} {v : Option OptionValue}
    (h : key.read value = .ok v) (o : Options) : ∃ after, o.put key value = .ok after := by
  cases key <;>
  · obtain ⟨given, hgiven, -⟩ := map_eq_ok_iff.mp h
    exact ⟨_, map_eq_ok_iff.mpr ⟨given, hgiven, rfl⟩⟩

end Options

/-- Members that an object may have: the key of each is that of an option, and no two are the same. -/
structure KnownMembers (members : List (String × Json)) : Prop where
  known : ∀ name ∈ members.map Prod.fst, name ∈ OptionKey.all.map OptionKey.text
  distinct : (members.map Prod.fst).Nodup

/-- What members say of an option; where there is no member of its key, that is a null. -/
def given (members : List (String × Json)) (key : OptionKey) : Json :=
  ((members.find? (·.1 = key.text)).map Prod.snd).getD .null

/-- The first of some members has its say on the option of its key. -/
theorem given_cons_self (key : OptionKey) (value : Json) (members : List (String × Json)) :
    given ((key.text, value) :: members) key = value := by
  simp [given]

/-- It has none on the other options. -/
theorem given_cons_of_ne {key other : OptionKey} (h : other ≠ key) (value : Json)
    (members : List (String × Json)) :
    given ((key.text, value) :: members) other = given members other := by
  have hne : key.text ≠ other.text := fun htext => h (OptionKey.text_injective htext).symm
  rw [given, given, List.find?_cons_of_neg (by simpa using hne)]

/-- The first of some members has no key but its own. -/
theorem text_mem_cons_iff {key other : OptionKey} (h : other ≠ key) {value : Json}
    {members : List (String × Json)} :
    other.text ∈ ((key.text, value) :: members).map Prod.fst ↔
      other.text ∈ members.map Prod.fst := by
  rw [List.map_cons, List.mem_cons, or_iff_right (OptionKey.text_injective.ne h)]

/-- Members without the key of an option say nothing of it. -/
theorem given_of_notMem {members : List (String × Json)} {key : OptionKey}
    (h : key.text ∉ members.map Prod.fst) : given members key = .null := by
  have hnone : members.find? (·.1 = key.text) = none := by
    refine List.find?_eq_none.mpr fun m hm => ?_
    simpa using fun hkey : m.1 = key.text => h (hkey ▸ List.mem_map_of_mem hm)
  rw [given, hnone, Option.map_none, Option.getD_none]

/-- A member has its say if no other has its key. -/
theorem given_of_mem {members : List (String × Json)} (h : (members.map Prod.fst).Nodup)
    {key : OptionKey} {value : Json} (hmem : (key.text, value) ∈ members) :
    given members key = value := by
  induction members with
  | nil => cases hmem
  | cons m members ih =>
    obtain ⟨hfirst, hrest⟩ := List.nodup_cons.mp h
    rcases List.mem_cons.mp hmem with rfl | hmem
    · exact given_cons_self key value members
    · have hne : m.1 ≠ key.text := fun hkey => hfirst (hkey ▸ List.mem_map_of_mem hmem)
      rw [given, List.find?_cons_of_neg (by simpa using hne)]
      exact ih hrest hmem

/-- Members of distinct keys say the same in any order. -/
theorem given_perm {members others : List (String × Json)} (h : members.Perm others)
    (hdistinct : (members.map Prod.fst).Nodup) (key : OptionKey) :
    given others key = given members key := by
  by_cases hkey : key.text ∈ members.map Prod.fst
  · obtain ⟨⟨name, value⟩, hmem, rfl⟩ := List.mem_map.mp hkey
    rw [given_of_mem hdistinct hmem]
    exact given_of_mem ((h.map Prod.fst).nodup_iff.mp hdistinct) (h.mem_iff.mp hmem)
  · rw [given_of_notMem hkey, given_of_notMem fun h' => hkey ((h.map Prod.fst).mem_iff.mpr h')]

/-- Nulls after some members add nothing to what these say. -/
theorem given_append_nulls (members : List (String × Json)) {nulls : List (String × Json)}
    (h : ∀ m ∈ nulls, m.2 = .null) (key : OptionKey) :
    given (members ++ nulls) key = given members key := by
  rw [given, given, List.find?_append]
  cases members.find? (·.1 = key.text) with
  | some m => rfl
  | none =>
    cases hnull : nulls.find? (·.1 = key.text) with
    | none => rfl
    | some m => exact h m (List.mem_of_find?_eq_some hnull)

namespace Options

/-- A member is taken when its key is that of an option, and new, and its value can be put in. -/
theorem putMembers_cons_eq_ok_iff {seen : List OptionKey} {o after : Options} {name : String}
    {value : Json} {members : List (String × Json)} :
    putMembers seen o ((name, value) :: members) = .ok after ↔
      ∃ key, key.text = name ∧ key ∉ seen ∧ ∃ middle, o.put key value = .ok middle ∧
        putMembers (key :: seen) middle members = .ok after := by
  rw [putMembers]
  cases hname : OptionKey.ofText? name with
  | none =>
    refine iff_of_false (by simp) fun ⟨key, hkey, _⟩ => ?_
    rw [OptionKey.ofText?_eq_some_iff.mpr hkey] at hname
    cases hname
  | some key =>
    have hkey : ∀ {other : OptionKey}, other.text = name ↔ key = other := by
      intro other
      rw [← OptionKey.ofText?_eq_some_iff, hname, Option.some.injEq]
    simp only [hkey, exists_eq_left']
    by_cases hseen : key ∈ seen
    · simp [hseen]
    · simp [hseen, bind_eq_ok_iff]

/-- Members after some keys are taken exactly when their keys are those of options, distinct, and
new, and each says something of its option. The options of the keys are then what the members say, and
the others stay what they are. -/
theorem putMembers_eq_ok_iff {seen : List OptionKey} {o after : Options}
    {members : List (String × Json)} :
    putMembers seen o members = .ok after ↔
      KnownMembers members ∧ (∀ key ∈ seen, key.text ∉ members.map Prod.fst) ∧
        ∀ key, (key.text ∈ members.map Prod.fst →
            key.read (given members key) = .ok (after.value? key)) ∧
          (key.text ∉ members.map Prod.fst → after.value? key = o.value? key) := by
  induction members generalizing seen o with
  | nil =>
    rw [putMembers]
    constructor
    · intro h
      cases h
      exact ⟨⟨by simp, by simp⟩, by simp, by simp⟩
    · rintro ⟨-, -, hvalues⟩
      rw [eq_of_value?_eq fun key => ((hvalues key).2 (by simp)).symm]
  | cons m members ih =>
    obtain ⟨name, value⟩ := m
    rw [putMembers_cons_eq_ok_iff]
    constructor
    · rintro ⟨key, rfl, hseen, middle, hput, hrest⟩
      obtain ⟨hknown, hnew, hvalues⟩ := ih.mp hrest
      obtain ⟨hread, hothers⟩ := put_eq_ok hput
      obtain ⟨hkey, hnew⟩ := List.forall_mem_cons.mp hnew
      refine ⟨⟨List.forall_mem_cons.mpr ⟨List.mem_map_of_mem key.mem_all, hknown.known⟩,
        List.nodup_cons.mpr ⟨hkey, hknown.distinct⟩⟩, fun other hother => ?_, fun other => ?_⟩
      · have hne : other ≠ key := fun h => hseen (h ▸ hother)
        rw [text_mem_cons_iff hne]
        exact hnew other hother
      · by_cases hother : other = key
        · subst hother
          refine ⟨fun _ => ?_, fun h => absurd List.mem_cons_self h⟩
          rw [given_cons_self, hread, (hvalues other).2 hkey]
        · rw [text_mem_cons_iff hother, given_cons_of_ne hother, ← hothers other hother]
          exact hvalues other
    · rintro ⟨hknown, hnew, hvalues⟩
      obtain ⟨key, -, rfl⟩ := List.mem_map.mp (hknown.known name List.mem_cons_self)
      have hseen : key ∉ seen := fun h => hnew key h List.mem_cons_self
      have hread := (hvalues key).1 List.mem_cons_self
      rw [given_cons_self] at hread
      obtain ⟨middle, hput⟩ := exists_put_eq_ok hread o
      obtain ⟨hmiddle, hothers⟩ := put_eq_ok hput
      obtain ⟨hkey, hdistinct⟩ := List.nodup_cons.mp hknown.distinct
      refine ⟨key, rfl, hseen, middle, hput, ih.mpr
        ⟨⟨(List.forall_mem_cons.mp hknown.known).2, hdistinct⟩,
          List.forall_mem_cons.mpr ⟨hkey, fun other hother => ?_⟩, fun other => ?_⟩⟩
      · have hne : other ≠ key := fun h => hseen (h ▸ hother)
        rw [← text_mem_cons_iff hne]
        exact hnew other hother
      · by_cases hother : other = key
        · subst hother
          exact ⟨fun h => absurd h hkey, fun _ => Except.ok.inj (hread.symm.trans hmiddle)⟩
        · rw [← text_mem_cons_iff hother, ← given_cons_of_ne hother value, hothers other hother]
          exact hvalues other

/-- Members give options exactly when their keys are those of options and distinct, and each says
something of its option; the options are then what the members say. -/
theorem ofMembers_eq_ok_iff {members : List (String × Json)} {o : Options} :
    ofMembers members = .ok o ↔
      KnownMembers members ∧
        ∀ key : OptionKey, key.read (given members key) = .ok (o.value? key) := by
  rw [ofMembers, putMembers_eq_ok_iff]
  refine and_congr_right fun _ => ?_
  rw [and_iff_right (by simp)]
  refine forall_congr' fun key => ?_
  by_cases hkey : key.text ∈ members.map Prod.fst
  · rw [and_iff_left fun h => absurd hkey h, imp_iff_right hkey]
  · rw [and_iff_right fun h => absurd h hkey, imp_iff_right hkey, given_of_notMem hkey,
      key.read_null, value?_empty, Except.ok.injEq, eq_comm]

end Options

end GraphqlClient
