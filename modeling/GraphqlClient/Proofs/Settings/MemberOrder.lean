import GraphqlClient.Proofs.Settings.Members

/-!
# The order of members

A configuration is an object whose members may stand in any order: it is accepted in one order when
it is accepted in another, and with the same options. A member that is null may as well be missing.
An object with an unknown or a repeated key is not accepted, wherever the key stands and whatever its
value is.
-/

namespace GraphqlClient

/-- A text spells an object with some members: each of them is well formed, and so is what is around
them. -/
def Json.SpellsObject (text : String) (members : List (String × Json)) : Prop :=
  Json.ofText text = (.object members none, .ok [])

/-- Members may be had in one order when they may be had in another. -/
theorem KnownMembers.perm {members others : List (String × Json)} (h : KnownMembers members)
    (hperm : members.Perm others) : KnownMembers others where
  known name hname := h.known name ((hperm.map Prod.fst).mem_iff.mpr hname)
  distinct := (hperm.map Prod.fst).nodup_iff.mp h.distinct

/-- Members before some others may be had by themselves. -/
theorem KnownMembers.of_append {members others : List (String × Json)}
    (h : KnownMembers (members ++ others)) : KnownMembers members where
  known name hname := h.known name (by simp [hname])
  distinct := by
    have hdistinct := h.distinct
    rw [List.map_append] at hdistinct
    exact (List.nodup_append.mp hdistinct).1

namespace Options

/-- A text that spells an object gives the options of its members. -/
theorem ofText_eq_ok_iff {text : String} {members : List (String × Json)}
    (h : Json.SpellsObject text members) {o : Options} :
    ofText text = .ok o ↔ ofMembers members = .ok o := by
  rw [ofText, h]
  simp only [ofJson]
  cases ofMembers members <;> rfl

/-- Members that may be had and say the same of every option give the same options. -/
theorem ofText_toOption_congr {text other : String} {members others : List (String × Json)}
    (h : Json.SpellsObject text members) (hother : Json.SpellsObject other others)
    (hknown : KnownMembers members ↔ KnownMembers others)
    (hgiven : KnownMembers members → ∀ key, given others key = given members key) :
    (ofText other).toOption = (ofText text).toOption := by
  refine Option.ext fun o => ?_
  have htoOption : ∀ {x : Except OptionsError Options}, x.toOption = some o ↔ x = .ok o := by
    intro x
    cases x <;> simp [Except.toOption]
  rw [htoOption, htoOption, ofText_eq_ok_iff h, ofText_eq_ok_iff hother, ofMembers_eq_ok_iff,
    ofMembers_eq_ok_iff, ← hknown]
  exact and_congr_right fun hmembers => forall_congr' fun key => by rw [hgiven hmembers]

/-- Members that may not be had give no options. -/
theorem exists_ofText_eq_error {text : String} {members : List (String × Json)}
    (h : Json.SpellsObject text members) (hunknown : ¬ KnownMembers members) :
    ∃ error, ofText text = .error error := by
  match hoptions : ofText text with
  | .error error => exact ⟨error, rfl⟩
  | .ok o =>
    exact absurd (ofMembers_eq_ok_iff.mp ((ofText_eq_ok_iff h).mp hoptions)).1 hunknown

/-- The options of an object do not depend on the order of its members, nor on nulls among them: a
text with the same members in another order is accepted when this one is, and gives the same options
and so the same settings, and so does one that has nulls for more of the keys. An object that has a
key of no option, or one key twice, is not accepted, whatever stands before, between and after and
whatever the values are. -/
theorem ofText_members {text : String} {members : List (String × Json)}
    (h : Json.SpellsObject text members) :
    (∀ other others, Json.SpellsObject other others → members.Perm others →
        (ofText other).toOption = (ofText text).toOption) ∧
      (∀ other others nulls, Json.SpellsObject other others → KnownMembers others →
        (∀ m ∈ nulls, m.2 = .null) → (members ++ nulls).Perm others →
          (ofText other).toOption = (ofText text).toOption) ∧
      (∀ before name value after, members = before ++ (name, value) :: after →
        name ∉ OptionKey.all.map OptionKey.text → ∃ error, ofText text = .error error) ∧
      (∀ before name value between again after,
        members = before ++ (name, value) :: between ++ (name, again) :: after →
          ∃ error, ofText text = .error error) := by
  refine ⟨fun other others hother hperm => ?_, fun other others nulls hother hothers hnull hperm => ?_,
    fun before name value after hmembers hunknown => ?_,
    fun before name value between again after hmembers => ?_⟩
  · exact ofText_toOption_congr h hother ⟨fun hm => hm.perm hperm, fun hm => hm.perm hperm.symm⟩
      fun hm => given_perm hperm hm.distinct
  · have hknown := hothers.perm hperm.symm
    refine ofText_toOption_congr h hother (iff_of_true hknown.of_append hothers) fun _ key => ?_
    rw [given_perm hperm hknown.distinct, given_append_nulls members hnull]
  · refine exists_ofText_eq_error h fun hknown => hunknown (hknown.known name ?_)
    simp [hmembers]
  · refine exists_ofText_eq_error h fun hknown => ?_
    have hdistinct := hknown.distinct
    simp [hmembers, List.nodup_append] at hdistinct

/-- A configuration with two members. -/
def keptNames : String := "\x7b\"namingConvention\": \"keep\", \"omitOperationSuffix\": true\x7d"

/-- The same in another order and with a null. -/
def keptNamesAfterNull : String :=
  "\x7b\"gqlImport\": null, \"omitOperationSuffix\": true, \"namingConvention\": \"keep\"\x7d"

/-- Two nulls for one key. -/
def repeatedNull : String := "\x7b\"gqlImport\": null, \"gqlImport\": null\x7d"

/-- Two members give the same options in another order and after a null, and an object with two nulls
for one key is not accepted. -/
theorem ofText_members_reordered :
    Json.SpellsObject keptNames
        [("namingConvention", .string "keep"), ("omitOperationSuffix", .boolean true)] ∧
      (ofText keptNames).toOption =
        some { namingConvention := some .keep, omitOperationSuffix := some true } ∧
      (ofText keptNamesAfterNull).toOption = (ofText keptNames).toOption ∧
      ∃ error, ofText repeatedNull = .error error := by
  have hkept : Json.SpellsObject keptNames
      [("namingConvention", .string "keep"), ("omitOperationSuffix", .boolean true)] := by
    rw [Json.SpellsObject]
    cbv
  have hnull : Json.SpellsObject keptNamesAfterNull
      [("gqlImport", .null), ("omitOperationSuffix", .boolean true),
        ("namingConvention", .string "keep")] := by
    rw [Json.SpellsObject]
    cbv
  have hrepeated : Json.SpellsObject repeatedNull [("gqlImport", .null), ("gqlImport", .null)] := by
    rw [Json.SpellsObject]
    cbv
  have hoptions : (ofText keptNames).toOption =
      some { namingConvention := some .keep, omitOperationSuffix := some true } := by cbv
  have hsame : (ofText keptNamesAfterNull).toOption = (ofText keptNames).toOption := by
    refine (ofText_members hkept).2.1 _ _ [("gqlImport", .null)] hnull ⟨by decide, by decide⟩ ?_ ?_
    · simp
    · exact List.reverse_perm _ |>.symm
  exact ⟨hkept, hoptions, hsame,
    (ofText_members hrepeated).2.2.2 [] "gqlImport" .null [] .null [] rfl⟩

end Options

end GraphqlClient
