import GraphqlClient.Proofs.Naming.Characters
import GraphqlClient.Proofs.Sdk.Methods
import GraphqlClient.Proofs.Settings.Import
import GraphqlClient.Sdk.Catalogue

/-!
# Text outside of templates

Imports and the client factory are code: they hold no backtick, as long as none comes in through
the settings. The constants of declarations are plain, so that they can stand in holes as well.
-/

namespace GraphqlClient

/-- A text that stands for itself in code and in holes. -/
def IsPlain (text : String) : Prop := '\x60' ∉ text.toList ∧ '}' ∉ text.toList

instance (text : String) : Decidable (IsPlain text) := inferInstanceAs (Decidable (_ ∧ _))

/-- Plain texts one after the other. -/
theorem IsPlain.append {x y : String} (hx : IsPlain x) (hy : IsPlain y) : IsPlain (x ++ y) := by
  constructor
  · simp [hx.1, hy.1]
  · simp [hx.2, hy.2]

/-- Name characters are plain. -/
theorem isPlain_of_nameCharacters {text : String} (h : Naming.NameCharacters text.toList) :
    IsPlain text :=
  ⟨fun hmem => absurd (h _ hmem) (by decide), fun hmem => absurd (h _ hmem) (by decide)⟩

/-- What the settings put before and after names. -/
def Settings.affixes (s : Settings) : List String :=
  [s.documentVariablePrefix, s.documentVariableSuffix, s.fragmentVariablePrefix,
    s.fragmentVariableSuffix, s.operationResultSuffix]

/-- The texts that come into the method of an operation. -/
def OperationRecord.texts (r : OperationRecord) : List String :=
  [r.operation.name, r.names.document, r.names.operationType, r.names.resultType,
    r.names.variablesType]

section Names

variable {s : Settings} (haffixes : ∀ affix ∈ s.affixes, IsPlain affix)
include haffixes

/-- The constant of a fragment is plain. -/
theorem isPlain_fragmentVariable {name : String} (hname : Naming.NameCharacters name.toList) :
    IsPlain (Naming.fragmentVariable s name) := by
  have hconverted := isPlain_of_nameCharacters (Naming.nameCharacters_convert s hname)
  exact ((haffixes _ (by simp [Settings.affixes])).append hconverted).append
    (haffixes _ (by simp [Settings.affixes]))

/-- The texts of a recorded operation are plain. -/
theorem isPlain_of_mem_texts {o : NamedOperation} (hname : Naming.NameCharacters o.name.toList) :
    ∀ text ∈ (o.record s).texts, IsPlain text := by
  have hconverted := isPlain_of_nameCharacters (Naming.nameCharacters_convert s hname)
  have hsuffix : IsPlain (Naming.kindSuffix s o.kind o.name) := by
    rw [Naming.kindSuffix]
    split
    · exact ⟨by simp, by simp⟩
    · split
      · exact ⟨by simp, by simp⟩
      · cases o.kind <;> exact ⟨by decide, by decide⟩
  have hdocument : IsPlain (Naming.operationNames s o.kind o.name).document :=
    ((haffixes _ (by simp [Settings.affixes])).append hconverted).append
      (haffixes _ (by simp [Settings.affixes]))
  have hkeyword : IsPlain o.kind.keyword := by
    cases o.kind <;> exact ⟨by decide, by decide⟩
  have hresult : IsPlain (Naming.operationNames s o.kind o.name).resultType :=
    (hconverted.append hsuffix).append (haffixes _ (by simp [Settings.affixes]))
  have hvariables : IsPlain (Naming.operationNames s o.kind o.name).variablesType :=
    (hconverted.append hsuffix).append ⟨by decide, by decide⟩
  intro text htext
  simp only [OperationRecord.texts, List.mem_cons, List.not_mem_nil, or_false] at htext
  rcases htext with rfl | rfl | rfl | rfl | rfl
  · exact isPlain_of_nameCharacters hname
  · exact hdocument
  · exact hkeyword
  · exact hresult
  · exact hvariables

end Names

/-- A method holds no backtick if no text of its operation does. -/
theorem OperationRecord.backtick_notMem_method {r : OperationRecord} {text : String}
    (h : r.method = .ok text) (htexts : ∀ t ∈ r.texts, '\x60' ∉ t.toList) : '\x60' ∉ text.toList := by
  simp only [texts, List.forall_mem_cons] at htexts
  obtain ⟨hname, hdocument, hoperation, hresult, hvariables, _⟩ := htexts
  obtain ⟨verb, _, h⟩ := bind_eq_ok_iff.mp h
  have hmark : '\x60' ∉ r.optionalMark.toList := by
    rw [optionalMark]
    split <;> decide
  have hpolicy : '\x60' ∉ r.fetchPolicy.toList := by
    rw [fetchPolicy]
    split <;> decide
  have hcalled : '\x60' ∉ verb.text.toList := by
    cases verb <;> decide
  rw [← Except.ok.inj h]
  simp [hname, hdocument, hoperation, hresult, hvariables, hmark, hpolicy, hcalled]

/-- The factory holds no backtick if no text of its operations does. -/
theorem backtick_notMem_factoryText {records : List OperationRecord} {factory : String}
    (h : factoryText records = .ok factory)
    (htexts : ∀ r ∈ records, ∀ t ∈ r.texts, '\x60' ∉ t.toList) : '\x60' ∉ factory.toList := by
  obtain ⟨texts, hmethods, h⟩ := bind_eq_ok_iff.mp h
  have hbody : '\x60' ∉ (",\n".intercalate (texts.map (Text.indent 2))).toList := by
    refine Text.notMem_intercalate (by decide) fun indented hindented => ?_
    obtain ⟨text, htext, rfl⟩ := List.mem_map.mp hindented
    obtain ⟨r, hr, hmethod⟩ := exists_of_mem_methods hmethods text htext
    exact Text.notMem_indent (by decide) (by decide)
      (OperationRecord.backtick_notMem_method hmethod (htexts r hr))
  rw [← Except.ok.inj h]
  simp [-String.toList_intercalate, hbody]

/-- The statement of an import holds no backtick if its source does not. -/
theorem GqlImport.backtick_notMem_ofSource {source : String} (h : '\x60' ∉ source.toList) :
    '\x60' ∉ (ofSource source).statement.toList := by
  rw [← source_ofSource source] at h
  obtain ⟨hmodule, hname⟩ := notMem_of_notMem_source h
  have hclause : '\x60' ∉ (clause (ofSource source).named).toList := notMem_clause (by decide) hname
  rw [toList_statement]
  refine Text.Pattern.notMem_fill (by decide) (by decide) fun word hword => ?_
  rcases List.mem_pair.mp hword with rfl | rfl
  · simp [hclause]
  · exact hmodule

/-- The imports hold no backtick if the one of the tag does not. -/
theorem Catalogue.backtick_notMem_imports {c : Catalogue}
    (h : '\x60' ∉ c.settings.gqlImport.statement.toList) :
    '\x60' ∉ ("\n".intercalate (c.imports clientImports)).toList := by
  refine Text.notMem_intercalate (by decide) fun statement hstatement => ?_
  have hclient : ∀ x ∈ clientImports, '\x60' ∉ x.toList := by decide
  rcases (mem_mergeImports _ _ _).mp hstatement with rfl | hrequested
  · exact h
  · exact hclient statement hrequested

end GraphqlClient
