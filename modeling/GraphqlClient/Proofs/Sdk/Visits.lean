import GraphqlClient.Proofs.Fragments.Reach
import GraphqlClient.Proofs.Sdk.Contents

/-!
# Visits

A draft that came about by visits holds one record and one declaration for each named operation
that was visited, in the same order, and they belong together. A visit adds to it what the single
definitions of the document contribute.
-/

namespace GraphqlClient

/-- The drafts that visits lead to from an empty one, with the documents that were visited. -/
inductive Draft.Reached (c : Catalogue) : List SourceDocument → Draft → Prop
  | start : Reached c [] (.ofCatalogue c)
  | visit {visited : List SourceDocument} {d : Draft} (h : Reached c visited d)
      (s : SourceDocument) : Reached c (visited ++ [s]) (d.visit s).value

/-- The operations of a document that are written with a name, each with the document's file. -/
def SourceDocument.written (s : SourceDocument) : List (Option String × Operation) :=
  s.document.filterMap fun
    | .operation o => if o.name.isSome then some (s.file, o) else none
    | _ => none

/-- A record of an operation that is written in a file. -/
structure OperationRecord.Records (s : Settings) (file : Option String) (o : Operation)
    (r : OperationRecord) : Prop where
  kind : r.operation.kind = o.kind
  name : some r.operation.name = o.name
  variableDefinitions : r.operation.variableDefinitions = o.variableDefinitions
  location : r.operation.location = some ⟨file, o.position⟩
  operationType : r.names.operationType = o.kind.keyword
  names : r.names = Naming.operationNames s o.kind r.operation.name

/-- What the visit of a definition adds. -/
structure Contribution where
  warnings : List Warning
  records : List OperationRecord
  declarations : List Declaration

/-- What a definition of a file has to contribute: nothing if it is a fragment, a warning if it is
an anonymous operation, and else a record and a declaration, the latter with a warning for each name
that it spreads although no fragment of the name is loaded. -/
inductive Catalogue.Contributes (c : Catalogue) (file : Option String) :
    Definition → Contribution → Prop
  | fragment (f : Fragment) : Contributes c file (.fragment f) ⟨[], [], []⟩
  | shorthand (selections : List Selection) :
      Contributes c file (.shorthand selections) ⟨[.anonymousOperation file], [], []⟩
  | anonymous {o : Operation} (h : o.name = none) :
      Contributes c file (.operation o) ⟨[.anonymousOperation file], [], []⟩
  | named {o : Operation} {r : OperationRecord} {d : Declaration} {unknown : List String}
      (hrecord : r.Records c.settings file o) (hconstant : d.constant = r.names.document)
      (hdefinition : d.definition = o.print) (honce : unknown.Nodup)
      (hunknown : ∀ name,
        name ∈ unknown ↔ SpreadIn name o.selections ∧ c.fragments.contains name = false) :
      Contributes c file (.operation o)
        ⟨unknown.map (Warning.unknownFragment r.names.document), [r], [d]⟩

/-- What the outcome of a definition adds. -/
def Outcome.contribution (o : Outcome) : Contribution :=
  ⟨o.warnings, (o.declared?.map Prod.fst).toList, (o.declared?.map Prod.snd).toList⟩

/-- An operation with a name is recorded as it is written. -/
theorem Operation.records_of_named? {file : Option String} {o : Operation} {named : NamedOperation}
    (h : o.named? file = some named) (s : Settings) : (named.record s).Records s file o := by
  obtain ⟨name, hname, rfl⟩ := Option.map_eq_some_iff.mp h
  exact ⟨rfl, hname.symm, rfl, rfl, rfl, rfl⟩

/-- The outcome of a definition adds what the definition has to contribute. -/
theorem Catalogue.contributes_outcome (c : Catalogue) (file : Option String)
    (definition : Definition) :
    c.Contributes file definition (c.outcome file definition).contribution := by
  cases definition with
  | fragment f => exact .fragment f
  | shorthand selections => exact .shorthand selections
  | operation o =>
    cases hnamed : o.named? file with
    | none =>
      have houtcome : c.outcome file (.operation o) = .skipped (.anonymousOperation file) := by
        simp only [outcome, hnamed]
      rw [houtcome]
      exact .anonymous (Option.map_eq_none_iff.mp hnamed)
    | some named =>
      have houtcome : c.outcome file (.operation o) =
          .declared (named.record c.settings) (c.declareOperation (named, o)) := by
        simp only [outcome, hnamed]
        rfl
      rw [houtcome]
      refine .named (Operation.records_of_named? hnamed c.settings) rfl rfl
        ((nodup_directSpreads o.selections).filter _) fun name => ?_
      rw [List.mem_filter, mem_directSpreads, Bool.not_eq_true']

/-- The values of an option-valued function, one part at a time. -/
theorem map_filterMap_eq_flatMap {α β γ : Type} (f : α → Option β) (g : β → γ) (xs : List α) :
    (xs.filterMap f).map g = xs.flatMap fun x => ((f x).map g).toList := by
  rw [List.map_filterMap, List.filterMap_eq_flatMap_toList]

namespace Draft

/-- A visit appends the records and declarations of a document. -/
theorem visit_value (d : Draft) (s : SourceDocument) :
    (d.visit s).value =
      ⟨d.catalogue, ⟨d.recording.records ++ (d.catalogue.visit s).value.map Prod.fst⟩,
        d.declarations ++ (d.catalogue.visit s).value.map Prod.snd⟩ :=
  foldl_add d _

/-- A visit adds the contributions of the document's definitions, and a recording adds no text. -/
theorem visit_contributions (d : Draft) (s : SourceDocument) :
    ∃ contributions, List.Forall₂ (d.catalogue.Contributes s.file) s.document contributions ∧
      (d.visit s).warnings = contributions.flatMap Contribution.warnings ∧
      (d.visit s).value.operations = d.operations ++ contributions.flatMap Contribution.records ∧
      (d.visit s).value.declarations =
        d.declarations ++ contributions.flatMap Contribution.declarations ∧
      interleave (fun r => (d.recording.build r).1) (d.catalogue.visit s).value =
        (contributions.flatMap Contribution.declarations).map Declaration.text := by
  have hdeclarations : (d.catalogue.visit s).value.map Prod.snd =
      (d.catalogue.outcomes s).flatMap fun o => o.contribution.declarations :=
    map_filterMap_eq_flatMap Outcome.declared? Prod.snd _
  have hrecords : (d.catalogue.visit s).value.map Prod.fst =
      (d.catalogue.outcomes s).flatMap fun o => o.contribution.records :=
    map_filterMap_eq_flatMap Outcome.declared? Prod.fst _
  refine ⟨(d.catalogue.outcomes s).map Outcome.contribution, ?_, ?_, ?_, ?_, ?_⟩
  · rw [Catalogue.outcomes, List.map_map, List.forall₂_map_right_iff, List.forall₂_same]
    exact fun definition _ => d.catalogue.contributes_outcome s.file definition
  · rw [List.flatMap_map]
    rfl
  · rw [List.flatMap_map, visit_value, ← hrecords]
    rfl
  · rw [List.flatMap_map, visit_value, ← hdeclarations]
  · rw [List.flatMap_map, ← hdeclarations, List.map_map, List.map_eq_flatMap]
    rfl

/-- A draft that is reached by visits holds the records and declarations of what was visited. -/
theorem Reached.eq {c : Catalogue} {visited : List SourceDocument} {d : Draft}
    (h : Reached c visited d) :
    d = ⟨c, ⟨operationRecords c.settings visited⟩, c.operationDeclarations visited⟩ := by
  induction h with
  | start => rfl
  | visit h s ih =>
    rw [visit_value, Catalogue.visit_value, ih]
    simp [operationRecords, Catalogue.operationDeclarations, namedOperations, Function.comp_def]

end Draft

/-- The named operations of a document are those that are written in it. -/
theorem SourceDocument.forall₂_written (s : SourceDocument) :
    List.Forall₂ (fun o w => w.2.named? w.1 = some o.1 ∧ o.2 = w.2) s.namedOperations s.written := by
  rw [namedOperations, written]
  induction s.document with
  | nil => exact .nil
  | cons definition definitions ih =>
    cases definition with
    | shorthand selections => exact ih
    | fragment f => exact ih
    | operation o =>
      cases hname : o.name with
      | none => simpa [Operation.named?, hname] using ih
      | some name => simpa [Operation.named?, hname] using ih

/-- The named operations of some documents are those that are written in them. -/
theorem forall₂_written (documents : List SourceDocument) :
    List.Forall₂ (fun o w => w.2.named? w.1 = some o.1 ∧ o.2 = w.2) (namedOperations documents)
      (documents.flatMap SourceDocument.written) := by
  induction documents with
  | nil => exact .nil
  | cons s documents ih => exact List.rel_append s.forall₂_written ih

/-- The text of a declaration begins with its constant. -/
theorem Declaration.prefix_text (d : Declaration) :
    ("export const " ++ d.constant ++ " = gql\x60").toList <+: d.text.toList := by
  have hquote : " = gql\x60\n" = " = gql\x60" ++ "\n" := by decide
  refine ⟨("\n" ++ d.body ++ d.holes ++ "\x60;").toList, ?_⟩
  unfold text
  simp only [hquote, String.toList_append, List.append_assoc]

/-- Records and declarations of a draft that belong together, for the operations that are written
with a name in the visited documents: there are as many of the ones as of the others, in the order
of the operations, and each declaration begins with the constant of the record at its place. The
next visit adds what each definition of its document has to contribute, and emits no text but that
of the declarations. -/
structure Draft.Aligned (c : Catalogue) (visited : List SourceDocument) (d : Draft) : Prop where
  length_eq : d.operations.length = d.declarations.length
  records : List.Forall₂ (fun r w => r.Records c.settings w.1 w.2) d.operations
    (visited.flatMap SourceDocument.written)
  definitions : List.Forall₂ (fun declaration w => declaration.definition = w.2.print)
    d.declarations (visited.flatMap SourceDocument.written)
  constants : ∀ (i : Nat) (r : OperationRecord) (declaration : Declaration),
    d.operations[i]? = some r → d.declarations[i]? = some declaration →
      ("export const " ++ r.names.document ++ " = gql\x60").toList <+: declaration.text.toList
  next : ∀ s : SourceDocument, ∃ contributions,
    List.Forall₂ (c.Contributes s.file) s.document contributions ∧
      (d.visit s).warnings = contributions.flatMap Contribution.warnings ∧
      (d.visit s).value.operations = d.operations ++ contributions.flatMap Contribution.records ∧
      (d.visit s).value.declarations =
        d.declarations ++ contributions.flatMap Contribution.declarations ∧
      interleave (fun r => (d.recording.build r).1) (d.catalogue.visit s).value =
        (contributions.flatMap Contribution.declarations).map Declaration.text

/-- Records and declarations belong together in every draft that visits lead to. -/
theorem Draft.Reached.aligned {c : Catalogue} {visited : List SourceDocument} {d : Draft}
    (h : Reached c visited d) : d.Aligned c visited := by
  obtain rfl := h.eq
  have hwritten := forall₂_written visited
  refine ⟨by simp [operations, operationRecords, Catalogue.operationDeclarations], ?_, ?_, ?_,
    fun s => visit_contributions ⟨c, ⟨_⟩, _⟩ s⟩
  · rw [Draft.operations, operationRecords, List.forall₂_map_left_iff]
    exact hwritten.imp fun o w hw => Operation.records_of_named? hw.1 c.settings
  · rw [Catalogue.operationDeclarations, List.forall₂_map_left_iff]
    exact hwritten.imp fun o w hw => congrArg Operation.print hw.2
  · intro i r declaration hr hdeclaration
    have hat : ∀ {α : Type} (f : NamedOperation × Operation → α) {x : α},
        ((namedOperations visited).map f)[i]? = some x →
          ∃ o, (namedOperations visited)[i]? = some o ∧ f o = x := by
      intro α f x hx
      rw [List.getElem?_map] at hx
      exact Option.map_eq_some_iff.mp hx
    obtain ⟨o, ho, rfl⟩ := hat _ hr
    obtain ⟨o', ho', rfl⟩ := hat _ hdeclaration
    obtain rfl : o = o' := Option.some.inj (ho.symm.trans ho')
    have hconstant : (c.declareOperation o).value.constant = (o.1.record c.settings).names.document :=
      rfl
    exact hconstant ▸ (c.declareOperation o).value.prefix_text

/-- A file with a fragment, a query without a name and one with a name. -/
def queryFile : SourceDocument :=
  ⟨[.fragment ⟨"A", "Node", [], [], .start⟩, .shorthand [.field none "id" [] [] []],
    .operation ⟨.query, some "find", [], [], [.spread "A" [], .spread "B" []], .start⟩],
    some "a.graphql"⟩

/-- A text with a mutation without a name and a subscription with a name. -/
def watchText : SourceDocument :=
  ⟨[.operation ⟨.mutation, none, [], [], [.field none "run" [] [] []], .start⟩,
    .operation ⟨.subscription, some "watch", [], [], [.spread "A" []], .start⟩], none⟩

/-- Two visits lead to a draft of two operations, whose records and declarations belong together. -/
theorem Draft.Reached.aligned_two_visits :
    ∃ (c : Catalogue) (d : Draft), c.fragments.items = loadedFragments [queryFile, watchText] ∧
      Draft.Reached c [queryFile, watchText] d ∧ d.operations.length = 2 ∧
      d.Aligned c [queryFile, watchText] := by
  let c : Catalogue :=
    ⟨({} : Options).settings, ⟨loadedFragments [queryFile, watchText], by decide⟩⟩
  have hreached : Draft.Reached c [queryFile, watchText] _ :=
    (Draft.Reached.start.visit queryFile).visit watchText
  exact ⟨c, _, rfl, hreached, rfl, hreached.aligned⟩

end GraphqlClient
