import Mathlib.Data.List.Forall2
import GraphqlClient.Command.Generate
import GraphqlClient.Proofs.Sdk.Methods
import GraphqlClient.Proofs.Text.Utf8

/-!
# Reading files

A text is read at a path when a file lies there, the system does not refuse to read it, and its bytes
encode the text. Files that were found are loaded one by one: all of them must hold documents, and
the documents come in the order of the files.
-/

namespace GraphqlClient

variable {view : View}

namespace View

/-- A text stands in the file at a path and may be read. -/
structure Holds (view : View) (path text : String) : Prop where
  file : view.look path = .ok (.file text.toUTF8)
  allowed : view.refusal path = none

/-- Reading a content gives the text that it encodes, if the system allows it. -/
theorem textOf_eq_ok_iff {path text : String} {content : ByteArray} :
    view.textOf path content = .ok text ↔
      view.refusal path = none ∧ content = text.toUTF8 := by
  have hbytes : content.data.toList = Text.bytes text ↔ content = text.toUTF8 :=
    ⟨fun h => ByteArray.ext (Array.toList_inj.mp h), fun h => by rw [h, Text.bytes]⟩
  rw [textOf]
  cases view.refusal path with
  | some wording => simp
  | none => simp [mapError_eq_ok_iff, Text.Utf8.decode_eq_ok_iff, hbytes]

/-- The text at a path is the one that stands there. -/
theorem textAt_eq_ok_iff {path text : String} :
    view.textAt path = .ok text ↔ view.Holds path text := by
  rw [textAt]
  split
  · next content hcontent =>
    rw [textOf_eq_ok_iff]
    constructor
    · rintro ⟨hallowed, rfl⟩
      exact ⟨hcontent, hallowed⟩
    · rintro ⟨hfile, hallowed⟩
      cases hcontent.symm.trans hfile
      exact ⟨hallowed, rfl⟩
  · next hnone =>
    exact iff_of_false (fun h => by cases h) fun h => hnone _ h.file

end View

/-- A document stands in a file that was found: the path of the file can be opened and read, and the
content encodes a text that is read as the document. -/
structure FoundFile.Holds (f : FoundFile) (view : View) (document : SourceDocument) : Prop where
  opens : pathFault? f.path = none
  allowed : view.refusal f.path = none
  document : ∃ text, f.content = text.toUTF8 ∧
    SourceDocument.ofText (some f.path) text = .ok document

/-- Loading a file gives the document that stands in it. -/
theorem FoundFile.load_eq_ok_iff {f : FoundFile} {document : SourceDocument} :
    f.load view = .ok document ↔ f.Holds view document := by
  have htext {text : String} : f.text view = .ok text ↔
      pathFault? f.path = none ∧ view.refusal f.path = none ∧ f.content = text.toUTF8 := by
    rw [FoundFile.text, ← View.textOf_eq_ok_iff]
    cases pathFault? f.path <;> simp
  rw [load]
  simp only [bind_eq_ok_iff, mapError_eq_ok_iff, htext]
  constructor
  · rintro ⟨text, ⟨hopens, hallowed, hcontent⟩, hdocument⟩
    exact ⟨hopens, hallowed, text, hcontent, hdocument⟩
  · rintro ⟨hopens, hallowed, text, hcontent, hdocument⟩
    exact ⟨text, ⟨hopens, hallowed, hcontent⟩, hdocument⟩

/-- Loading files gives the documents that stand in them, one from each and in their order. -/
theorem loadFiles_eq_ok_iff {files : List FoundFile} {documents : List SourceDocument} :
    loadFiles view files = .ok documents ↔
      List.Forall₂ (fun f document => f.Holds view document) files documents := by
  induction files generalizing documents with
  | nil => simp [loadFiles, eq_comm]
  | cons f files ih =>
    rw [loadFiles]
    simp only [bind_eq_ok_iff, FoundFile.load_eq_ok_iff, ih, List.forall₂_cons_left_iff]
    constructor
    · rintro ⟨first, hfirst, others, hothers, h⟩
      exact ⟨first, others, hfirst, hothers, (Except.ok.inj h).symm⟩
    · rintro ⟨first, others, hfirst, hothers, rfl⟩
      exact ⟨first, hfirst, others, hothers, rfl⟩

namespace Request

variable {r : Request}

/-- The settings of a request are those that its configuration spells, or else the default ones. -/
theorem settings_eq_ok_iff {settings : Settings} :
    r.settings view = .ok settings ↔
      (r.config = none → settings = Options.settings {}) ∧
      ∀ path, r.config = some path → ∃ text options, view.Holds path text ∧
        Options.ofText text = .ok options ∧ settings = options.settings := by
  rw [Request.settings]
  cases r.config with
  | none => simp [eq_comm]
  | some path =>
    simp only [bind_eq_ok_iff, mapError_eq_ok_iff, View.textAt_eq_ok_iff, reduceCtorEq,
      false_implies, true_and, Option.some.injEq, forall_eq']
    constructor
    · rintro ⟨text, htext, options, hoptions, h⟩
      exact ⟨text, options, htext, hoptions, (Except.ok.inj h).symm⟩
    · rintro ⟨text, options, htext, hoptions, rfl⟩
      exact ⟨text, htext, options, hoptions, rfl⟩

/-- A request has a schema if the file that it names spells one, or if it names none. -/
theorem exists_readSchema_eq_ok_iff :
    (∃ schema, r.readSchema view = .ok schema) ↔
      ∀ path, r.schema = some path → ∃ text schema, view.Holds path text ∧
        Schema.ofText text = .ok schema := by
  simp only [readSchema]
  cases r.schema with
  | none => simp
  | some path =>
    simp only [bind_eq_ok_iff, mapError_eq_ok_iff, View.textAt_eq_ok_iff, Option.some.injEq,
      forall_eq']
    constructor
    · rintro ⟨schema, text, htext, hschema⟩
      exact ⟨text, schema, htext, hschema⟩
    · rintro ⟨text, schema, htext, hschema⟩
      exact ⟨schema, text, htext, hschema⟩

end Request

end GraphqlClient
