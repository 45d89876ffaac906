import GraphqlClient.Proofs.Command.Run
import GraphqlClient.Proofs.Sdk.Contents

/-!
# Clients that are printed

A generated file ends in the closing brace of its factory and one newline, whatever the settings and
the documents are. So trimming takes that newline away and nothing else, and what is printed is what
would be written but for the newline.
-/

namespace GraphqlClient

/-- The text of a factory ends in its closing brace. -/
theorem exists_factoryText_eq {records : List OperationRecord} {factory : String}
    (h : factoryText records = .ok factory) : ∃ front, factory = front ++ "\x7d" := by
  obtain ⟨texts, -, hfactory⟩ := bind_eq_ok_iff.mp h
  exact ⟨_, (Except.ok.inj hfactory).symm⟩

/-- Joined blocks end as the last of them does, and in a newline. -/
theorem exists_joinBlocks_eq (blocks : List String) (last : String) :
    ∃ front, joinBlocks (blocks ++ [last]) = front ++ last ++ "\n" := by
  rw [joinBlocks]
  cases blocks with
  | nil => exact ⟨"", by rw [List.nil_append, String.intercalate_singleton, String.empty_append]⟩
  | cons first rest =>
    rw [String.intercalate_append_of_ne_nil (List.cons_ne_nil first rest) (List.cons_ne_nil last []),
      String.intercalate_singleton]
    exact ⟨_, rfl⟩

/-- A generated file ends in a closing brace and a newline. -/
theorem exists_generateFile_eq {settings : Settings} {documents : List SourceDocument}
    {text : String} (h : (generateFile settings documents).value = .ok text) :
    ∃ front, text = front ++ "\x7d" ++ "\n" := by
  obtain ⟨fragments, factory, -, hfactory, rfl⟩ := generateFile_eq_ok_iff.mp h
  obtain ⟨body, rfl⟩ := exists_factoryText_eq hfactory
  rw [Catalogue.blocks]
  obtain ⟨front, hfront⟩ := exists_joinBlocks_eq _ (body ++ "\x7d")
  exact ⟨front ++ body, by rw [hfront, ← String.append_assoc]⟩

/-- Of a text that ends in a closing brace and a newline, the newline is trimmed. -/
theorem trimEnd_brace_newline (front : String) :
    String.ofList (Text.trimEnd (front ++ "\x7d" ++ "\n").toList) = front ++ "\x7d" := by
  have hbrace : (front ++ "\x7d").toList = front.toList ++ ['\x7d'] := String.toList_append
  have hnewline : (front ++ "\x7d" ++ "\n").toList = (front ++ "\x7d").toList ++ ['\n'] :=
    String.toList_append
  rw [hnewline, Text.trimEnd_append_blank _ _ (by decide), hbrace,
    Text.trimEnd_append_singleton _ _ (by decide), ← hbrace, String.ofList_toList]

/-- A run that prints has a client, of which it prints all but the blanks at the end. -/
theorem Request.Outcome.printed_of_output_eq_none {r : Request} {listing : Listing}
    {system after : FileSystem} {message : String}
    (h : r.Outcome listing system (.ok message, after)) (hnone : r.output = none) :
    ∃ file, (r.generate listing system.view).value = .ok file ∧
      String.ofList (Text.trimEnd file.text.toList) = message := by
  generalize hresult : ((.ok message, after) : Report × FileSystem) = result at h
  cases h with
  | failed | unwritten => cases congrArg Prod.fst hresult
  | written _ houtput => cases hnone.symm.trans houtput
  | @printed file hgenerated =>
    exact ⟨file, hgenerated, (Except.ok.inj (congrArg Prod.fst hresult)).symm⟩

/-- What becomes of a request that prints if it is to write to a path instead: there are the same
warnings, the path holds the printed text and one newline, and only if that cannot be written does
the run fail. -/
structure Request.WritesPrinted (r : Request) (listing : Listing) (system : FileSystem)
    (printed path : String) : Prop where
  warnings : (Request.run { r with output := some path } listing system).warnings =
    (r.run listing system).warnings
  content : ∀ message after,
    (Request.run { r with output := some path } listing system).value = (.ok message, after) →
      after.lookup path = .ok (.file (printed ++ "\n").toUTF8)
  succeeds :
    (∃ message,
        (Request.run { r with output := some path } listing system).value.1 = .ok message) ↔
      ∃ after, system.write path (printed ++ "\n").toUTF8 = .ok after

/-- A run that prints a client prints all of it but the last newline: the printed text ends in a
closing brace, the client is that text and one newline, and where a path is to be written it holds
just these. -/
theorem Request.run_printed {r : Request} {listing : Listing} {system : FileSystem}
    {printed : String} (hnone : r.output = none)
    (hok : (r.run listing system).value.1 = .ok printed) :
    (∀ text, r.Generates listing system.view text ↔ text = printed ++ "\n") ∧
      printed.toList.getLast? = some '\x7d' ∧
      ∀ path, r.WritesPrinted listing system printed path := by
  have houtcome : r.Outcome listing system (.ok printed, (r.run listing system).value.2) :=
    hok ▸ r.run_outcome listing system
  obtain ⟨file, hfile, hprinted⟩ := houtcome.printed_of_output_eq_none hnone
  obtain ⟨settings, files, documents, -, htext, -⟩ := generate_eq_ok_iff.mp hfile
  obtain ⟨front, hfront⟩ := exists_generateFile_eq htext
  have hbrace : printed = front ++ "\x7d" := by rw [← hprinted, hfront, trimEnd_brace_newline]
  have hgenerates : ∀ text, r.Generates listing system.view text ↔ text = printed ++ "\n" := by
    intro text
    rw [generates_iff, hbrace, ← hfront]
    constructor
    · rintro ⟨other, hother, rfl⟩
      cases hfile.symm.trans hother
      rfl
    · rintro rfl
      exact ⟨file, hfile, rfl⟩
  refine ⟨hgenerates, ?_, fun path => ?_⟩
  · rw [hbrace, String.toList_append]
    exact List.getLast?_concat
  · have hwriting : Request.Outcome { r with output := some path } listing system
        ((Request.run { r with output := some path } listing system).value.1,
          (Request.run { r with output := some path } listing system).value.2) :=
      Request.run_outcome _ listing system
    have htexts : ∀ text,
        Request.Generates { r with output := some path } listing system.view text ↔
          text = printed ++ "\n" :=
      fun text => (generates_output_iff (some path)).trans (hgenerates text)
    refine ⟨rfl, fun message after hvalue => ?_, ?_⟩
    · rw [hvalue] at hwriting
      obtain ⟨text, htext, hwritten⟩ := hwriting.written_of_output_eq_some rfl
      rw [← (htexts text).mp htext]
      exact hwritten.content
    · rw [hwriting.isOk_iff]
      constructor
      · rintro ⟨text, htext, hwrites⟩
        rw [← (htexts text).mp htext]
        exact hwrites path rfl
      · rintro ⟨after, hafter⟩
        refine ⟨_, (htexts _).mpr rfl, fun other hother => ?_⟩
        cases hother
        exact ⟨after, hafter⟩

/-- A directory with a query that has no name. -/
def oneAnonymous : FileSystem where
  root := .directory [("a.graphql", .file "\x7b a \x7d".toUTF8)]
  workingDirectory := []

/-- A request to print the client of what lies in the working directory. -/
def toScreen : Request := { extensions := ["graphql"], paths := ["."] }

/-- A client without methods is printed without its last newline, and written with it. -/
theorem Request.run_printed_no_methods :
    toScreen.output = none ∧
      ∃ printed, (toScreen.run .forwards oneAnonymous).value.1 = .ok printed ∧
        toScreen.Generates .forwards oneAnonymous.view (printed ++ "\n") ∧
        ∃ message after,
          (Request.run { toScreen with output := some "sdk.ts" } .forwards oneAnonymous).value =
            (.ok message, after) ∧
          after.lookup "sdk.ts" = .ok (.file (printed ++ "\n").toUTF8) := by
  obtain ⟨printed, hprinted⟩ := exists_eq_ok_of_toBool
    (show (toScreen.run .forwards oneAnonymous).value.1.toBool = true by decide +kernel)
  obtain ⟨hgenerates, -, hwrites⟩ := run_printed rfl hprinted
  have hwrite : ∃ after, oneAnonymous.write "sdk.ts" (printed ++ "\n").toUTF8 = .ok after := by
    obtain ⟨names, hnames⟩ := exists_eq_ok_of_toBool
      (show (oneAnonymous.target "sdk.ts").toBool = true by decide +kernel)
    exact ⟨_, bind_eq_ok_iff.mpr ⟨names, hnames, rfl⟩⟩
  obtain ⟨message, hmessage⟩ := (hwrites "sdk.ts").succeeds.mpr hwrite
  exact ⟨rfl, printed, hprinted, (hgenerates _).mpr rfl, message, _, Prod.ext hmessage rfl,
    (hwrites "sdk.ts").content message _ (Prod.ext hmessage rfl)⟩

end GraphqlClient
