import GraphqlClient.Proofs.Command.Load
import GraphqlClient.Proofs.Command.Write

/-!
# Runs

A run that fails leaves the file system as it was, at whatever stage it fails, and so does a run
that prints. A run that writes leaves the client of the documents that were found at the path it was
asked to write, and leaves everything else as it was. It reads everything before it writes, so that
the path may be one of those it reads.
-/

namespace GraphqlClient

/-- What a request reads before its client is generated: the settings that its configuration spells,
or the default ones; a schema, if it names one; the files that are found; and the documents that
stand in these files, in the order in which they were found. -/
structure Request.Reads (r : Request) (listing : Listing) (view : View) (settings : Settings)
    (files : Warned (List FoundFile)) (documents : List SourceDocument) : Prop where
  byDefault : r.config = none → settings = Options.settings {}
  configured : ∀ path, r.config = some path → ∃ text options, view.Holds path text ∧
    Options.ofText text = .ok options ∧ settings = options.settings
  schema : ∀ path, r.schema = some path → ∃ text schema, view.Holds path text ∧
    Schema.ofText text = .ok schema
  found : findFiles listing view.look r.extensions r.paths = .ok files
  loaded : List.Forall₂ (fun f document => f.Holds view document) files.value documents

/-- A request asks for a text: that of the client for the documents that stand in its files, if all
that it names can be read. -/
def Request.Generates (r : Request) (listing : Listing) (view : View) (text : String) : Prop :=
  ∃ settings files documents, r.Reads listing view settings files documents ∧
    (generateFile settings documents).value = .ok text

section Generation

variable {r : Request} {listing : Listing} {view : View} {settings : Settings}
  {files : Warned (List FoundFile)} {documents : List SourceDocument}

/-- A request is prepared when configuration and schema can be read and the search does not end. -/
theorem Request.prepare_eq_ok_iff :
    r.prepare listing view = .ok (settings, files) ↔
      r.settings view = .ok settings ∧ (∃ schema, r.readSchema view = .ok schema) ∧
        findFiles listing view.look r.extensions r.paths = .ok files := by
  rw [Request.prepare]
  simp only [bind_eq_ok_iff, mapError_eq_ok_iff]
  constructor
  · rintro ⟨_, hsettings, schema, hschema, _, hfiles, h⟩
    cases h
    exact ⟨hsettings, ⟨schema, hschema⟩, hfiles⟩
  · rintro ⟨hsettings, ⟨schema, hschema⟩, hfiles⟩
    exact ⟨settings, hsettings, schema, hschema, files, hfiles, rfl⟩

/-- What a request reads is what it is prepared with and the documents that are loaded. -/
theorem Request.reads_iff :
    r.Reads listing view settings files documents ↔
      r.prepare listing view = .ok (settings, files) ∧
        loadFiles view files.value = .ok documents := by
  rw [prepare_eq_ok_iff, settings_eq_ok_iff, exists_readSchema_eq_ok_iff, loadFiles_eq_ok_iff]
  constructor
  · rintro ⟨hdefault, hconfig, hschema, hfound, hloaded⟩
    exact ⟨⟨⟨hdefault, hconfig⟩, hschema, hfound⟩, hloaded⟩
  · rintro ⟨⟨⟨hdefault, hconfig⟩, hschema, hfound⟩, hloaded⟩
    exact ⟨hdefault, hconfig, hschema, hfound, hloaded⟩

/-- From what a request reads its client is generated, with the warnings of the search before those
of the generation. -/
theorem Request.Reads.generate_eq (h : r.Reads listing view settings files documents) :
    r.generate listing view =
      ⟨((generateFile settings documents).value.map (⟨·, documents.length⟩)).mapError .generation,
        files.warnings ++ (generateFile settings documents).warnings⟩ := by
  obtain ⟨hprepare, hload⟩ := reads_iff.mp h
  simp only [generate, hprepare, hload]

/-- A client is generated when all can be read that it needs and there is a file for the documents. -/
theorem Request.generate_eq_ok_iff {file : GeneratedFile} :
    (r.generate listing view).value = .ok file ↔
      ∃ settings files documents, r.Reads listing view settings files documents ∧
        (generateFile settings documents).value = .ok file.text ∧
        file.documents = documents.length := by
  constructor
  · intro h
    obtain ⟨settings, files, documents, hreads⟩ :
        ∃ settings files documents, r.Reads listing view settings files documents := by
      rw [generate] at h
      split at h
      · cases h
      · next settings files hprepare =>
        split at h
        · cases h
        · next documents hload =>
          exact ⟨settings, files, documents, reads_iff.mpr ⟨hprepare, hload⟩⟩
    rw [hreads.generate_eq, mapError_eq_ok_iff] at h
    obtain ⟨text, htext, rfl⟩ := map_eq_ok_iff.mp h
    exact ⟨settings, files, documents, hreads, htext, rfl⟩
  · rintro ⟨settings, files, documents, hreads, htext, hcount⟩
    rw [hreads.generate_eq, mapError_eq_ok_iff]
    exact map_eq_ok_iff.mpr ⟨file.text, htext, by rw [← hcount]⟩

/-- A client that is generated has the text that the request asks for, and only then is there one. -/
theorem Request.generates_iff {text : String} :
    r.Generates listing view text ↔
      ∃ file, (r.generate listing view).value = .ok file ∧ file.text = text := by
  simp only [generate_eq_ok_iff]
  constructor
  · rintro ⟨settings, files, documents, hreads, htext⟩
    exact ⟨⟨text, documents.length⟩, ⟨settings, files, documents, hreads, htext, rfl⟩, rfl⟩
  · rintro ⟨file, ⟨settings, files, documents, hreads, htext, -⟩, rfl⟩
    exact ⟨settings, files, documents, hreads, htext⟩

/-- The text that a request asks for is the same wherever it is to go. -/
theorem Request.generates_output_iff {text : String} (output : Option String) :
    Request.Generates { r with output } listing view text ↔ r.Generates listing view text := by
  rw [generates_iff, generates_iff]
  rfl

end Generation

/-- How a run ends: without a client, with one that is printed, with one that is written, or with one
that cannot be written. Only in the third case is the file system another one afterwards. -/
inductive Request.Outcome (r : Request) (listing : Listing) (system : FileSystem) :
    Report × FileSystem → Prop
  | failed {error : RequestError} (h : (r.generate listing system.view).value = .error error) :
      Outcome r listing system (error.report, system)
  | printed {file : GeneratedFile} (h : (r.generate listing system.view).value = .ok file)
      (houtput : r.output = none) : Outcome r listing system (file.printed, system)
  | written {file : GeneratedFile} {path : String} {after : FileSystem}
      (h : (r.generate listing system.view).value = .ok file) (houtput : r.output = some path)
      (hwrite : system.write path file.text.toUTF8 = .ok after) :
      Outcome r listing system (file.written path, after)
  | unwritten {file : GeneratedFile} {path : String} {fault : PathFault}
      (h : (r.generate listing system.view).value = .ok file) (houtput : r.output = some path)
      (hwrite : system.write path file.text.toUTF8 = .error fault) :
      Outcome r listing system (writeFailure path fault.message, system)

/-- A run ends in one of these ways. -/
theorem Request.run_outcome (r : Request) (listing : Listing) (system : FileSystem) :
    r.Outcome listing system (r.run listing system).value := by
  simp only [Request.run]
  match hgenerated : (r.generate listing system.view).value, houtput : r.output with
  | .error error, _ => exact .failed hgenerated
  | .ok file, none => exact .printed hgenerated houtput
  | .ok file, some path =>
    match hwrite : system.write path file.text.toUTF8 with
    | .ok after =>
      simp only [hwrite]
      exact .written hgenerated houtput hwrite
    | .error fault =>
      simp only [hwrite]
      exact .unwritten hgenerated houtput hwrite

namespace Request.Outcome

variable {r : Request} {listing : Listing} {system after : FileSystem} {message : String}

/-- A run that fails leaves the file system as it was. -/
theorem eq_of_error (h : r.Outcome listing system (.error message, after)) : after = system := by
  generalize hresult : ((.error message, after) : Report × FileSystem) = result at h
  cases h with
  | failed | unwritten => exact congrArg Prod.snd hresult
  | printed | written => cases congrArg Prod.fst hresult

/-- So does a run that prints. -/
theorem eq_of_output_eq_none (h : r.Outcome listing system (.ok message, after)) (hnone : r.output = none) :
    after = system := by
  generalize hresult : ((.ok message, after) : Report × FileSystem) = result at h
  cases h with
  | failed | unwritten => cases congrArg Prod.fst hresult
  | printed => exact congrArg Prod.snd hresult
  | written _ houtput => cases hnone.symm.trans houtput

/-- A run that succeeds in writing leaves the client at its path and everything else as it was. -/
theorem written_of_output_eq_some (h : r.Outcome listing system (.ok message, after)) {path : String}
    (hsome : r.output = some path) :
    ∃ text, r.Generates listing system.view text ∧ system.Written path text.toUTF8 after := by
  generalize hresult : ((.ok message, after) : Report × FileSystem) = result at h
  cases h with
  | failed | unwritten => cases congrArg Prod.fst hresult
  | printed _ houtput => cases hsome.symm.trans houtput
  | @written file target after hgenerated houtput hwrite =>
    cases hsome.symm.trans houtput
    cases congrArg Prod.snd hresult
    exact ⟨file.text, generates_iff.mpr ⟨file, hgenerated, rfl⟩, FileSystem.written_of_write hwrite⟩

/-- A run succeeds when there is a client and it can be written, if it is to be. -/
theorem isOk_iff {report : Report} (h : r.Outcome listing system (report, after)) :
    (∃ message, report = .ok message) ↔
      ∃ text, r.Generates listing system.view text ∧
        ∀ path, r.output = some path → ∃ after, system.write path text.toUTF8 = .ok after := by
  generalize hresult : ((report, after) : Report × FileSystem) = result at h
  obtain rfl : report = result.1 := congrArg Prod.fst hresult
  cases h with
  | failed herror =>
    refine ⟨nofun, fun ⟨text, htext, _⟩ => ?_⟩
    obtain ⟨file, hfile, -⟩ := generates_iff.mp htext
    cases herror.symm.trans hfile
  | printed hfile hnone =>
    refine ⟨fun _ => ⟨_, generates_iff.mpr ⟨_, hfile, rfl⟩, fun path hsome => ?_⟩, fun _ => ⟨_, rfl⟩⟩
    cases hnone.symm.trans hsome
  | written hfile hsome hwrite =>
    refine ⟨fun _ => ⟨_, generates_iff.mpr ⟨_, hfile, rfl⟩, fun path hpath => ?_⟩, fun _ => ⟨_, rfl⟩⟩
    cases hsome.symm.trans hpath
    exact ⟨_, hwrite⟩
  | unwritten hfile hsome hwrite =>
    refine ⟨nofun, fun ⟨text, htext, hwrites⟩ => ?_⟩
    obtain ⟨other, hother, rfl⟩ := generates_iff.mp htext
    cases hfile.symm.trans hother
    obtain ⟨after, hafter⟩ := hwrites _ hsome
    cases hwrite.symm.trans hafter

end Request.Outcome

/-- A run is all or nothing, whatever arguments its request was read from. If it fails, the file
system is as it was, and so it is if there is nothing to write. If it succeeds in writing, the path
holds the text of the client for the documents that were found before, and everything else is as it
was. It fails only if there is no such client or the path cannot be written. -/
theorem Request.run_all_or_nothing (r : Request) (listing : Listing) (system : FileSystem) :
    (∀ message, (r.run listing system).value.1 = .error message →
        (r.run listing system).value.2 = system) ∧
      (∀ message, (r.run listing system).value.1 = .ok message → r.output = none →
        (r.run listing system).value.2 = system) ∧
      (∀ message path, (r.run listing system).value.1 = .ok message → r.output = some path →
        ∃ text, r.Generates listing system.view text ∧
          system.Written path text.toUTF8 (r.run listing system).value.2) ∧
      ((∃ message, (r.run listing system).value.1 = .ok message) ↔
        ∃ text, r.Generates listing system.view text ∧
          ∀ path, r.output = some path → ∃ after, system.write path text.toUTF8 = .ok after) := by
  have houtcome : r.Outcome listing system
      ((r.run listing system).value.1, (r.run listing system).value.2) :=
    r.run_outcome listing system
  refine ⟨fun message hmessage => ?_, fun message hmessage hnone => ?_,
    fun message path hmessage hsome => ?_, houtcome.isOk_iff⟩
  · exact (hmessage ▸ houtcome).eq_of_error
  · exact (hmessage ▸ houtcome).eq_of_output_eq_none hnone
  · exact (hmessage ▸ houtcome).written_of_output_eq_some hsome

/-- A directory with one query in it. -/
def oneQuery : FileSystem where
  root := .directory [("a.graphql", .file "query Q \x7b a \x7d".toUTF8)]
  workingDirectory := []

/-- A request to put the client where the query is. -/
def inPlace : Request :=
  { output := some "a.graphql", extensions := ["graphql"], paths := ["a.graphql"] }

/-- The same directory if the system refuses to read the query. -/
def oneRefused : FileSystem :=
  { oneQuery with refusal := fun _ => some "Permission denied (os error 13)" }

/-- A run on a path that is not there changes nothing, nor does one on a file that is refused, nor one
that prints, and one that writes replaces the query by its client. -/
theorem Request.run_all_or_nothing_in_place :
    (∃ message, (Request.run { inPlace with paths := ["b.graphql"] } .forwards oneQuery).value =
        (.error message, oneQuery)) ∧
      (∃ message, (inPlace.run .forwards oneRefused).value = (.error message, oneRefused)) ∧
      (∃ message, (Request.run { inPlace with output := none } .forwards oneQuery).value =
        (.ok message, oneQuery)) ∧
      ∃ text message, inPlace.Generates .forwards oneQuery.view text ∧
        (inPlace.run .forwards oneQuery).value.1 = .ok message ∧
        oneQuery.Written "a.graphql" text.toUTF8 (inPlace.run .forwards oneQuery).value.2 := by
  have hfails {r : Request} {system : FileSystem}
      (h : (r.run .forwards system).value.1.toBool = false) :
      ∃ message, (r.run .forwards system).value = (.error message, system) := by
    match hmessage : (r.run .forwards system).value.1, h with
    | .error message, _ =>
      exact ⟨message, Prod.ext hmessage ((run_all_or_nothing r .forwards system).1 _ hmessage)⟩
  obtain ⟨file, hfile⟩ := exists_eq_ok_of_toBool
    (show (inPlace.generate .forwards oneQuery.view).value.toBool = true by decide +kernel)
  obtain ⟨names, hnames⟩ := exists_eq_ok_of_toBool
    (show (oneQuery.target "a.graphql").toBool = true by decide +kernel)
  have htext : inPlace.Generates .forwards oneQuery.view file.text :=
    generates_iff.mpr ⟨file, hfile, rfl⟩
  refine ⟨hfails (by decide +kernel), hfails (by decide +kernel), ?_, ?_⟩
  · obtain ⟨-, hprinted, -, hsucceeds⟩ :=
      run_all_or_nothing { inPlace with output := none } .forwards oneQuery
    obtain ⟨message, hmessage⟩ := hsucceeds.mpr
      ⟨file.text, (generates_output_iff none).mpr htext, nofun⟩
    exact ⟨message, Prod.ext hmessage (hprinted message hmessage rfl)⟩
  · obtain ⟨-, -, hwritten, hsucceeds⟩ := run_all_or_nothing inPlace .forwards oneQuery
    obtain ⟨message, hmessage⟩ := hsucceeds.mpr ⟨file.text, htext, fun _ h =>
      Option.some.inj h ▸ ⟨_, bind_eq_ok_iff.mpr ⟨names, hnames, rfl⟩⟩⟩
    obtain ⟨written, hgenerates, hcontent⟩ := hwritten message "a.graphql" hmessage rfl
    exact ⟨written, message, hgenerates, hmessage, hcontent⟩

end GraphqlClient
