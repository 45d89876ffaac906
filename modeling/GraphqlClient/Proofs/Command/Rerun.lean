import GraphqlClient.Proofs.Command.Listing
import GraphqlClient.Proofs.Command.Run
import GraphqlClient.Proofs.Command.Scan

/-!
# Runs that are repeated

A run that has written its client can be repeated: the second run finds the same documents, says the
same and leaves the file system as it is. It walks another tree than the first run, since there may
be a new file in a directory that is searched; but if the extension of that file is not asked for and
the file is none of those that the request names, no step takes notice of it.
-/

namespace GraphqlClient

/-- Putting an entry in again changes nothing. -/
theorem putEntry_putEntry (name : String) (entry other : Entry) (entries : List (String × Entry)) :
    putEntry name entry (putEntry name other entries) = putEntry name entry entries := by
  induction entries with
  | nil => simp [putEntry]
  | cons head rest ih =>
    obtain ⟨n, e⟩ := head
    by_cases hn : n = name
    · simp [putEntry, hn]
    · simp [putEntry, hn, ih]

namespace Entry

/-- Nor does putting it in again at the end of some names. -/
theorem put_put (entry : Entry) (names : List String) (tree : Entry) :
    put entry names (put entry names tree) = put entry names tree := by
  induction names generalizing tree with
  | nil => rfl
  | cons name names ih =>
    cases tree with
    | file content => rfl
    | directory entries =>
      rw [put, put, entryNamed_putEntry, Option.getD_some, ih, putEntry_putEntry]

/-- What a file becomes a part of: an entry stays what it is, or the file is put into it under a name
that no directory has. -/
inductive Takes (last : String) (content : ByteArray) (entry : Entry) : Entry → Prop
  | apart : Takes last content entry entry
  | inside {names : List String} {entries : List (String × Entry)}
      (hat : entry.at? names = some (.directory entries))
      (hfree : ∀ es, entryNamed last entries ≠ some (.directory es)) :
      Takes last content entry (put (.file content) (names ++ [last]) entry)

/-- A file that is put into a directory of a tree becomes a part of what lies at the end of other
names, or leaves it alone. -/
theorem exists_at?_put {tree : Entry} {place : List String} {entries : List (String × Entry)}
    (hat : tree.at? place = some (.directory entries)) (content : ByteArray) {last : String}
    (hfree : ∀ es, entryNamed last entries ≠ some (.directory es)) {names : List String}
    {entry : Entry} (hentry : tree.at? names = some entry) (hne : names ≠ place ++ [last]) :
    ∃ after, (put (.file content) (place ++ [last]) tree).at? names = some after ∧
      Takes last content entry after := by
  induction names generalizing tree place with
  | nil =>
    cases hentry
    exact ⟨_, rfl, .inside hat hfree⟩
  | cons name names ih =>
    cases tree with
    | file old => cases hentry
    | directory es =>
      obtain ⟨e, he, hnames⟩ := Option.bind_eq_some_iff.mp hentry
      cases place with
      | nil =>
        cases hat
        by_cases hname : name = last
        · -- Only a directory leads on, and no directory has the name of the file.
          subst hname
          cases e with
          | directory inner => exact absurd he (hfree inner)
          | file old =>
            cases names with
            | nil => exact absurd rfl hne
            | cons => cases hnames
        · refine ⟨entry, ?_, .apart⟩
          rw [List.nil_append, at?_put_cons_of_ne hname]
          exact hentry
      | cons top place =>
        obtain ⟨t, ht, hplace⟩ := Option.bind_eq_some_iff.mp hat
        rw [List.cons_append]
        by_cases hname : name = top
        · subst hname
          cases he.symm.trans ht
          rw [at?_put_cons_self, ht, Option.getD_some]
          exact ih hplace hnames fun h => hne (by rw [h, List.cons_append])
        · rw [at?_put_cons_of_ne hname]
          exact ⟨entry, hentry, .apart⟩

/-- A search and a reader see the same in two entries: the same file, or directories in which the
search finds the same. -/
structure Alike (extensions : List String) (entry other : Entry) : Prop where
  files : ∀ content, other = .file content ↔ entry = .file content
  searches : ∀ given, scanVisits given extensions (other.visits given) =
    scanVisits given extensions (entry.visits given)

/-- An entry into which a file was put looks the same if the extension of the file is not asked
for. -/
theorem Takes.alike {last : String} {content : ByteArray} {entry after : Entry}
    (h : Takes last content entry after) {extensions : List String}
    (hignored : ∀ path content, (FoundFile.mk (joinPath path last) content).matchesAny extensions =
      false) : Alike extensions entry after := by
  cases h with
  | apart => exact ⟨fun _ => Iff.rfl, fun _ => rfl⟩
  | @inside names entries hat hfree =>
    refine ⟨fun old => ?_, fun given => ?_⟩
    · cases entry with
      | file before => cases names <;> simp [at?] at hat
      | directory es => cases names <;> simp [put]
    · have hnone : ∀ path content,
          (Visit.file ⟨joinPath path last, content⟩).counts extensions = false := hignored
      rw [← scanVisits_filter, ← scanVisits_filter given extensions (entry.visits given),
        filter_visits_put hnone hat hfree]

/-- A file that was written can be written again. -/
theorem targetIn_put {tree : Entry} {directory names : List String} {last : String}
    {onlyDirectory : Bool} (h : tree.targetIn directory last onlyDirectory = .ok names)
    (content : ByteArray) :
    DifferAt names tree (put (.file content) names tree) ∧
      (put (.file content) names tree).targetIn directory last onlyDirectory = .ok names := by
  obtain ⟨entries, hat, honly, hname, hfree, rfl⟩ := targetIn_eq_ok h
  have hdiffer := differAt_put hat content hfree
  obtain ⟨es, hes⟩ := kindAt_eq_directory_iff.mp
    (hdiffer.kindAt_directory (kindAt_eq_directory_iff.mpr ⟨entries, hat⟩))
  have hnew : entryNamed last es = some (.file content) := by
    rw [← at?_concat hes, at?_put hat]
  refine ⟨hdiffer, ?_⟩
  simp [targetIn, hes, honly, hname.moves, hname.down, hname.short, hnew]

end Entry

namespace FileSystem

/-- Two paths lead to the same place. -/
def SamePlace (system : FileSystem) (path other : String) : Prop :=
  ∃ names, system.resolve path = .ok names ∧ system.resolve other = .ok names

/-- A path to nothing leads to another place than all others. -/
theorem not_samePlace_of_missing {system : FileSystem} {path : String}
    (h : (system.resolve path).toBool = false) (other : String) :
    ¬ system.SamePlace path other := by
  rintro ⟨names, hnames, -⟩
  rw [hnames] at h
  cases h

/-- A write that is repeated changes nothing. -/
theorem write_again {system after : FileSystem} {path : String} {content : ByteArray}
    (h : system.write path content = .ok after) : after.write path content = .ok after := by
  obtain ⟨names, htarget, hafter⟩ := bind_eq_ok_iff.mp h
  cases hafter
  refine bind_eq_ok_iff.mpr ⟨names, ?_, by rw [Entry.put_put]; rfl⟩
  rw [target] at htarget ⊢
  cases hfault : pathFault? path with
  | some fault => simp [hfault] at htarget
  | none =>
    rw [hfault] at htarget
    obtain ⟨directory, hdirectory, htarget⟩ := bind_eq_ok_iff.mp htarget
    obtain ⟨hdiffer, hagain⟩ := Entry.targetIn_put htarget content
    obtain ⟨-, -, -, -, -, hnames⟩ := Entry.targetIn_eq_ok htarget
    exact bind_eq_ok_iff.mpr
      ⟨directory, hdiffer.resolveFrom hdirectory fun h => by simp [hnames] at h, hagain⟩

/-- A file that is found where a path was written has the extension of that path. -/
theorem WritesIn.extension?_joinPath {system : FileSystem} {output last : String}
    {directory : List String} {entries : List (String × Entry)}
    (h : system.WritesIn output directory last entries) (path : String) :
    extension? (joinPath path last) = extension? output := by
  obtain ⟨before, hparts, -⟩ := h.leads
  have hlast : last ∈ pathParts output := by simp [hparts]
  obtain ⟨piece, hpiece, rfl⟩ := List.mem_map.mp hlast
  have hslash : '/' ∉ (String.ofList piece).toList := by
    rw [String.toList_ofList]
    exact Text.notMem_of_mem_splitOn hpiece
  have hname : fileName output = String.ofList piece := by
    rw [fileName, hparts, List.getLast?_concat, Option.getD_some]
  rw [extension?, extension?, fileName_joinPath path hslash, hname]

/-- After a write every path to another place leads to something that looks the same, if the
extension of the path that was written is not asked for. -/
theorem exists_alike_of_write {system after : FileSystem} {output : String} {content : ByteArray}
    (hwrite : system.write output content = .ok after) {extensions : List String}
    (hextension : ∀ extension ∈ extension? output, extension ∉ extensions) {path : String}
    (hapart : ¬ system.SamePlace output path) {entry : Entry}
    (hentry : system.lookup path = .ok entry) :
    ∃ other, after.lookup path = .ok other ∧ Entry.Alike extensions entry other := by
  have hwritten := written_of_write hwrite
  have hstart := workingDirectory_write hwrite
  obtain ⟨directory, last, entries, hwrites, rfl⟩ := write_eq_ok hwrite
  obtain ⟨names, hnames, hat⟩ := lookup_eq_ok_iff.mp hentry
  have hdiffer := Entry.differAt_put hwrites.at_directory content hwrites.free
  have hne : names ≠ directory ++ [last] := by
    rintro rfl
    refine hapart ⟨directory ++ [last], ?_, hnames⟩
    exact resolve_of_differAt hdiffer.symm hstart.symm (hwrites.resolve_put content) fun _ => by
      rw [hat, Option.isSome_some]
  obtain ⟨other, hother, htakes⟩ :=
    Entry.exists_at?_put hwrites.at_directory content hwrites.free hat hne
  refine ⟨other, lookup_eq_ok_iff.mpr ⟨names, hwritten.leads path names hnames, hother⟩,
    htakes.alike fun path content => ?_⟩
  rw [FoundFile.matchesAny, hwrites.extension?_joinPath]
  cases hfound : extension? output with
  | none => rfl
  | some extension => simpa using hextension extension hfound

end FileSystem

/-- Looking in another way shows something that looks the same wherever something was seen. -/
def Lookup.AlikeAt (extensions : List String) (look again : Lookup) (path : String) : Prop :=
  ∀ entry, look path = .ok entry →
    ∃ other, again path = .ok other ∧ Entry.Alike extensions entry other

section Steps

variable {extensions : List String} {look lookAgain : Lookup} {view again : View} {listing : Listing}

/-- A text that was read is read again. -/
theorem View.Holds.of_alikeAt {path text : String}
    (halike : Lookup.AlikeAt extensions view.look again.look path)
    (hrefusal : again.refusal = view.refusal) (h : view.Holds path text) :
    again.Holds path text := by
  obtain ⟨other, hother, hsame⟩ := halike _ h.file
  rw [(hsame.files _).mpr rfl] at hother
  exact ⟨hother, hrefusal ▸ h.allowed⟩

/-- A search that did not end early finds the same again. -/
theorem scanPaths_of_alikeAt {paths : List String} {found : List FoundFile}
    (halike : ∀ path ∈ paths, Lookup.AlikeAt extensions look lookAgain path)
    (h : scanPaths look extensions paths = .ok found) :
    scanPaths lookAgain extensions paths = .ok found := by
  induction paths generalizing found with
  | nil => exact h
  | cons path paths ih =>
    obtain ⟨hpath, hpaths⟩ := List.forall_mem_cons.mp halike
    rw [scanPaths] at h ⊢
    split at h
    · cases h
    · next entry hentry =>
      obtain ⟨other, hother, hsame⟩ := hpath entry hentry
      simp only [bind_eq_ok_iff] at h
      obtain ⟨first, hfirst, others, hothers, hfound⟩ := h
      simp only [hother, bind_eq_ok_iff]
      exact ⟨first, (hsame.searches path).trans hfirst, others, ih hpaths hothers, hfound⟩

/-- The only path that is searched is a file again, or is none again. -/
theorem onlyFile?_of_alikeAt {paths : List String} {found : List FoundFile}
    (halike : ∀ path ∈ paths, Lookup.AlikeAt extensions look lookAgain path)
    (h : scanPaths look extensions paths = .ok found) :
    onlyFile? lookAgain paths = onlyFile? look paths := by
  rcases paths with _ | ⟨path, _ | ⟨second, others⟩⟩
  · rfl
  · rw [scanPaths] at h
    split at h
    · cases h
    · next entry hentry =>
      obtain ⟨other, hother, hsame⟩ := halike path List.mem_cons_self entry hentry
      rw [onlyFile?, onlyFile?, hentry, hother]
      cases entry with
      | file content => rw [(hsame.files content).mpr rfl]
      | directory es =>
        cases other with
        | file content => cases (hsame.files content).mp rfl
        | directory others => rfl
  · rfl

/-- Files that were found are found again. -/
theorem findFiles_of_alikeAt {given paths : List String} {files : Warned (List FoundFile)}
    (halike : ∀ path ∈ paths, Lookup.AlikeAt (given.map plainExtension) look lookAgain path)
    (h : findFiles listing look given paths = .ok files) :
    findFiles listing lookAgain given paths = .ok files := by
  obtain ⟨found, hfound, hfiles⟩ := bind_eq_ok_iff.mp h
  refine bind_eq_ok_iff.mpr ⟨found, scanPaths_of_alikeAt halike hfound, ?_⟩
  rw [onlyFile?_of_alikeAt halike hfound]
  exact hfiles

/-- The paths at which a request looks. -/
def Request.inputs (r : Request) : List String := r.config.toList ++ r.schema.toList ++ r.paths

/-- What a request read is read again. -/
theorem Request.Reads.of_alikeAt {r : Request} {settings : Settings} {files : Warned (List FoundFile)}
    {documents : List SourceDocument}
    (halike : ∀ path ∈ r.inputs,
      Lookup.AlikeAt (r.extensions.map plainExtension) view.look again.look path)
    (hrefusal : again.refusal = view.refusal)
    (h : r.Reads listing view settings files documents) :
    r.Reads listing again settings files documents where
  byDefault := h.byDefault
  configured path hpath := by
    obtain ⟨text, options, htext, hoptions⟩ := h.configured path hpath
    exact ⟨text, options, htext.of_alikeAt (halike path (by simp [inputs, hpath])) hrefusal, hoptions⟩
  schema path hpath := by
    obtain ⟨text, schema, htext, hschema⟩ := h.schema path hpath
    exact ⟨text, schema, htext.of_alikeAt (halike path (by simp [inputs, hpath])) hrefusal, hschema⟩
  found := findFiles_of_alikeAt (fun path hpath => halike path (by simp [inputs, hpath])) h.found
  loaded := h.loaded.imp fun _ _ hf => ⟨hf.opens, hrefusal ▸ hf.allowed, hf.document⟩

/-- A client that was generated is generated again, with the same warnings. -/
theorem Request.generate_of_alikeAt {r : Request} {file : GeneratedFile}
    (halike : ∀ path ∈ r.inputs,
      Lookup.AlikeAt (r.extensions.map plainExtension) view.look again.look path)
    (hrefusal : again.refusal = view.refusal) (h : (r.generate listing view).value = .ok file) :
    r.generate listing again = r.generate listing view := by
  obtain ⟨settings, files, documents, hreads, -, -⟩ := generate_eq_ok_iff.mp h
  rw [hreads.generate_eq, (hreads.of_alikeAt halike hrefusal).generate_eq]

end Steps

/-- A run that has a client and can write it says so. -/
theorem Request.run_eq_written {r : Request} {listing : Listing} {system after : FileSystem}
    {output : String} {file : GeneratedFile} (houtput : r.output = some output)
    (hfile : (r.generate listing system.view).value = .ok file)
    (hwrite : system.write output file.text.toUTF8 = .ok after) :
    r.run listing system =
      ⟨(file.written output, after), (r.generate listing system.view).warnings⟩ := by
  simp only [run, hfile, houtput, hwrite]

/-- A run succeeds if it has a client and its output is where a file can be. -/
theorem Request.exists_run_eq_ok {r : Request} {listing : Listing} {system : FileSystem}
    {output : String} (houtput : r.output = some output)
    (hclient : (r.generate listing system.view).value.toBool = true)
    (htarget : (system.target output).toBool = true) :
    ∃ message, (r.run listing system).value.1 = .ok message := by
  obtain ⟨file, hfile⟩ := exists_eq_ok_of_toBool hclient
  obtain ⟨names, hnames⟩ := exists_eq_ok_of_toBool htarget
  have hwrite : system.write output file.text.toUTF8 =
      .ok { system with root := .put (.file file.text.toUTF8) names system.root } :=
    bind_eq_ok_iff.mpr ⟨names, hnames, rfl⟩
  exact ⟨_, congrArg (·.value.1) (run_eq_written houtput hfile hwrite)⟩

/-- A run that wrote its client says and does the same again if it lists the extensions as before. -/
theorem Request.run_again_of_listing {r : Request} {listing : Listing} {system : FileSystem}
    {output message : String} (houtput : r.output = some output)
    (hextension : ∀ extension ∈ extension? output, extension ∉ r.extensions.map plainExtension)
    (hapart : ∀ path ∈ r.inputs, ¬ system.SamePlace output path)
    (hok : (r.run listing system).value.1 = .ok message) :
    r.run listing (r.run listing system).value.2 =
      ⟨(.ok message, (r.run listing system).value.2), (r.run listing system).warnings⟩ := by
  obtain ⟨file, after, hfile, hwrite⟩ : ∃ file after,
      (r.generate listing system.view).value = .ok file ∧
        system.write output file.text.toUTF8 = .ok after := by
    have houtcome : r.Outcome listing system
        ((r.run listing system).value.1, (r.run listing system).value.2) :=
      r.run_outcome listing system
    obtain ⟨text, htext, hwrites⟩ := houtcome.isOk_iff.mp ⟨message, hok⟩
    obtain ⟨file, hfile, rfl⟩ := generates_iff.mp htext
    obtain ⟨after, hwrite⟩ := hwrites output houtput
    exact ⟨file, after, hfile, hwrite⟩
  have halike : ∀ path ∈ r.inputs,
      Lookup.AlikeAt (r.extensions.map plainExtension) system.view.look after.view.look path :=
    fun path hpath _ hentry =>
      FileSystem.exists_alike_of_write hwrite hextension (hapart path hpath) hentry
  have hsame : r.generate listing after.view = r.generate listing system.view :=
    generate_of_alikeAt halike (FileSystem.written_of_write hwrite).refusal hfile
  have hfirst := run_eq_written houtput hfile hwrite
  have hsecond := run_eq_written houtput (hsame ▸ hfile) (FileSystem.write_again hwrite)
  rw [hfirst] at hok ⊢
  rw [hsecond, hsame, ← hok]

/-- A run that wrote its client can be repeated. If the extension of the output is not asked for and
the output is neither the configuration nor the schema nor one of the paths to search, a second run
says what the first one said and leaves the file system as the first one left it. Its warnings are
the same but for the order in which the runs list the extensions, and the same altogether if they
list them alike. -/
theorem Request.run_again {r : Request} {system : FileSystem} {output message : String}
    (listing again : Listing) (houtput : r.output = some output)
    (hextension : ∀ extension ∈ extension? output, extension ∉ r.extensions.map plainExtension)
    (hapart : ∀ path ∈ r.inputs, ¬ system.SamePlace output path)
    (hok : (r.run listing system).value.1 = .ok message) :
    (r.run again (r.run listing system).value.2).value =
        (.ok message, (r.run listing system).value.2) ∧
      List.Forall₂ Warning.SameButForOrder
        (r.run again (r.run listing system).value.2).warnings (r.run listing system).warnings ∧
      (again.list (r.extensions.map plainExtension) =
          listing.list (r.extensions.map plainExtension) →
        (r.run again (r.run listing system).value.2).warnings =
          (r.run listing system).warnings) := by
  have hsame := run_again_of_listing houtput hextension hapart hok
  have horder := r.run_sameButForOrder listing again (r.run listing system).value.2
  refine ⟨horder.value.trans (by rw [hsame]), ?_, fun halike => ?_⟩
  · have hwarnings := horder.warnings
    rwa [hsame] at hwarnings
  · rw [r.run_congr_listing listing again halike, hsame]

/-- Members in the opposite order. -/
def Listing.backwards : Listing := ⟨fun texts => texts.eraseDups.reverse, fun _ => List.reverse_perm _⟩

/-- A directory with a query in a file that does not look like one. -/
def oneText : FileSystem where
  root := .directory [("ops.txt", .file "query Q \x7b a \x7d".toUTF8)]
  workingDirectory := []

/-- A request for the client of that file alone. -/
def onlyText : Request :=
  { output := some "sdk.ts", extensions := defaultExtensions, paths := ["ops.txt"] }

/-- The second run may word its warning in another way: a run that lists the extensions from the
last to the first does. -/
theorem Request.run_again_relisted :
    onlyText.output = some "sdk.ts" ∧
      (∀ extension ∈ extension? "sdk.ts", extension ∉ onlyText.extensions.map plainExtension) ∧
      (∀ path ∈ onlyText.inputs, ¬ oneText.SamePlace "sdk.ts" path) ∧
      ∃ message after, (onlyText.run .forwards oneText).value = (.ok message, after) ∧
        (onlyText.run .forwards oneText).warnings.head?.map Warning.message =
          some ("Proceeding to load \"ops.txt\" even though it doesn't match any of the " ++
            "--graphql-file-exts (`.graphql`, `.gql`).") ∧
        (onlyText.run .backwards after).warnings.head?.map Warning.message =
          some ("Proceeding to load \"ops.txt\" even though it doesn't match any of the " ++
            "--graphql-file-exts (`.gql`, `.graphql`).") ∧
        (onlyText.run .backwards after).warnings ≠ (onlyText.run .forwards oneText).warnings := by
  have hapart : ∀ path ∈ onlyText.inputs, ¬ oneText.SamePlace "sdk.ts" path := fun path _ =>
    FileSystem.not_samePlace_of_missing (by decide +kernel) path
  obtain ⟨message, hmessage⟩ := exists_eq_ok_of_toBool
    (show (onlyText.run .forwards oneText).value.1.toBool = true by decide +kernel)
  have hfirst : (onlyText.run .forwards oneText).warnings.head?.map Warning.message =
      some ("Proceeding to load \"ops.txt\" even though it doesn't match any of the " ++
        "--graphql-file-exts (`.graphql`, `.gql`).") := by decide +kernel
  have hsecond : (onlyText.run .backwards
        (onlyText.run .forwards oneText).value.2).warnings.head?.map Warning.message =
      some ("Proceeding to load \"ops.txt\" even though it doesn't match any of the " ++
        "--graphql-file-exts (`.gql`, `.graphql`).") := by decide +kernel
  refine ⟨rfl, by decide +kernel, hapart, message, _, Prod.ext hmessage rfl, hfirst, hsecond,
    fun hsame => ?_⟩
  rw [hsame, hfirst] at hsecond
  revert hsecond
  decide +kernel

/-- A request to search the working directory and to put the client there. -/
def beside : Request := { output := some "sdk.ts", extensions := defaultExtensions, paths := ["."] }

/-- A run that puts a new file into the directory that it searches can be repeated. -/
theorem Request.run_again_beside :
    (∀ extension ∈ extension? "sdk.ts", extension ∉ beside.extensions.map plainExtension) ∧
      (∀ path ∈ beside.inputs, ¬ oneQuery.SamePlace "sdk.ts" path) ∧
      ∃ message after, (beside.run .forwards oneQuery).value = (.ok message, after) ∧
        (∃ file, after.lookup "sdk.ts" = .ok file) ∧
        (beside.run .backwards after).value = (.ok message, after) ∧
        List.Forall₂ Warning.SameButForOrder (beside.run .backwards after).warnings
          (beside.run .forwards oneQuery).warnings := by
  have houtput : beside.output = some "sdk.ts" := rfl
  have hextension : ∀ extension ∈ extension? "sdk.ts",
      extension ∉ beside.extensions.map plainExtension := by
    decide +kernel
  have hapart : ∀ path ∈ beside.inputs, ¬ oneQuery.SamePlace "sdk.ts" path := fun path _ =>
    FileSystem.not_samePlace_of_missing (by decide +kernel) path
  obtain ⟨message, hmessage⟩ :
      ∃ message, (beside.run .forwards oneQuery).value.1 = .ok message :=
    exists_run_eq_ok houtput (by decide +kernel) (by decide +kernel)
  have houtcome : beside.Outcome .forwards oneQuery
      (.ok message, (beside.run .forwards oneQuery).value.2) :=
    hmessage ▸ beside.run_outcome .forwards oneQuery
  obtain ⟨text, -, hwritten⟩ := houtcome.written_of_output_eq_some houtput
  obtain ⟨hvalue, hwarnings, -⟩ :=
    run_again .forwards .backwards houtput hextension hapart hmessage
  exact ⟨hextension, hapart, message, _, Prod.ext hmessage rfl, ⟨_, hwritten.content⟩, hvalue,
    hwarnings⟩

end GraphqlClient
