import GraphqlClient.Proofs.Command.Load
import GraphqlClient.Proofs.Distinct

/-!
# Listed sets

The extensions that are asked for are a set: how many dots stand before them, in which order they are
given and how often makes no difference for what is found. A warning lists them in an order that may
be another one in every run, and that order is all in which two runs on the same files may differ.
-/

namespace GraphqlClient

namespace Listing

variable (listing again : Listing) {texts others : List String}

/-- The members of a set are listed once each. -/
theorem nodup_list (texts : List String) : (listing.list texts).Nodup :=
  (listing.perm texts).nodup_iff.mpr (nodup_eraseDups _)

/-- All members are listed, and nothing else. -/
theorem mem_list {text : String} : text ∈ listing.list texts ↔ text ∈ texts :=
  (listing.perm texts).mem_iff.trans List.mem_eraseDups

/-- Two lists of the same set differ in their order at most. -/
theorem perm_list (h : ∀ text, text ∈ others ↔ text ∈ texts) :
    (again.list others).Perm (listing.list texts) :=
  (List.perm_ext_iff_of_nodup (again.nodup_list _) (listing.nodup_list _)).mpr fun text => by
    rw [mem_list, mem_list, h]

end Listing

/-- Two warnings are the same but for the order in which they list extensions. -/
inductive Warning.SameButForOrder : Warning → Warning → Prop
  | same (warning : Warning) : SameButForOrder warning warning
  | listed {path : String} {others extensions : List String} (h : others.Perm extensions) :
      SameButForOrder (.otherExtension path others) (.otherExtension path extensions)

/-- A value that comes with the same warnings but for the order in which they list extensions. -/
structure Warned.SameButForOrder {α : Type} (a b : Warned α) : Prop where
  value : a.value = b.value
  warnings : List.Forall₂ Warning.SameButForOrder a.warnings b.warnings

/-- The same warnings are the same but for an order. -/
theorem Warning.forall₂_same (warnings : List Warning) :
    List.Forall₂ SameButForOrder warnings warnings :=
  List.forall₂_same.mpr fun warning _ => .same warning

/-- So are the same values with the same warnings. -/
theorem Warned.SameButForOrder.refl {α : Type} (a : Warned α) : a.SameButForOrder a :=
  ⟨rfl, Warning.forall₂_same _⟩

/-- Two searches end alike: for the same reason, or with the same files and with the same warnings
but for the order in which they list extensions. -/
inductive EndAlike {ε α : Type} : Except ε (Warned α) → Except ε (Warned α) → Prop
  | failed (error : ε) : EndAlike (.error error) (.error error)
  | done {a b : Warned α} (h : a.SameButForOrder b) : EndAlike (.ok a) (.ok b)

section Sets

variable {extensions others : List String}

/-- A file is asked for by the set of the extensions. -/
theorem FoundFile.matchesAny_congr (h : ∀ extension, extension ∈ others ↔ extension ∈ extensions)
    (f : FoundFile) : f.matchesAny others = f.matchesAny extensions := by
  have hcontains : others.contains = extensions.contains := by
    funext extension
    rw [Bool.eq_iff_iff, List.contains_iff_mem, List.contains_iff_mem, h]
  rw [matchesAny, matchesAny, hcontains]

/-- So is what a walk takes. -/
theorem scanVisits_congr (h : ∀ extension, extension ∈ others ↔ extension ∈ extensions)
    (given : String) (visits : List Visit) :
    scanVisits given others visits = scanVisits given extensions visits := by
  induction visits with
  | nil => rfl
  | cons visit visits ih =>
    cases visit with
    | file f => rw [scanVisits, scanVisits, ih, f.matchesAny_congr h]
    | directory path => rw [scanVisits, scanVisits, ih]

/-- And what is found under some paths. -/
theorem scanPaths_congr (h : ∀ extension, extension ∈ others ↔ extension ∈ extensions)
    (look : Lookup) (paths : List String) :
    scanPaths look others paths = scanPaths look extensions paths := by
  induction paths with
  | nil => rfl
  | cons path paths ih =>
    rw [scanPaths, scanPaths, ih]
    simp only [scanVisits_congr h]

/-- Searches for the same set of extensions end alike, however the set is listed. -/
theorem findFiles_endAlike
    (h : ∀ extension, extension ∈ others.map plainExtension ↔
      extension ∈ extensions.map plainExtension)
    (listing again : Listing) (look : Lookup) (paths : List String) :
    EndAlike (findFiles again look others paths) (findFiles listing look extensions paths) := by
  simp only [findFiles, scanPaths_congr h]
  cases scanPaths look (extensions.map plainExtension) paths with
  | error error => exact .failed error
  | ok found =>
    cases found with
    | cons f found => exact .done (.refl _)
    | nil =>
      cases onlyFile? look paths with
      | none => exact .done (.refl _)
      | some f => exact .done ⟨rfl, .cons (.listed (listing.perm_list again h)) .nil⟩

end Sets

namespace Request

variable (r : Request) (listing again : Listing)

/-- A client is the same whichever way the extensions are listed, and so are the warnings but for
that order. -/
theorem generate_sameButForOrder (view : View) :
    (r.generate again view).SameButForOrder (r.generate listing view) := by
  have hsearch : EndAlike (findFiles again view.look r.extensions r.paths)
      (findFiles listing view.look r.extensions r.paths) :=
    findFiles_endAlike (fun _ => Iff.rfl) listing again view.look r.paths
  simp only [generate, prepare]
  cases r.settings view with
  | error error => exact .refl _
  | ok settings =>
    cases r.readSchema view with
    | error error => exact .refl _
    | ok schema =>
      generalize findFiles again view.look r.extensions r.paths = second at hsearch ⊢
      generalize findFiles listing view.look r.extensions r.paths = first at hsearch ⊢
      cases hsearch with
      | failed error => exact .refl _
      | @done second first h =>
        simp only [bind, Except.bind, Except.mapError, pure, Except.pure, h.value]
        cases loadFiles view first.value with
        | error error => exact ⟨rfl, h.warnings⟩
        | ok documents => exact ⟨rfl, List.rel_append h.warnings (Warning.forall₂_same _)⟩

/-- A run is the same if the extensions are listed alike. -/
theorem run_congr_listing
    (h : again.list (r.extensions.map plainExtension) =
      listing.list (r.extensions.map plainExtension)) (system : FileSystem) :
    r.run again system = r.run listing system := by
  simp only [run, generate, prepare, findFiles, h]

/-- A run says and writes the same whichever way the extensions are listed. -/
theorem run_sameButForOrder (system : FileSystem) :
    (r.run again system).SameButForOrder (r.run listing system) := by
  have hgenerate := r.generate_sameButForOrder listing again system.view
  exact ⟨by simp only [run, hgenerate.value], hgenerate.warnings⟩

end Request

end GraphqlClient
