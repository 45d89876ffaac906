import Mathlib.Order.Basic
import GraphqlClient.Command.Discovery
import GraphqlClient.Proofs.Command.Write

/-!
# What a search takes notice of

A search takes notice of the files whose extension is asked for and of directories that it cannot
open. The files of a directory stay in order when others are put among them. So a search does not
notice that a file is written in a directory, or a new one put there, if its extension is not asked
for.
-/

namespace GraphqlClient

section Sorting

variable {α : Type} {le : α → α → Bool}

/-- The first element of a list is sorted in before all that are not smaller, and the others are in
their order. -/
theorem mergeSort_cons_eq (trans : ∀ a b c, le a b = true → le b c = true → le a c = true)
    (total : ∀ a b, (le a b || le b a) = true) (a : α) (l : List α) :
    (a :: l).mergeSort le =
        (l.mergeSort le).filter (!le a ·) ++ a :: (l.mergeSort le).filter (le a ·) ∧
      l.mergeSort le = (l.mergeSort le).filter (!le a ·) ++ (l.mergeSort le).filter (le a ·) := by
  obtain ⟨before, after, hsort, hrest, hbefore⟩ := List.mergeSort_cons trans total a l
  have hafter : ∀ b ∈ after, le a b = true := by
    have hsorted := List.pairwise_mergeSort trans total (a :: l)
    rw [hsort] at hsorted
    exact (List.pairwise_cons.mp (List.pairwise_append.mp hsorted).2.1).1
  have hfirst : (l.mergeSort le).filter (!le a ·) = before := by
    rw [hrest, List.filter_append, List.filter_eq_self.mpr hbefore,
      List.filter_eq_nil_iff.mpr fun b hb => by simp [hafter b hb], List.append_nil]
  have hlast : (l.mergeSort le).filter (le a ·) = after := by
    rw [hrest, List.filter_append, List.filter_eq_self.mpr hafter,
      List.filter_eq_nil_iff.mpr fun b hb => by simpa using hbefore b hb, List.nil_append]
  rw [hfirst, hlast]
  exact ⟨hsort, hrest⟩

/-- What is kept of a list is in the same order whether it is sorted before or after. -/
theorem filter_mergeSort (trans : ∀ a b c, le a b = true → le b c = true → le a c = true)
    (total : ∀ a b, (le a b || le b a) = true) (p : α → Bool) (l : List α) :
    (l.mergeSort le).filter p = (l.filter p).mergeSort le := by
  have hcomm : ∀ (q : α → Bool) (xs : List α), (xs.filter q).filter p = (xs.filter p).filter q := by
    intro q xs
    rw [List.filter_filter, List.filter_filter]
    simp only [Bool.and_comm]
  induction l with
  | nil => simp
  | cons a l ih =>
    obtain ⟨hall, -⟩ := mergeSort_cons_eq trans total a l
    obtain ⟨hkept, hrest⟩ := mergeSort_cons_eq trans total a (l.filter p)
    rw [hall, List.filter_append]
    by_cases ha : p a = true
    · rw [List.filter_cons_of_pos ha, List.filter_cons_of_pos ha, hcomm, hcomm, ih, hkept]
    · rw [List.filter_cons_of_neg ha, List.filter_cons_of_neg ha, hcomm, hcomm, ih, ← hrest]

/-- A list that is sorted by texts of its elements is in the order of these texts. -/
theorem pairwise_mergeSort_text (text : α → String) (l : List α) :
    (l.mergeSort fun a b => text a ≤ text b).Pairwise fun a b => text a ≤ text b := by
  have hsorted : (l.mergeSort fun a b => text a ≤ text b).Pairwise
      fun a b => decide (text a ≤ text b) = true := by
    refine List.pairwise_mergeSort (fun a b c hab hbc => ?_) (fun a b => ?_) l
    · rw [decide_eq_true_iff] at hab hbc ⊢
      exact String.le_trans hab hbc
    · rw [Bool.or_eq_true, decide_eq_true_iff, decide_eq_true_iff]
      exact String.le_total (text a) (text b)
  exact hsorted.imp of_decide_eq_true

end Sorting

/-- Whether a search takes notice of a visit. -/
def Visit.counts (extensions : List String) : Visit → Bool
  | .file f => f.matchesAny extensions
  | .directory path => (pathFault? path).isSome

/-- Visits that are not taken notice of do not matter. -/
theorem scanVisits_filter (given : String) (extensions : List String) (visits : List Visit) :
    scanVisits given extensions (visits.filter (·.counts extensions)) =
      scanVisits given extensions visits := by
  induction visits with
  | nil => rfl
  | cons visit visits ih =>
    by_cases hcounts : visit.counts extensions = true
    · rw [List.filter_cons_of_pos hcounts]
      cases visit with
      | file f => rw [scanVisits, scanVisits, ih]
      | directory path => rw [scanVisits, scanVisits, ih]
    · rw [List.filter_cons_of_neg hcounts, ih]
      cases visit with
      | file f =>
        have hother : f.matchesAny extensions = false := Bool.eq_false_iff.mpr hcounts
        rw [scanVisits, hother]
        cases scanVisits given extensions visits <;> rfl
      | directory path =>
        have hsound : pathFault? path = none := by simpa [Visit.counts] using hcounts
        rw [scanVisits, hsound]

/-- A name is joined to a path behind a slash. -/
theorem exists_joinPath_eq (directory name : String) :
    ∃ front, (joinPath directory name).toList = front ++ '/' :: name.toList := by
  rw [joinPath]
  split
  · next hslash =>
    have hend : "/".toList <:+ directory.toList := by
      simpa using String.Slice.endsWith_string_iff.mp hslash
    obtain ⟨front, hfront⟩ := hend
    refine ⟨front, ?_⟩
    rw [String.toList_append, ← hfront, List.append_assoc]
    rfl
  · refine ⟨directory.toList, ?_⟩
    rw [String.toList_append, String.toList_append, List.append_assoc]
    rfl

/-- The last part of a joined path is the name that was joined to it. -/
theorem fileName_joinPath (directory : String) {name : String} (h : '/' ∉ name.toList) :
    fileName (joinPath directory name) = name := by
  obtain ⟨front, hfront⟩ := exists_joinPath_eq directory name
  rw [fileName, pathParts, hfront, Text.splitOn_append_cons, Text.splitOn_eq_singleton '/' _ h,
    List.map_append, List.map_singleton, List.getLast?_concat, Option.getD_some,
    String.ofList_toList]

/-- The order of names, as one of named visits. -/
def beforeByName (a b : String × List Visit) : Bool := a.1 ≤ b.1

/-- Entries of which nothing is left do not matter for the order of the others. -/
theorem flatMap_mergeSort_filter (named : List (String × List Visit)) :
    (named.mergeSort beforeByName).flatMap Prod.snd =
      ((named.filter (!·.2.isEmpty)).mergeSort beforeByName).flatMap Prod.snd := by
  have hflat : ∀ xs : List (String × List Visit),
      (xs.filter (!·.2.isEmpty)).flatMap Prod.snd = xs.flatMap Prod.snd := by
    intro xs
    induction xs with
    | nil => rfl
    | cons x xs ih =>
      by_cases hx : x.2 = []
      · rw [List.filter_cons_of_neg (by simp [hx]), List.flatMap_cons, hx, List.nil_append, ih]
      · rw [List.filter_cons_of_pos (by simpa using hx), List.flatMap_cons, List.flatMap_cons, ih]
  rw [← filter_mergeSort, hflat]
  · intro a b c hab hbc
    rw [beforeByName, decide_eq_true_iff] at hab hbc ⊢
    exact String.le_trans hab hbc
  · intro a b
    rw [beforeByName, beforeByName, Bool.or_eq_true, decide_eq_true_iff, decide_eq_true_iff]
    exact String.le_total a.1 b.1

namespace Entry

variable {counts : Visit → Bool}

/-- Those visits of an entry that count, with its name. -/
def onlyCounted (counts : Visit → Bool) (named : String × List Visit) : String × List Visit :=
  (named.1, named.2.filter counts)

/-- Those visits of some entries that count, by the names of the entries. -/
def countedByName (counts : Visit → Bool) (path : String) (entries : List (String × Entry)) :
    List (String × List Visit) :=
  (visitsByName path entries).map (onlyCounted counts)

/-- Those visits of a directory that count come in the order of the names of its entries. -/
theorem filter_visits_directory (path : String) (entries : List (String × Entry)) :
    ((directory entries).visits path).filter counts =
      [Visit.directory path].filter counts ++
        ((countedByName counts path entries).mergeSort beforeByName).flatMap Prod.snd := by
  have hsorted : (countedByName counts path entries).mergeSort beforeByName =
      ((visitsByName path entries).mergeSort beforeByName).map (onlyCounted counts) :=
    (List.map_mergeSort (f := onlyCounted counts) fun _ _ _ _ => rfl).symm
  rw [visits, ← List.singleton_append, List.filter_append, hsorted, List.flatMap_map,
    List.filter_flatMap]
  rfl

/-- Putting an entry in changes nothing that counts if it brings nothing that counts, or nothing
else than the entry in its place. -/
theorem filter_countedByName_putEntry {path name : String} {entry : Entry}
    {entries : List (String × Entry)}
    (h : (entry.visits (joinPath path name)).filter counts =
      ((entryNamed name entries).map fun old => (old.visits (joinPath path name)).filter counts).getD
        []) :
    (countedByName counts path (putEntry name entry entries)).filter (!·.2.isEmpty) =
      (countedByName counts path entries).filter (!·.2.isEmpty) := by
  induction entries with
  | nil =>
    have hnone : (entry.visits (joinPath path name)).filter counts = [] := h
    simp [putEntry, countedByName, visitsByName, onlyCounted, hnone]
  | cons head rest ih =>
    obtain ⟨n, e⟩ := head
    rw [putEntry]
    split
    · next hn =>
      subst hn
      have hsame : (entry.visits (joinPath path n)).filter counts =
          (e.visits (joinPath path n)).filter counts := by
        simpa [entryNamed] using h
      simp only [countedByName, visitsByName, onlyCounted, List.map_cons, hsame]
    · next hn =>
      have hlater : entryNamed name ((n, e) :: rest) = entryNamed name rest := by
        rw [entryNamed, entryNamed, List.find?_cons_of_neg (by simpa using hn)]
      rw [hlater] at h
      have hrest := ih h
      simp only [countedByName] at hrest
      simp only [countedByName, visitsByName, List.map_cons, List.filter_cons, hrest]

/-- So it is with all visits of the directory that count. -/
theorem filter_visits_putEntry {path name : String} {entry : Entry}
    {entries : List (String × Entry)}
    (h : (entry.visits (joinPath path name)).filter counts =
      ((entryNamed name entries).map fun old => (old.visits (joinPath path name)).filter counts).getD
        []) :
    ((directory (putEntry name entry entries)).visits path).filter counts =
      ((directory entries).visits path).filter counts := by
  rw [filter_visits_directory, filter_visits_directory, flatMap_mergeSort_filter,
    filter_countedByName_putEntry h, ← flatMap_mergeSort_filter]

/-- A file that does not count, put where no directory lies, changes nothing that counts. -/
theorem filter_visits_put {last : String} {content : ByteArray}
    (hignored : ∀ path content, counts (.file ⟨joinPath path last, content⟩) = false)
    {names : List String} {tree : Entry} {entries : List (String × Entry)}
    (hat : tree.at? names = some (.directory entries))
    (hfree : ∀ es, entryNamed last entries ≠ some (.directory es)) (path : String) :
    ((put (.file content) (names ++ [last]) tree).visits path).filter counts =
      (tree.visits path).filter counts := by
  have hfile : ∀ (path : String) (content : ByteArray),
      ((file content).visits (joinPath path last)).filter counts = [] := by
    intro path content
    rw [visits, List.filter_cons_of_neg (by simp [hignored]), List.filter_nil]
  induction names generalizing tree path with
  | nil =>
    cases hat
    rw [List.nil_append, put]
    refine filter_visits_putEntry ?_
    rw [put, hfile]
    cases hold : entryNamed last entries with
    | none => rfl
    | some old =>
      cases old with
      | file before => exact (hfile path before).symm
      | directory es => exact absurd hold (hfree es)
  | cons name names ih =>
    cases tree with
    | file old => cases hat
    | directory es =>
      obtain ⟨e, he, hrest⟩ := Option.bind_eq_some_iff.mp hat
      rw [List.cons_append, put]
      refine filter_visits_putEntry ?_
      rw [he, Option.getD_some, Option.map_some, Option.getD_some]
      exact ih hrest _

end Entry

end GraphqlClient
