import Mathlib.Data.List.DropRight
import GraphqlClient.Command.Discovery

/-!
# Extensions

The extension of a file is what follows the last dot of its name, if something comes before that dot.
A file is asked for when that extension is.
-/

namespace GraphqlClient

/-- A name has what follows its last dot as its extension, if something comes before that dot. -/
def HasExtension (name extension : String) : Prop :=
  ∃ stem ≠ [], name.toList = stem ++ '.' :: extension.toList ∧ '.' ∉ extension.toList

/-- What follows the last dot of a text, if something comes before that dot, is the longest end
without dots, if that leaves more than one character. -/
theorem rtakeWhile_dot_iff {name tail : List Char} :
    (name.rtakeWhile (· != '.')).length + 1 < name.length ∧ name.rtakeWhile (· != '.') = tail ↔
      ∃ stem ≠ [], name = stem ++ '.' :: tail ∧ '.' ∉ tail := by
  constructor
  · rintro ⟨hlength, rfl⟩
    have hsplit : name.rdropWhile (· != '.') ++ name.rtakeWhile (· != '.') = name :=
      List.rdropWhile_append_rtakeWhile
    have hfront : 1 < (name.rdropWhile (· != '.')).length := by
      have hlengths := congrArg List.length hsplit
      rw [List.length_append] at hlengths
      omega
    have hne : name.rdropWhile (· != '.') ≠ [] := List.ne_nil_of_length_pos (by omega)
    have hdot : (name.rdropWhile (· != '.')).getLast hne = '.' := by
      simpa using List.rdropWhile_last_not _ _ hne
    refine ⟨(name.rdropWhile (· != '.')).dropLast, ?_, ?_, fun hmem => ?_⟩
    · exact List.ne_nil_of_length_pos (by rw [List.length_dropLast]; omega)
    · have hlast := List.dropLast_concat_getLast hne
      rw [hdot] at hlast
      rw [List.append_cons, hlast, hsplit]
    · simpa using List.mem_rtakeWhile_imp hmem
  · rintro ⟨stem, hstem, rfl, hdot⟩
    have hpass : ∀ c ∈ tail.reverse, (c != '.') = true := fun c hc => by
      simpa using fun h : c = '.' => hdot (h ▸ List.mem_reverse.mp hc)
    have htail : (stem ++ '.' :: tail).rtakeWhile (· != '.') = tail := by
      rw [List.rtakeWhile, List.reverse_append, List.reverse_cons, List.append_assoc,
        List.singleton_append, List.takeWhile_append_of_pos hpass,
        List.takeWhile_cons_of_neg (by simp), List.append_nil, List.reverse_reverse]
    have hlength := List.length_pos_iff.mpr hstem
    rw [htail, List.length_append, List.length_cons]
    exact ⟨by omega, rfl⟩

/-- The extension of a path is that of its last part. -/
theorem extension?_eq_some_iff {path extension : String} :
    extension? path = some extension ↔ HasExtension (fileName path) extension := by
  rw [HasExtension, ← rtakeWhile_dot_iff, extension?]
  simp [← String.toList_inj, List.rtakeWhile]

/-- A file is asked for when its name has one of the extensions. -/
theorem FoundFile.matchesAny_iff {f : FoundFile} {extensions : List String} :
    f.matchesAny extensions = true ↔
      ∃ extension ∈ extensions, HasExtension (fileName f.path) extension := by
  rw [matchesAny, Option.any_eq_true]
  simp only [extension?_eq_some_iff, List.contains_iff_mem, and_comm]

end GraphqlClient
