import Mathlib.Data.List.Basic
import Mathlib.Data.List.Nodup
import Mathlib.Data.List.Perm.Basic

/-!
# Lists without repetition

Of each element of a list the first occurrence is kept. The elements that are kept are distinct and in
the order of their first occurrences, and no other list has the same elements in that order.
-/

namespace GraphqlClient

variable {α : Type} [DecidableEq α]

/-- What is kept of repetitions is distinct. -/
theorem nodup_eraseDups : ∀ xs : List α, xs.eraseDups.Nodup
  | [] => List.nodup_nil
  | x :: xs => by
    rw [List.eraseDups_cons, List.nodup_cons, List.mem_eraseDups]
    exact ⟨by simp, nodup_eraseDups _⟩
termination_by xs => xs.length
decreasing_by exact Nat.lt_succ_of_le (List.length_filter_le _ _)

/-- Elements that pass a filter keep the order of their first occurrences. -/
theorem idxOf_filter_lt_iff {p : α → Bool} {a b : α} (ha : p a = true) (hb : p b = true)
    (xs : List α) : (xs.filter p).idxOf a < (xs.filter p).idxOf b ↔ xs.idxOf a < xs.idxOf b := by
  induction xs with
  | nil => rfl
  | cons x xs ih =>
    by_cases hxa : x = a
    · subst hxa
      by_cases hxb : x = b <;> simp [ha, hxb]
    · by_cases hxb : x = b
      · subst hxb
        simp [hb]
      · cases hx : p x <;> simp [hx, List.idxOf_cons_ne _ hxa, List.idxOf_cons_ne _ hxb, ih]

/-- Of each element the first occurrence is kept, so the order of these stays the same. -/
theorem idxOf_eraseDups_lt_iff (a b : α) :
    ∀ xs : List α, xs.eraseDups.idxOf a < xs.eraseDups.idxOf b ↔ xs.idxOf a < xs.idxOf b
  | [] => Iff.rfl
  | x :: xs => by
    rw [List.eraseDups_cons]
    by_cases hxa : x = a
    · subst hxa
      by_cases hxb : x = b <;> simp [hxb]
    · by_cases hxb : x = b
      · simp [hxb]
      · have hlater := idxOf_filter_lt_iff (p := fun c => !c == x) (a := a) (b := b)
          (by simpa using Ne.symm hxa) (by simpa using Ne.symm hxb) xs
        simp only [List.idxOf_cons_ne _ hxa, List.idxOf_cons_ne _ hxb, Nat.succ_lt_succ_iff]
        rw [idxOf_eraseDups_lt_iff a b, hlater]
termination_by xs => xs.length
decreasing_by exact Nat.lt_succ_of_le (List.length_filter_le _ _)

/-- Distinct elements stand in the order of their first occurrences. -/
theorem pairwise_idxOf_lt {xs : List α} (h : xs.Nodup) :
    xs.Pairwise fun a b => xs.idxOf a < xs.idxOf b := by
  rw [List.pairwise_iff_getElem]
  intro i j hi hj hij
  rwa [h.idxOf_getElem, h.idxOf_getElem]

/-- Lists of distinct elements are the same if they have the same elements in the same order. -/
theorem eq_of_idxOf_lt_iff {xs ys : List α} (hxs : xs.Nodup) (hys : ys.Nodup)
    (hmem : ∀ a, a ∈ xs ↔ a ∈ ys)
    (horder : ∀ a ∈ xs, ∀ b ∈ xs, xs.idxOf a < xs.idxOf b ↔ ys.idxOf a < ys.idxOf b) : xs = ys := by
  have hxs' : xs.Pairwise fun a b => ys.idxOf a < ys.idxOf b :=
    (pairwise_idxOf_lt hxs).imp_of_mem fun ha hb hab => (horder _ ha _ hb).mp hab
  exact List.Perm.eq_of_pairwise (fun _ _ _ _ hab hba => absurd hba (Nat.lt_asymm hab)) hxs'
    (pairwise_idxOf_lt hys) ((List.perm_ext_iff_of_nodup hxs hys).mpr hmem)

end GraphqlClient
