import Mathlib.Data.List.Basic
import GraphqlClient.Declaration.Template

/-!
# Escaping by replacement

Escaping reads a text once. It comes to the same as three replacements over the whole text: of
backslashes, then of backticks, and last of the openings of holes. In any other order the
backslashes of the first replacements would be doubled.
-/

namespace GraphqlClient.Template

/-- Replace a pattern at its occurrences from the left, past some characters of the one before. -/
def replaceFrom (pattern replacement : List Char) : Nat → List Char → List Char
  | _, [] => []
  | skipped + 1, _ :: cs => replaceFrom pattern replacement skipped cs
  | 0, c :: cs =>
    if pattern.isPrefixOf (c :: cs) then
      replacement ++ replaceFrom pattern replacement (pattern.length - 1) cs
    else c :: replaceFrom pattern replacement 0 cs

/-- Replace a pattern wherever it occurs; occurrences do not overlap. -/
def replace (pattern replacement text : List Char) : List Char :=
  replaceFrom pattern replacement 0 text

/-- A character that is no start of the pattern stays. -/
theorem replace_cons_of_not_prefix {pattern : List Char} (replacement : List Char) {c : Char}
    {cs : List Char} (h : pattern.isPrefixOf (c :: cs) = false) :
    replace pattern replacement (c :: cs) = c :: replace pattern replacement cs := by
  rw [replace, replaceFrom, if_neg (by simp [h])]
  rfl

/-- A character other than the first of the pattern stays. -/
theorem replace_cons_of_ne {first : Char} (others replacement : List Char) {c : Char}
    (h : c ≠ first) (cs : List Char) :
    replace (first :: others) replacement (c :: cs) =
      c :: replace (first :: others) replacement cs := by
  apply replace_cons_of_not_prefix
  simp [List.isPrefixOf, Ne.symm h]

/-- A pattern at the start of a text is replaced. -/
theorem replace_append (first : Char) (others replacement text : List Char) :
    replace (first :: others) replacement (first :: (others ++ text)) =
      replacement ++ replace (first :: others) replacement text := by
  have hskip : ∀ skipped : List Char,
      replaceFrom (first :: others) replacement skipped.length (skipped ++ text) =
        replace (first :: others) replacement text := by
    intro skipped
    induction skipped with
    | nil => rfl
    | cons c cs ih => exact ih
  rw [replace, replaceFrom, if_pos (by simp), List.length_cons, Nat.add_one_sub_one, hskip]

/-- Replacing never puts a brace in front. -/
theorem replace_ne_brace (first : Char) (replacement : List Char) {text : List Char}
    (htext : ∀ cs, text ≠ '{' :: cs) (cs : List Char) :
    replace [first] ('\\' :: replacement) text ≠ '{' :: cs := by
  cases text with
  | nil => simp [replace, replaceFrom]
  | cons c text =>
    by_cases hc : c = first
    · subst hc
      rw [← List.nil_append text, replace_append]
      simp
    · rw [replace_cons_of_ne _ _ hc]
      intro heq
      exact htext text (by rw [(List.cons.inj heq).1])

/-- A dollar stays if no brace follows. -/
theorem replace_dollar (replacement : List Char) {text : List Char}
    (htext : ∀ cs, text ≠ '{' :: cs) :
    replace ['$', '{'] replacement ('$' :: text) = '$' :: replace ['$', '{'] replacement text := by
  apply replace_cons_of_not_prefix
  cases text with
  | nil => rfl
  | cons c cs =>
    have hc : c ≠ '{' := fun heq => htext cs (by rw [heq])
    simp [List.isPrefixOf, Ne.symm hc]

/-- Escaping is replacing backslashes, then backticks, and then the openings of holes. -/
theorem escape_eq_replace (text : List Char) :
    escape text = replace ['$', '{'] ['\\', '$', '{']
      (replace ['\x60'] ['\\', '\x60'] (replace ['\\'] ['\\', '\\'] text)) := by
  have hslash (cs : List Char) : replace ['\\'] ['\\', '\\'] ('\\' :: cs) =
      '\\' :: '\\' :: replace ['\\'] ['\\', '\\'] cs := replace_append '\\' [] _ cs
  have htick (cs : List Char) : replace ['\x60'] ['\\', '\x60'] ('\x60' :: cs) =
      '\\' :: '\x60' :: replace ['\x60'] ['\\', '\x60'] cs := replace_append '\x60' [] _ cs
  have hhole (cs : List Char) : replace ['$', '{'] ['\\', '$', '{'] ('$' :: '{' :: cs) =
      '\\' :: '$' :: '{' :: replace ['$', '{'] ['\\', '$', '{'] cs := replace_append '$' ['{'] _ cs
  induction text using escape.induct with
  | case1 => rfl
  | case2 text ih =>
    rw [escape, ih, hslash, replace_cons_of_ne [] _ (by decide), replace_cons_of_ne [] _ (by decide),
      replace_cons_of_ne ['{'] _ (by decide), replace_cons_of_ne ['{'] _ (by decide)]
  | case3 text ih =>
    rw [escape, ih, replace_cons_of_ne [] _ (by decide), htick,
      replace_cons_of_ne ['{'] _ (by decide), replace_cons_of_ne ['{'] _ (by decide)]
  | case4 text ih =>
    rw [escape, ih, replace_cons_of_ne [] _ (by decide), replace_cons_of_ne [] _ (by decide),
      replace_cons_of_ne [] _ (by decide), replace_cons_of_ne [] _ (by decide), hhole]
  | case5 c text hc₁ hc₂ hopen ih =>
    rw [escape.eq_5 c text hc₁ hc₂ hopen, ih, replace_cons_of_ne [] _ hc₁,
      replace_cons_of_ne [] _ hc₂]
    by_cases hc : c = '$'
    · subst hc
      -- The first two replacements leave no brace behind the dollar where there was none.
      have hbrace := replace_ne_brace '\\' ['\\'] fun cs => hopen cs rfl
      rw [replace_dollar _ (replace_ne_brace '\x60' ['\x60'] hbrace)]
    · rw [replace_cons_of_ne ['{'] _ hc]

end GraphqlClient.Template
