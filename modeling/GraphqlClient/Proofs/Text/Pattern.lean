import Mathlib.Data.List.Forall2
import GraphqlClient.Text.Indent

/-!
# Patterns

A pattern is a text with places for words in it. A word ends at the first character of the fixed
text behind its place, so words without that character can be read back from the filled pattern.
-/

namespace GraphqlClient.Text

/-- A prefix is dropped from a list that starts with it. -/
theorem dropPrefix?_append {α : Type} [BEq α] [LawfulBEq α] (fixed rest : List α) :
    (fixed ++ rest).dropPrefix? fixed = some rest :=
  List.dropPrefix?_eq_some_iff.mpr ⟨fixed, rfl, beq_self_eq_true fixed⟩

/-- A suffix is dropped from a list that ends in it. -/
theorem dropSuffix?_append {α : Type} [BEq α] [LawfulBEq α] (front fixed : List α) :
    (front ++ fixed).dropSuffix? fixed = some front :=
  List.dropSuffix?_eq_some_iff.mpr ⟨fixed, rfl, beq_self_eq_true fixed⟩

/-- A fixed text, and behind each place for a word another one, its first character apart. -/
structure Pattern where
  start : List Char
  ends : List (Char × List Char)

namespace Pattern

/-- The words in front of fixed texts, with these texts. -/
def fillEnds : List (Char × List Char) → List (List Char) → List Char
  | (stop, fixed) :: ends, word :: words => word ++ stop :: (fixed ++ fillEnds ends words)
  | _, _ => []

/-- The pattern with words in its places. -/
def fill (p : Pattern) (words : List (List Char)) : List Char := p.start ++ fillEnds p.ends words

/-- The pattern for indented lines. -/
def indent (levels : Nat) (p : Pattern) : Pattern := ⟨indentation levels ++ p.start, p.ends⟩

/-- Read words in front of fixed texts, up to the end of the text. -/
def readEnds : List (Char × List Char) → List Char → Option (List (List Char))
  | [], text => if text = [] then some [] else none
  | (stop, fixed) :: ends, text => do
    let rest ← (text.dropWhile (· != stop)).dropPrefix? (stop :: fixed)
    let words ← readEnds ends rest
    return text.takeWhile (· != stop) :: words

/-- Read the words of a filled pattern. -/
def read (p : Pattern) (text : List Char) : Option (List (List Char)) := do
  readEnds p.ends (← text.dropPrefix? p.start)

/-- Words without the characters that end them are read back. -/
theorem readEnds_fillEnds {ends : List (Char × List Char)} {words : List (List Char)}
    (h : List.Forall₂ (fun e word => e.1 ∉ word) ends words) :
    readEnds ends (fillEnds ends words) = some words := by
  induction h with
  | nil => rfl
  | @cons e word ends words hword _ ih =>
    obtain ⟨stop, fixed⟩ := e
    have hpass : ∀ c ∈ word, (c != stop) = true := fun c hc =>
      bne_iff_ne.mpr fun heq => hword (heq ▸ hc)
    have htake : (word ++ stop :: (fixed ++ fillEnds ends words)).takeWhile (· != stop) = word := by
      rw [List.takeWhile_append_of_pos hpass, List.takeWhile_cons_of_neg (by simp), List.append_nil]
    have hdrop : (word ++ stop :: (fixed ++ fillEnds ends words)).dropWhile (· != stop) =
        (stop :: fixed) ++ fillEnds ends words := by
      rw [List.dropWhile_append_of_pos hpass, List.dropWhile_cons_of_neg (by simp), List.cons_append]
    rw [fillEnds, readEnds, htake, hdrop, dropPrefix?_append]
    change (readEnds ends (fillEnds ends words)).bind _ = _
    rw [ih]
    rfl

/-- The words of a filled pattern are read back if none holds the character that ends it. -/
theorem read_fill {p : Pattern} {words : List (List Char)}
    (h : List.Forall₂ (fun e word => e.1 ∉ word) p.ends words) :
    p.read (p.fill words) = some words := by
  rw [fill, read, dropPrefix?_append]
  exact readEnds_fillEnds h

/-- A character comes in with a fixed text or a word. -/
theorem notMem_fillEnds {ends : List (Char × List Char)} {words : List (List Char)} {c : Char}
    (hends : ∀ e ∈ ends, c ∉ e.1 :: e.2) (hwords : ∀ word ∈ words, c ∉ word) :
    c ∉ fillEnds ends words := by
  induction ends generalizing words with
  | nil => simp [fillEnds]
  | cons e ends ih =>
    cases words with
    | nil => simp [fillEnds]
    | cons word words =>
      obtain ⟨he, hends⟩ := List.forall_mem_cons.mp hends
      obtain ⟨hword, hwords⟩ := List.forall_mem_cons.mp hwords
      rw [fillEnds, ← List.cons_append, List.mem_append, List.mem_append, not_or, not_or]
      exact ⟨hword, he, ih hends hwords⟩

/-- A filled pattern holds no character that neither its fixed texts nor the words hold. -/
theorem notMem_fill {p : Pattern} {words : List (List Char)} {c : Char} (hstart : c ∉ p.start)
    (hends : ∀ e ∈ p.ends, c ∉ e.1 :: e.2) (hwords : ∀ word ∈ words, c ∉ word) :
    c ∉ p.fill words := by
  rw [fill, List.mem_append, not_or]
  exact ⟨hstart, notMem_fillEnds hends hwords⟩

end Pattern

end GraphqlClient.Text
