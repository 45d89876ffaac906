import GraphqlClient.Proofs.Text.Pattern
import GraphqlClient.Settings.Basic

/-!
# The import of the template tag

An import has one source that it is read off. Its statement names the tag in one of three ways and the
module between single quotes; as long as neither the module nor the name holds such a quote, the
statement can be read back.
-/

namespace GraphqlClient.GqlImport

open Text (Pattern dropPrefix?_append dropSuffix?_append)

/-- The source of an import: its module, and the exported name behind a `#`. -/
def source (i : GqlImport) : String :=
  match i.named with
  | none => i.module
  | some name => i.module ++ "#" ++ name

/-- The import that is read off a source has this source. -/
theorem source_ofSource (source : String) : (ofSource source).source = source := by
  have hsplit : source.toList.takeWhile (· != '#') ++ source.toList.dropWhile (· != '#') =
      source.toList := List.takeWhile_append_dropWhile
  rw [← String.toList_inj]
  cases hrest : source.toList.dropWhile (· != '#') with
  | nil =>
    rw [hrest, List.append_nil] at hsplit
    simp [ofSource, hrest, GqlImport.source, hsplit]
  | cons c name =>
    have hmark : c = '#' := by
      have hhead := List.head?_dropWhile_not (· != '#') source.toList
      simpa [hrest] using hhead
    rw [hrest, hmark] at hsplit
    simp [ofSource, hrest, GqlImport.source, hsplit]

/-- Different sources lead to different imports. -/
theorem ofSource_injective : Function.Injective ofSource :=
  Function.LeftInverse.injective source_ofSource

/-- What a source does not hold, neither the module nor the name holds. -/
theorem notMem_of_notMem_source {i : GqlImport} {c : Char} (h : c ∉ i.source.toList) :
    c ∉ i.module.toList ∧ ∀ name, i.named = some name → c ∉ name.toList := by
  rw [source] at h
  cases hnamed : i.named with
  | none => simpa [hnamed] using h
  | some name =>
    simp only [hnamed, String.toList_append, List.mem_append, not_or] at h
    exact ⟨h.1.1, fun other hother => Option.some.inj hother ▸ h.2⟩

/-- What a statement imports: a default export, or an exported name, renamed if it is another one. -/
def clause : Option String → String
  | none => "gql"
  | some "gql" => "\x7b gql \x7d"
  | some name => "\x7b " ++ name ++ " as gql \x7d"

/-- The clause and the module stand in fixed places of a statement. -/
def pattern : Pattern := ⟨"import ".toList, [('\x27', []), ('\x27', [';'])]⟩

/-- The exported name of a clause, if it has one. -/
def readClause (text : List Char) : Option (Option String) :=
  if text = "gql".toList then some none
  else if text = "\x7b gql \x7d".toList then some (some "gql")
  else do
    let name ← (← text.dropPrefix? "\x7b ".toList).dropSuffix? " as gql \x7d".toList
    return some (String.ofList name)

/-- The import of a statement. -/
def ofStatement? (statement : String) : Option GqlImport := do
  let [text, module] ← pattern.read statement.toList | none
  let named ← readClause (← text.dropSuffix? " from ".toList)
  return ⟨String.ofList module, named⟩

/-- A statement, spelled out. -/
theorem fill_pattern (text module : List Char) :
    pattern.fill [text, module] =
      "import ".toList ++ (text ++ ("'".toList ++ (module ++ "';".toList))) := rfl

/-- A statement is its pattern with the clause and the module in their places. -/
theorem toList_statement (i : GqlImport) :
    i.statement.toList =
      pattern.fill [(clause i.named).toList ++ " from ".toList, i.module.toList] := by
  have hstatement : i.statement = "import " ++ clause i.named ++ " from '" ++ i.module ++ "';" := rfl
  rw [hstatement, fill_pattern]
  simp

/-- A clause holds the characters of its name, and a few more. -/
theorem notMem_clause {named : Option String} {c : Char} (hc : c ∉ "\x7b as gql \x7d".toList)
    (hname : ∀ name, named = some name → c ∉ name.toList) : c ∉ (clause named).toList := by
  rw [clause.eq_def]
  split <;> simp_all

/-- Clauses are read back. -/
theorem readClause_clause (named : Option String) :
    readClause (clause named).toList = some named := by
  rw [clause.eq_def]
  split
  · rfl
  · rfl
  · next name _ =>
    have hclause : ("\x7b " ++ name ++ " as gql \x7d").toList =
        "\x7b ".toList ++ (name.toList ++ " as gql \x7d".toList) := by simp
    have hdefault : ("\x7b " ++ name ++ " as gql \x7d").toList ≠ "gql".toList := by simp
    have hplain : ("\x7b " ++ name ++ " as gql \x7d").toList ≠ "\x7b gql \x7d".toList := by
      -- Even without a name the clause of a renamed export is the longer one.
      intro h
      have hlength := congrArg List.length h
      simp at hlength
    rw [readClause, if_neg hdefault, if_neg hplain, hclause]
    simp only [dropPrefix?_append, dropSuffix?_append, Option.bind_eq_bind, Option.bind_some,
      Option.pure_def, String.ofList_toList]

/-- Statements are read back if neither the module nor the name holds a single quote. -/
theorem ofStatement?_statement {i : GqlImport} (h : '\x27' ∉ i.source.toList) :
    ofStatement? i.statement = some i := by
  obtain ⟨hmodule, hname⟩ := notMem_of_notMem_source h
  have hclause : '\x27' ∉ (clause i.named).toList ++ " from ".toList := by
    simp [notMem_clause (by decide) hname]
  have hread : pattern.read i.statement.toList =
      some [(clause i.named).toList ++ " from ".toList, i.module.toList] := by
    rw [toList_statement]
    exact Pattern.read_fill (.cons hclause (.cons hmodule .nil))
  simp only [ofStatement?, hread, dropSuffix?_append, readClause_clause, Option.bind_eq_bind,
    Option.bind_some, Option.pure_def, String.ofList_toList]

end GraphqlClient.GqlImport
