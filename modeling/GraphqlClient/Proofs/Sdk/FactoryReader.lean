import Mathlib.Data.Option.Basic
import GraphqlClient.Proofs.Text.Characters
import GraphqlClient.Proofs.Text.Lines
import GraphqlClient.Proofs.Text.Pattern
import GraphqlClient.Sdk.Method

/-!
# Reading a factory

A reader of rendered factories. It cuts the text into lines, the lines into those of single methods,
and reads the lines of each method against their patterns. What it reads off a method is a summary;
the lines that summaries stand for are read back to the summaries.
-/

namespace GraphqlClient

open Text (Pattern indentation splitOn)

/-- What the text of a method tells. -/
structure MethodSummary where
  name : String
  resultType : String
  variablesType : String
  operationType : String
  document : String
  verb : ClientVerb
  optional : Bool
  fetchPolicy : Bool
  deriving DecidableEq, Repr, Inhabited

namespace MethodSummary

/-- The line that names a method and its types. -/
def signature : Pattern :=
  ⟨[], [('(', "variables".toList), (':', [' ']), (')', ": Promise<FetchResult<".toList),
    ('>', "> \x7b".toList)]⟩

/-- The line that calls the client. -/
def call : Pattern := ⟨"  return client.".toList, [('<', []), (',', [' ']), ('>', "(\x7b".toList)]⟩

/-- The line of the document. -/
def argument : Pattern := ⟨"    ".toList, [(':', [' ']), (',', [])]⟩

/-- The line of the variables. -/
def variablesLine : List Char := "    variables,".toList

/-- The line of the fetch policy. -/
def policyLine : List Char := "    fetchPolicy: 'network-only',".toList

/-- The line that ends the call. -/
def callEnd : List Char := "  \x7d);".toList

/-- The mark behind the parameter of a method. -/
def mark (m : MethodSummary) : List Char := if m.optional then ['?'] else []

/-- The lines of a method before its closing brace. -/
def head (m : MethodSummary) : List (List Char) :=
  [signature.fill [m.name.toList, m.mark, m.variablesType.toList, m.resultType.toList],
    call.fill [m.verb.text.toList, m.resultType.toList, m.variablesType.toList],
    argument.fill [m.operationType.toList, m.document.toList], variablesLine] ++
    if m.fetchPolicy then [policyLine, callEnd] else [callEnd]

/-- The characters that set words apart in the lines of a method. -/
def separators : List Char := ['\n', '(', ':', ')', '<', '>', ',']

/-- A text that can stand between separators. -/
def IsWord (text : String) : Prop := ∀ c ∈ text.toList, c ∉ separators

/-- The texts of a summary. -/
def texts (m : MethodSummary) : List String :=
  [m.name, m.document, m.operationType, m.resultType, m.variablesType]

/-- A text between separators holds none of them. -/
theorem IsWord.notMem {text : String} (h : IsWord text) {c : Char} (hc : c ∈ separators) :
    c ∉ text.toList :=
  fun hmem => h c hmem hc

/-- The mark of a parameter is no separator. -/
theorem notMem_mark (m : MethodSummary) {c : Char} (hc : c ∈ separators) : c ∉ m.mark := by
  rw [mark]
  split
  · exact fun hmem => absurd (List.mem_singleton.mp hmem ▸ hc) (by decide)
  · simp

/-- Verbs hold no separators. -/
theorem notMem_verb (m : MethodSummary) {c : Char} (hc : c ∈ separators) :
    c ∉ m.verb.text.toList := by
  have hverbs : ∀ verb : ClientVerb, separators.all (· ∉ verb.text.toList) = true := by
    intro verb
    cases verb <;> decide
  exact of_decide_eq_true (List.all_eq_true.mp (hverbs m.verb) c hc)

end MethodSummary

namespace FactoryReader

open MethodSummary

/-- A line inside of the factory's methods. -/
def inner (line : List Char) : List Char := indentation 2 ++ line

/-- The first two lines of a factory. -/
def firstLines : List (List Char) :=
  ["export function getSdk(client: ApolloClient<any>) \x7b".toList, "  return \x7b".toList]

/-- The last two lines of a factory. -/
def lastLines : List (List Char) := ["  \x7d;".toList, ['\x7d']]

/-- The line between two methods. -/
def nextMethod : List Char := inner "\x7d,".toList

/-- The line behind the last method. -/
def noMethod : List Char := inner ['\x7d']

/-- The lines of methods, as they stand between the lines that separate them. -/
def blocks : List MethodSummary → List (List (List Char))
  | [] => []
  | [m] => [m.head.map inner ++ noMethod :: lastLines]
  | m :: next :: ms => m.head.map inner :: blocks (next :: ms)

/-- The lines of a factory; without methods one of them is empty. -/
def lines (ms : List MethodSummary) : List (List Char) :=
  firstLines ++ if ms.isEmpty then [] :: lastLines else [nextMethod].intercalate (blocks ms)

/-- Whether a mark makes a parameter optional. -/
def readMark (mark : List Char) : Option Bool :=
  if mark = [] then some false else if mark = ['?'] then some true else none

/-- The verb that a text spells. -/
def readVerb (text : List Char) : Option ClientVerb :=
  [ClientVerb.query, ClientVerb.mutate].find? (·.text.toList = text)

/-- Whether a fetch policy comes before the end of a call, and what follows the call. -/
def readCallEnd (lines : List (List Char)) : Option (Bool × List (List Char)) :=
  (lines.dropPrefix? [inner callEnd]).map (false, ·) <|>
    (lines.dropPrefix? [inner policyLine, inner callEnd]).map (true, ·)

/-- The method that some lines begin with, and the lines behind its call. -/
def readHead : List (List Char) → Option (MethodSummary × List (List Char))
  | first :: second :: third :: fourth :: rest => do
    let [name, mark, variablesType, resultType] ← (signature.indent 2).read first | none
    let [verb, resultType', variablesType'] ← (call.indent 2).read second | none
    let [operationType, document] ← (argument.indent 2).read third | none
    guard (resultType' = resultType ∧ variablesType' = variablesType ∧ fourth = inner variablesLine)
    let optional ← readMark mark
    let verb ← readVerb verb
    let (fetchPolicy, rest) ← readCallEnd rest
    return (⟨String.ofList name, String.ofList resultType, String.ofList variablesType,
      String.ofList operationType, String.ofList document, verb, optional, fetchPolicy⟩, rest)
  | _ => none

/-- The methods of some blocks, of which the last one ends the factory. -/
def readBlocks : List (List (List Char)) → Option (List MethodSummary)
  | [] => none
  | [block] => do
    let (m, rest) ← readHead block
    guard (rest = noMethod :: lastLines)
    return [m]
  | block :: next :: blocks => do
    let (m, rest) ← readHead block
    guard (rest = [])
    let ms ← readBlocks (next :: blocks)
    return m :: ms

/-- The methods of a factory, read line by line. -/
def read (text : String) : Option (List MethodSummary) := do
  let body ← (splitOn '\n' text.toList).dropPrefix? firstLines
  readBlocks (body.splitOn nextMethod) <|> if body = [] :: lastLines then some [] else none

/-- No line of a method holds the end of a line. -/
theorem newline_notMem_head {m : MethodSummary} (h : ∀ text ∈ m.texts, IsWord text) :
    ∀ line ∈ m.head, '\n' ∉ line := by
  simp only [texts, List.forall_mem_cons] at h
  obtain ⟨hname, hdocument, hoperation, hresult, hvariables, _⟩ := h
  have hnewline : '\n' ∈ separators := by decide
  have hsignature : '\n' ∉ signature.fill
      [m.name.toList, m.mark, m.variablesType.toList, m.resultType.toList] :=
    Pattern.notMem_fill (by decide) (by decide) (by
      simp [hname.notMem, m.notMem_mark, hvariables.notMem, hresult.notMem, hnewline])
  have hcall : '\n' ∉ call.fill
      [m.verb.text.toList, m.resultType.toList, m.variablesType.toList] :=
    Pattern.notMem_fill (by decide) (by decide) (by
      simp [m.notMem_verb, hvariables.notMem, hresult.notMem, hnewline])
  have hargument : '\n' ∉ argument.fill [m.operationType.toList, m.document.toList] :=
    Pattern.notMem_fill (by decide) (by decide) (by
      simp [hoperation.notMem, hdocument.notMem, hnewline])
  have hvariables : '\n' ∉ variablesLine := by decide
  have hpolicy : '\n' ∉ policyLine := by decide
  have hend : '\n' ∉ callEnd := by decide
  rw [head]
  cases m.fetchPolicy <;> simp [hsignature, hcall, hargument, hvariables, hpolicy, hend]

/-- No line of the blocks of methods holds the end of a line. -/
theorem newline_notMem_blocks {ms : List MethodSummary}
    (h : ∀ m ∈ ms, ∀ text ∈ m.texts, IsWord text) :
    ∀ block ∈ blocks ms, ∀ line ∈ block, '\n' ∉ line := by
  have hinner : ∀ m : MethodSummary, (∀ text ∈ m.texts, IsWord text) →
      ∀ line ∈ m.head.map inner, '\n' ∉ line := by
    intro m hm line hline
    obtain ⟨line, hmem, rfl⟩ := List.mem_map.mp hline
    rw [inner, List.mem_append, not_or]
    exact ⟨by decide, newline_notMem_head hm line hmem⟩
  induction ms with
  | nil => simp [blocks]
  | cons m ms ih =>
    obtain ⟨hm, hms⟩ := List.forall_mem_cons.mp h
    cases ms with
    | nil =>
      have hlast : ∀ line ∈ noMethod :: lastLines, '\n' ∉ line := by decide
      exact List.forall_mem_singleton.mpr (List.forall_mem_append.mpr ⟨hinner m hm, hlast⟩)
    | cons next ms => exact List.forall_mem_cons.mpr ⟨hinner m hm, ih hms⟩

/-- No line of a factory holds the end of a line. -/
theorem newline_notMem_lines {ms : List MethodSummary}
    (h : ∀ m ∈ ms, ∀ text ∈ m.texts, IsWord text) : ∀ line ∈ lines ms, '\n' ∉ line := by
  have hfirst : ∀ line ∈ firstLines, '\n' ∉ line := by decide
  refine List.forall_mem_append.mpr ⟨hfirst, ?_⟩
  split
  · decide
  · intro line hline
    rcases Text.mem_of_mem_intercalate hline with hline | ⟨block, hblock, hline⟩
    · rw [List.mem_singleton.mp hline]
      decide
    · exact newline_notMem_blocks h block hblock line hline

end FactoryReader

end GraphqlClient
