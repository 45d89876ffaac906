import GraphqlClient.Document.Source
import GraphqlClient.Proofs.Token.Names

/-!
# Names in documents

A document that is read from a text gives names of the grammar to its operations and fragments.
The readers of all other constructs only have to leave the lexemes as proper as they were.
-/

namespace GraphqlClient

open Reader (Yields Keeps)

/-- Reading inside a bracket keeps names proper. -/
theorem keeps_bracketed {α : Type} (depth : Nat) {inner : Nat → Reader α}
    (h : ∀ depth, Keeps (inner depth)) : Keeps (bracketed depth inner) := by
  cases depth with
  | zero => exact Yields.fail
  | succ depth => exact Yields.take.bind fun _ _ => h depth

namespace Value

/-- Reading a plain value keeps names proper. -/
theorem keeps_readPlain (allowVariables : Bool) : Keeps (readPlain allowVariables) := by
  refine Yields.peek.bind fun t _ => ?_
  split
  · exact Yields.take.bind fun _ _ => .pure trivial
  · exact Yields.take.bind fun _ _ => .pure trivial
  · exact Yields.take.bind fun _ _ => .pure trivial
  · exact Yields.take.bind fun _ _ => .pure trivial
  · split
    · exact Yields.take.bind fun _ _ => Yields.name.bind fun _ _ => .pure trivial
    · exact Yields.fail
  · exact Yields.fail

/-- Reading a field of an object keeps names proper. -/
theorem keeps_readField {value : Reader Value} (h : Keeps value) : Keeps (readField value) :=
  Yields.name.bind fun _ _ => (Yields.mark ':').bind fun _ _ => h.bind fun _ _ => .pure trivial

/-- Reading a value keeps names proper. -/
theorem keeps_read (allowVariables : Bool) (depth : Nat) : Keeps (read allowVariables depth) := by
  induction depth with
  | zero => exact keeps_readPlain allowVariables
  | succ depth ih =>
    unfold read
    refine Yields.peek.bind fun t _ => ?_
    split
    · exact Yields.take.bind fun _ _ => (Yields.closedBy ']' ih).bind fun _ _ => .pure trivial
    · exact Yields.take.bind fun _ _ =>
        (Yields.closedBy '}' (keeps_readField ih)).bind fun _ _ => .pure trivial
    · exact keeps_readPlain allowVariables

end Value

namespace TypeRef

/-- Reading the mark behind a type keeps names proper. -/
theorem keeps_readStrength (type : TypeRef) : Keeps (readStrength type) := by
  refine (Yields.token? (.mark '!')).bind fun found _ => ?_
  split <;> exact .pure trivial

/-- Reading a type keeps names proper. -/
theorem keeps_read (depth : Nat) : Keeps (read depth) := by
  induction depth with
  | zero => exact Yields.name.bind fun _ _ => keeps_readStrength _
  | succ depth ih =>
    unfold read
    refine (Yields.token? (.mark '[')).bind fun found _ => ?_
    split
    · exact ih.bind fun _ _ => (Yields.mark ']').bind fun _ _ => keeps_readStrength _
    · exact Yields.name.bind fun _ _ => keeps_readStrength _

end TypeRef

/-- Reading arguments keeps names proper. -/
theorem keeps_readArguments (depth : Nat) : Keeps (readArguments depth) := by
  refine Yields.peek.bind fun t _ => ?_
  split
  · exact keeps_bracketed depth fun inner =>
      Yields.someClosedBy ')' (Value.keeps_readField (Value.keeps_read true inner))
  · exact .pure trivial

/-- Reading directives keeps names proper. -/
theorem keeps_readDirectives (depth : Nat) : Keeps (readDirectives depth) := by
  refine Yields.remaining.bind fun bound _ => Yields.eachAfter '@' ?_ bound
  exact Yields.name.bind fun _ _ => (keeps_readArguments depth).bind fun _ _ => .pure trivial

namespace VariableDefinition

/-- Reading the definition of a variable keeps names proper. -/
theorem keeps_read (depth : Nat) : Keeps (read depth) := by
  refine (Yields.mark '$').bind fun _ _ => Yields.name.bind fun _ _ => (Yields.mark ':').bind
    fun _ _ => (TypeRef.keeps_read depth).bind fun _ _ => (Yields.token? (.mark '=')).bind
    fun found _ => ?_
  split
  · exact (Value.keeps_read false depth).bind fun _ _ => .pure trivial
  · exact .pure trivial

/-- Reading the variables of an operation keeps names proper. -/
theorem keeps_readAll (depth : Nat) : Keeps (readAll depth) := by
  refine Yields.peek.bind fun t _ => ?_
  split
  · exact keeps_bracketed depth fun inner => Yields.someClosedBy ')' (keeps_read inner)
  · exact .pure trivial

end VariableDefinition

namespace Selection

/-- A reader of entries, if there is one, keeps names proper. -/
def KeepsEntries (selection : Option (Reader Selection)) : Prop :=
  ∀ r, selection = some r → Keeps r

/-- Reading a selection set keeps names proper. -/
theorem keeps_readSet {selection : Option (Reader Selection)} (h : KeepsEntries selection) :
    Keeps (readSet selection) := by
  refine Yields.peek.bind fun t _ => ?_
  split
  · next r _ => exact Yields.take.bind fun _ _ => Yields.someClosedBy '}' (h r rfl)
  · exact Yields.fail

/-- Reading a field keeps names proper. -/
theorem keeps_readField (depth : Nat) {selection : Option (Reader Selection)}
    (h : KeepsEntries selection) : Keeps (readField depth selection) := by
  unfold readField
  refine Yields.name.bind fun first _ => (Yields.token? (.mark ':')).bind fun aliased _ => ?_
  have hrest : ∀ (aliasName : Option String) (name : String), Keeps (do
      let arguments ← readArguments depth
      let directives ← readDirectives depth
      let selections ← if (← Reader.peek) = .mark '{' then readSet selection else pure []
      return Selection.field aliasName name arguments directives selections) := by
    intro aliasName name
    refine (keeps_readArguments depth).bind fun _ _ => (keeps_readDirectives depth).bind
      fun _ _ => Yields.peek.bind fun t _ => ?_
    dsimp only
    split
    · exact (keeps_readSet h).bind fun _ _ => .pure trivial
    · exact .pure trivial
  dsimp only
  split
  · exact Yields.name.bind fun name _ => hrest (some first) name
  · exact hrest none first

/-- Reading what follows three dots keeps names proper. -/
theorem keeps_readSpread (depth : Nat) {selection : Option (Reader Selection)}
    (h : KeepsEntries selection) : Keeps (readSpread depth selection) := by
  refine Yields.peek.bind fun t _ => ?_
  split
  · refine Yields.take.bind fun _ _ => ?_
    split
    · exact Yields.name.bind fun _ _ => (keeps_readDirectives depth).bind fun _ _ =>
        (keeps_readSet h).bind fun _ _ => .pure trivial
    · exact (keeps_readDirectives depth).bind fun _ _ => .pure trivial
  · exact (keeps_readDirectives depth).bind fun _ _ =>
      (keeps_readSet h).bind fun _ _ => .pure trivial

/-- Reading an entry of a selection set keeps names proper, if reading those inside does. -/
theorem keeps_readWith (depth : Nat) {selection : Option (Reader Selection)}
    (h : KeepsEntries selection) : Keeps (readWith depth selection) := by
  refine (Yields.token? .spread).bind fun found _ => ?_
  split
  · exact keeps_readSpread depth h
  · exact keeps_readField depth h

/-- Reading an entry of a selection set keeps names proper. -/
theorem keeps_read (depth : Nat) : Keeps (read depth) := by
  induction depth with
  | zero => exact keeps_readWith 0 (by simp [KeepsEntries])
  | succ depth ih =>
    refine keeps_readWith (depth + 1) fun r hr => ?_
    rw [← Option.some.inj hr]
    exact ih

/-- Reading a whole selection set keeps names proper. -/
theorem keeps_readAll (depth : Nat) : Keeps (readAll depth) := by
  refine keeps_readSet fun r hr => ?_
  cases depth with
  | zero => cases hr
  | succ depth =>
    rw [← Option.some.inj hr]
    exact keeps_read depth

end Selection

namespace Definition

/-- The name of a definition is a name of the grammar, if it has one. -/
def Named : Definition → Prop
  | .shorthand _ => True
  | .operation o => ∀ name, o.name = some name → IsName name
  | .fragment f => IsName f.name

/-- An operation is read with a proper name, if any. -/
theorem yields_readOperation (kind : OperationKind) (position : Position) :
    Yields Named (readOperation kind position) := by
  have hrest : ∀ name : Option String, (∀ text, name = some text → IsName text) →
      Yields Named (do
        let definitions ← VariableDefinition.readAll maxDepth
        let directives ← readDirectives maxDepth
        let selections ← Selection.readAll maxDepth
        return Definition.operation ⟨kind, name, definitions, directives, selections, position⟩) := by
    intro name hname
    exact (VariableDefinition.keeps_readAll maxDepth).bind fun _ _ =>
      (keeps_readDirectives maxDepth).bind fun _ _ =>
        (Selection.keeps_readAll maxDepth).bind fun _ _ => .pure hname
  unfold readOperation
  refine Yields.peek.bind fun t ht => ?_
  cases t with
  | name text =>
    refine Yields.take.bind fun _ _ => hrest (some text) fun name heq => ?_
    exact Option.some.inj heq ▸ ht
  | _ => exact hrest none (by simp)

/-- A fragment is read with a proper name. -/
theorem yields_readFragment (position : Position) : Yields Named (readFragment position) :=
  Yields.name.bind fun _ hname => (Yields.token (.name "on")).bind fun _ _ =>
    Yields.name.bind fun _ _ => (keeps_readDirectives maxDepth).bind fun _ _ =>
      (Selection.keeps_readAll maxDepth).bind fun _ _ => .pure hname

/-- A definition is read with a proper name, if any. -/
theorem yields_read : Yields Named read := by
  refine Yields.next.bind fun first _ => ?_
  split
  · exact (Selection.keeps_readAll maxDepth).bind fun _ _ => .pure trivial
  · split
    · exact Yields.take.bind fun _ _ => yields_readOperation _ _
    · split
      · exact Yields.take.bind fun _ _ => yields_readFragment _
      · exact Yields.fail
  · exact Yields.fail

end Definition

/-- The definitions of a document that is read from a text have names of the grammar. -/
theorem SourceDocument.named_of_ofText {file : Option String} {text : String} {s : SourceDocument}
    (h : SourceDocument.ofText file text = .ok s) : ∀ d ∈ s.document, d.Named := by
  rw [SourceDocument.ofText] at h
  cases hdocument : Document.ofText text with
  | error position =>
    rw [hdocument] at h
    cases h
  | ok document =>
    rw [hdocument] at h
    cases h
    rw [Document.ofText, Reader.ofText] at hdocument
    cases hrun : (Reader.untilFinish Definition.read).run (Lexemes.ofText text) with
    | error position =>
      rw [hrun] at hdocument
      cases hdocument
    | ok result =>
      rw [hrun] at hdocument
      cases hdocument
      exact (Yields.untilFinish Definition.yields_read _ result.1 result.2 hrun
        (Lexemes.spelled_scan _ _)).2

end GraphqlClient
