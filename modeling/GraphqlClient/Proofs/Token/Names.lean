import Mathlib.Data.List.TakeWhile
import GraphqlClient.Token.Reader

/-!
# Names among lexemes

The lexer gives out names of the grammar only: a letter or underscore, followed by letters, digits
and underscores. Readers never add lexemes, so the names that they take are names of the grammar.
-/

namespace GraphqlClient

/-- A name of the grammar. -/
def IsName (text : String) : Prop :=
  ∃ first others, text.toList = first :: others ∧ isNameStart first = true ∧
    ∀ c ∈ others, isNameRest c = true

/-- Whether some characters spell a name of the grammar. -/
def spellsName : List Char → Bool
  | [] => false
  | first :: others => isNameStart first && others.all isNameRest

/-- A name of the grammar is spelled as one. -/
theorem spellsName_iff {text : String} : spellsName text.toList = true ↔ IsName text := by
  rw [IsName]
  cases text.toList with
  | nil => exact ⟨nofun, nofun⟩
  | cons first others =>
    rw [spellsName, Bool.and_eq_true_iff, List.all_eq_true]
    refine ⟨fun h => ⟨first, others, rfl, h⟩, ?_⟩
    rintro ⟨_, _, htext, h⟩
    cases htext
    exact h

instance (text : String) : Decidable (IsName text) := decidable_of_iff _ spellsName_iff

/-- What starts a name also continues one. -/
theorem isNameRest_of_isNameStart {c : Char} (h : isNameStart c = true) : isNameRest c = true := by
  rw [isNameStart, Bool.or_eq_true] at h
  rw [isNameRest, Bool.or_eq_true, Char.isAlphanum, Bool.or_eq_true]
  exact h.imp id Or.inl

/-- All characters of a name continue names. -/
theorem IsName.isNameRest {text : String} (h : IsName text) :
    ∀ c ∈ text.toList, isNameRest c = true := by
  obtain ⟨first, others, htext, hfirst, hothers⟩ := h
  rw [htext]
  exact List.forall_mem_cons.mpr ⟨isNameRest_of_isNameStart hfirst, hothers⟩

/-- A token that is a name of the grammar, if it is a name. -/
def Token.Spelled : Token → Prop
  | .name text => IsName text
  | _ => True

/-- A number is no name. -/
theorem Token.spelled_of_ofNumber? {text : List Char} {t : Token} (h : ofNumber? text = some t) :
    t.Spelled := by
  rw [ofNumber?] at h
  split at h
  · obtain ⟨_, _, rfl⟩ := Option.map_eq_some_iff.mp h
    trivial
  · obtain ⟨_, _, rfl⟩ := Option.map_eq_some_iff.mp h
    trivial

/-- Every name that the lexer reads is one of the grammar. -/
theorem scan?_spelled {text : List Char} {s : Scanned} (h : scan? text = some s) :
    s.token.Spelled := by
  unfold scan? at h
  split at h
  · cases h
    trivial
  · obtain ⟨_, _, rfl⟩ := Option.map_eq_some_iff.mp h
    trivial
  · simp only [Option.bind_eq_bind, Option.bind_eq_some_iff, Option.pure_def, Prod.exists,
      Option.some.injEq] at h
    obtain ⟨_, _, _, _, _, rfl⟩ := h
    trivial
  · next c cs _ _ _ =>
    split at h
    · cases h
      trivial
    · split at h
      · next hstart =>
        cases h
        refine ⟨c, cs.takeWhile GraphqlClient.isNameRest, String.toList_ofList, hstart, ?_⟩
        exact fun x hx => List.mem_takeWhile_imp hx
      · split at h
        · obtain ⟨token, htoken, rfl⟩ := Option.map_eq_some_iff.mp h
          exact Token.spelled_of_ofNumber? htoken
        · cases h
  · cases h

namespace Lexemes

/-- All names among some lexemes are names of the grammar. -/
def Spelled (l : Lexemes) : Prop :=
  (∀ lexeme ∈ l.ahead, lexeme.token.Spelled) ∧ l.stop.token.Spelled

/-- The lexemes of a text name only names of the grammar. -/
theorem spelled_scan (p : Position) (text : List Char) : (Lexemes.scan p text).Spelled := by
  induction p, text using Lexemes.scan.induct with
  | case1 p text _ htext =>
    rw [Lexemes.scan]
    split
    · exact ⟨by simp, trivial⟩
    · simp_all
  | case2 p text c cs _ htext hscan =>
    rw [Lexemes.scan]
    split
    · exact ⟨by simp, trivial⟩
    · split
      · exact ⟨by simp, trivial⟩
      · simp_all
  | case3 p text start c cs _ htext s hscan ih =>
    rw [Lexemes.scan]
    split
    · exact ⟨by simp, trivial⟩
    · next c' cs' _ heq _ =>
      obtain ⟨rfl, rfl⟩ := List.cons.inj (heq.symm.trans htext)
      split
      · exact ⟨by simp, trivial⟩
      · next s' hread =>
        obtain rfl := Option.some.inj (hread.symm.trans hscan)
        exact ⟨List.forall_mem_cons.mpr ⟨scan?_spelled hread, ih.1⟩, ih.2⟩

end Lexemes

/-- A reader that succeeds on lexemes of proper names gives a value with a property, and leaves
lexemes of proper names. -/
def Reader.Yields {α : Type} (P : α → Prop) (r : Reader α) : Prop :=
  ∀ lexemes a rest, r.run lexemes = .ok (a, rest) → lexemes.Spelled → rest.Spelled ∧ P a

/-- A reader leaves lexemes of proper names, whatever value it gives. -/
abbrev Reader.Keeps {α : Type} (r : Reader α) : Prop := r.Yields fun _ => True

namespace Reader

variable {α β : Type} {P : α → Prop} {Q : β → Prop}

namespace Yields

/-- A value that is there has its properties. -/
theorem pure {a : α} (h : P a) : Yields P (Pure.pure a : Reader α) := by
  intro lexemes b rest hrun hspelled
  cases hrun
  exact ⟨hspelled, h⟩

/-- Readers follow one another. -/
theorem bind {x : Reader α} {k : α → Reader β} (hx : Yields P x)
    (hk : ∀ a, P a → Yields Q (k a)) : Yields Q (x >>= k) := by
  intro lexemes b rest hrun hspelled
  rw [StateT.run_bind] at hrun
  cases hfirst : x.run lexemes with
  | error position =>
    rw [hfirst] at hrun
    cases hrun
  | ok first =>
    rw [hfirst] at hrun
    obtain ⟨hmiddle, ha⟩ := hx lexemes first.1 first.2 hfirst hspelled
    exact hk first.1 ha first.2 b rest hrun hmiddle

/-- The next lexeme has a proper name, if any. -/
theorem next : Yields (fun lexeme => lexeme.token.Spelled) Reader.next := by
  intro lexemes lexeme rest hrun hspelled
  cases hrun
  refine ⟨hspelled, ?_⟩
  change ((lexemes.ahead.headD lexemes.stop).token).Spelled
  cases hahead : lexemes.ahead with
  | nil => exact hspelled.2
  | cons first others => exact hspelled.1 first (hahead ▸ List.mem_cons_self)

/-- The next token is a proper name, if it is a name. -/
theorem peek : Yields Token.Spelled Reader.peek := next.bind fun _ h => .pure h

/-- Failing gives no value. -/
theorem fail : Yields P (Reader.fail : Reader α) := by
  refine next.bind fun lexeme _ => ?_
  intro lexemes a rest hrun _
  cases hrun

/-- Taking a lexeme leaves the others. -/
theorem take : Keeps Reader.take := by
  intro lexemes a rest hrun hspelled
  cases hrun
  exact ⟨⟨fun lexeme h => hspelled.1 lexeme (List.mem_of_mem_tail h), hspelled.2⟩, trivial⟩

/-- Counting leaves all lexemes. -/
theorem remaining : Keeps Reader.remaining := by
  intro lexemes a rest hrun hspelled
  cases hrun
  exact ⟨hspelled, trivial⟩

/-- Taking a given token keeps names proper. -/
theorem token (expected : Token) : Keeps (Reader.token expected) := by
  refine peek.bind fun t _ => ?_
  split
  · exact take
  · exact fail

/-- Taking a mark keeps names proper. -/
theorem mark (c : Char) : Keeps (Reader.mark c) := token (.mark c)

/-- Taking a token if it is next keeps names proper. -/
theorem token? (expected : Token) : Keeps (Reader.token? expected) := by
  refine peek.bind fun t _ => ?_
  split
  · exact take.bind fun _ _ => .pure trivial
  · exact .pure trivial

/-- A name that is taken is proper. -/
theorem name : Yields IsName Reader.name := by
  refine peek.bind fun t ht => ?_
  cases t with
  | name text => exact take.bind fun _ _ => .pure ht
  | _ => exact fail

/-- Items up to a token have what every item has. -/
theorem itemsBefore (close : Token) {item : Reader α} (h : Yields P item) (bound : Nat) :
    Yields (fun items => ∀ a ∈ items, P a) (Reader.itemsBefore close item bound) := by
  induction bound with
  | zero =>
    unfold Reader.itemsBefore
    refine peek.bind fun t _ => ?_
    split
    · exact .pure (by simp)
    · exact fail
  | succ bound ih =>
    unfold Reader.itemsBefore
    refine peek.bind fun t _ => ?_
    split
    · exact .pure (by simp)
    · refine h.bind fun first hfirst => ih.bind fun others hothers => .pure ?_
      exact List.forall_mem_cons.mpr ⟨hfirst, hothers⟩

/-- Items up to a mark keep names proper. -/
theorem closedBy (close : Char) {item : Reader α} (h : Keeps item) :
    Keeps (Reader.closedBy close item) :=
  remaining.bind fun bound _ => (itemsBefore (.mark close) h bound).bind fun _ _ =>
    (mark close).bind fun _ _ => .pure trivial

/-- One item or more up to a mark keep names proper. -/
theorem someClosedBy (close : Char) {item : Reader α} (h : Keeps item) :
    Keeps (Reader.someClosedBy close item) :=
  h.bind fun _ _ => (closedBy close h).bind fun _ _ => .pure trivial

/-- Items behind marks keep names proper. -/
theorem eachAfter (lead : Char) {item : Reader α} (h : Keeps item) (bound : Nat) :
    Keeps (Reader.eachAfter lead item bound) := by
  induction bound with
  | zero => exact .pure trivial
  | succ bound ih =>
    unfold Reader.eachAfter
    refine (token? (.mark lead)).bind fun found _ => ?_
    split
    · exact h.bind fun _ _ => ih.bind fun _ _ => .pure trivial
    · exact .pure trivial

/-- Items up to the end of the text have what every item has. -/
theorem untilFinish {item : Reader α} (h : Yields P item) :
    Yields (fun items => ∀ a ∈ items, P a) (Reader.untilFinish item) := by
  refine h.bind fun first hfirst => remaining.bind fun bound _ => ?_
  refine (itemsBefore .finish h bound).bind fun others hothers => .pure ?_
  exact List.forall_mem_cons.mpr ⟨hfirst, hothers⟩

end Yields

end Reader

end GraphqlClient
