import GraphqlClient.Proofs.Declaration.Interpolation

/-!
# Evaluating declarations

Declarations are evaluated from top to bottom: a constant is bound to its own definition followed
by the values of the constants that it interpolates. When every loaded fragment that a declaration
spreads is declared before it, each constant is bound to its definition and to those of the
fragments that are reached from it.
-/

namespace GraphqlClient

/-- What constants are bound to, the latest first. -/
abbrev Bindings := List (String × List String)

/-- The values of some constants one after the other, if all of them are bound. -/
def Bindings.values? (b : Bindings) : List String → Option (List String)
  | [] => some []
  | constant :: constants =>
    match b.lookup constant, b.values? constants with
    | some value, some others => some (value ++ others)
    | _, _ => none

/-- The definition of a declaration and the values of the constants that it interpolates. -/
def Declaration.value? (b : Bindings) (d : Declaration) : Option (List String) :=
  (b.values? d.interpolated).map (d.definition :: ·)

/-- Bind the constants of declarations, as long as they interpolate bound constants only. -/
def evaluate (b : Bindings) : List Declaration → Option Bindings
  | [] => some b
  | d :: ds =>
    match d.value? b with
    | none => none
    | some value => evaluate ((d.constant, value) :: b) ds

/-- Evaluation goes on where it stopped. -/
theorem evaluate_append (b : Bindings) (ds es : List Declaration) :
    evaluate b (ds ++ es) = (evaluate b ds).bind (evaluate · es) := by
  induction ds generalizing b with
  | nil => rfl
  | cons d ds ih =>
    rw [List.cons_append, evaluate, evaluate]
    cases d.value? b with
    | none => rfl
    | some value => exact ih _

/-- What is declared: a constant for a printed definition with some selections. -/
structure DeclarationSource where
  constant : String
  definition : String
  selections : List Selection

/-- A source is bound as it should be: to its definition, followed by the definitions of exactly the
fragments that are reached from it. -/
def DeclarationSource.BoundIn (loaded : List LoadedFragment) (s : DeclarationSource)
    (b : Bindings) : Prop :=
  ∃ fs : List LoadedFragment,
    b.lookup s.constant = some (s.definition :: fs.map (·.fragment.print)) ∧
      ∀ f, f ∈ fs ↔ ReachedFrom loaded s.selections f

/-- A binding of another constant leaves a source bound. -/
theorem DeclarationSource.BoundIn.cons {loaded : List LoadedFragment} {s : DeclarationSource}
    {b : Bindings} (h : s.BoundIn loaded b) {constant : String} (value : List String)
    (hne : s.constant ≠ constant) : s.BoundIn loaded ((constant, value) :: b) := by
  obtain ⟨fs, hlookup, hfs⟩ := h
  refine ⟨fs, ?_, hfs⟩
  rw [List.lookup_cons, beq_false_of_ne hne, hlookup]

namespace Catalogue

variable (c : Catalogue)

/-- The source of a fragment's declaration. -/
def fragmentSource (f : LoadedFragment) : DeclarationSource :=
  ⟨Naming.fragmentVariable c.settings f.name, f.fragment.print, f.fragment.selections⟩

/-- The declaration of a source. -/
def declareSource (s : DeclarationSource) : Declaration :=
  (c.declare s.constant s.definition (directSpreads s.selections)).value

/-- The constants of bound fragments have the definitions of these fragments and of those that are
reached from them, and no others. -/
theorem values?_fragments {loaded : List LoadedFragment} {b : Bindings} (gs : List LoadedFragment)
    (hbound : ∀ g ∈ gs, (c.fragmentSource g).BoundIn loaded b) :
    ∃ fs : List LoadedFragment,
      b.values? (gs.map fun g => (c.fragmentSource g).constant) = some (fs.map (·.fragment.print)) ∧
        ∀ f, f ∈ fs ↔ ∃ g ∈ gs, f = g ∨ ReachedFrom loaded g.fragment.selections f := by
  induction gs with
  | nil => exact ⟨[], rfl, by simp⟩
  | cons g gs ih =>
    obtain ⟨hg, hgs⟩ := List.forall_mem_cons.mp hbound
    obtain ⟨fs, hlookup, hfs⟩ := hg
    obtain ⟨others, hothers, hmem⟩ := ih hgs
    refine ⟨g :: fs ++ others, ?_, fun f => ?_⟩
    · rw [List.map_cons, Bindings.values?, hlookup, hothers]
      simp [fragmentSource]
    · rw [List.mem_append, List.mem_cons, hmem, hfs, List.exists_mem_cons_iff]
      rfl

/-- A declaration whose spread fragments are bound has a value, as its source should have. -/
theorem value?_declareSource {b : Bindings} (s : DeclarationSource)
    (hbound : ∀ g ∈ c.fragments.items, SpreadIn g.name s.selections →
      (c.fragmentSource g).BoundIn c.fragments.items b) :
    ∃ fs : List LoadedFragment,
      (c.declareSource s).value? b = some (s.definition :: fs.map (·.fragment.print)) ∧
        ∀ f, f ∈ fs ↔ ReachedFrom c.fragments.items s.selections f := by
  obtain ⟨fs, hvalues, hfs⟩ := c.values?_fragments (c.fragments.spreadBy s.selections)
    fun g hg => (FragmentSet.mem_spreadBy.mp hg).elim (hbound g)
  refine ⟨fs, ?_, fun f => ?_⟩
  · rw [Declaration.value?, declareSource, declare, interpolated_directSpreads]
    exact congrArg (Option.map (s.definition :: ·)) hvalues
  · rw [hfs, reachedFrom_iff]
    simp only [FragmentSet.mem_spreadBy, and_assoc]

/-- Evaluation binds every source as it should be, if what a source spreads is declared before. -/
theorem evaluate_sources {b : Bindings} {before after : List DeclarationSource}
    (hconstants : ((before ++ after).map DeclarationSource.constant).Nodup)
    (hbefore : ∀ s ∈ before, s.BoundIn c.fragments.items b)
    (hfirst : ∀ left s right, after = left ++ s :: right → ∀ g ∈ c.fragments.items,
      SpreadIn g.name s.selections → c.fragmentSource g ∈ before ++ left) :
    ∃ b', evaluate b (after.map c.declareSource) = some b' ∧
      ∀ s ∈ before ++ after, s.BoundIn c.fragments.items b' := by
  induction after generalizing b before with
  | nil => exact ⟨b, rfl, by simpa using hbefore⟩
  | cons s after ih =>
    have hspread : ∀ g ∈ c.fragments.items, SpreadIn g.name s.selections →
        (c.fragmentSource g).BoundIn c.fragments.items b := by
      intro g hg hname
      exact hbefore _ (by simpa using hfirst [] s after rfl g hg hname)
    obtain ⟨fs, hvalue, hfs⟩ := c.value?_declareSource s hspread
    have hsplit : before ++ s :: after = (before ++ [s]) ++ after := by simp
    have hnew : ∀ t ∈ before, t.constant ≠ s.constant := by
      intro t ht
      rw [List.map_append, List.nodup_append] at hconstants
      exact hconstants.2.2 _ (List.mem_map_of_mem ht) _ (List.mem_map_of_mem List.mem_cons_self)
    have hbound : ∀ t ∈ before ++ [s], t.BoundIn c.fragments.items
        ((s.constant, s.definition :: fs.map (·.fragment.print)) :: b) := by
      intro t ht
      rcases List.mem_append.mp ht with ht | ht
      · exact (hbefore t ht).cons _ (hnew t ht)
      · rw [List.mem_singleton.mp ht]
        exact ⟨fs, by simp, hfs⟩
    obtain ⟨b', heval, hall⟩ := ih (hsplit ▸ hconstants) hbound fun left t right hafter g hg hname => by
      simpa using hfirst (s :: left) t right (by rw [hafter, List.cons_append]) g hg hname
    refine ⟨b', ?_, hsplit ▸ hall⟩
    rw [List.map_cons, evaluate, hvalue]
    exact heval

end Catalogue

end GraphqlClient
