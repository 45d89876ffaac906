import GraphqlClient.Declaration.Basic
import GraphqlClient.Document.Printer
import GraphqlClient.Fragments.Order
import GraphqlClient.Sdk.Imports
import GraphqlClient.Sdk.Operation
import GraphqlClient.Warning

/-!
# Catalogues

Settings and loaded fragments decide what is declared for every definition. Each definition of a
document has one outcome: nothing for a fragment, a warning for an anonymous operation, a
declaration and a record for a named one.
-/

namespace GraphqlClient

/-- The settings and fragments of a generation. -/
structure Catalogue where
  settings : Settings
  fragments : FragmentSet

/-- What comes of a definition. -/
inductive Outcome where
  | nothing
  | skipped (warning : Warning)
  | declared (record : OperationRecord) (declaration : Warned Declaration)

namespace Outcome

/-- The warnings of an outcome. -/
def warnings : Outcome → List Warning
  | .nothing => []
  | .skipped warning => [warning]
  | .declared _ declaration => declaration.warnings

/-- The record of an outcome, and its declaration. -/
def declared? : Outcome → Option (OperationRecord × Declaration)
  | .declared record declaration => some (record, declaration.value)
  | _ => none

end Outcome

namespace Catalogue

/-- The constants of those spread fragments that are loaded. -/
def interpolated (c : Catalogue) (spreads : List String) : List String :=
  (spreads.filter c.fragments.contains).map (Naming.fragmentVariable c.settings)

/-- A warning for each spread fragment that is not loaded. -/
def unknown (c : Catalogue) (constant : String) (spreads : List String) : List Warning :=
  (spreads.filter (!c.fragments.contains ·)).map (Warning.unknownFragment constant)

/-- The declaration of a constant for a printed definition and its spreads. -/
def declare (c : Catalogue) (constant definition : String) (spreads : List String) :
    Warned Declaration :=
  ⟨⟨constant, definition, c.interpolated spreads⟩, c.unknown constant spreads⟩

/-- The declaration of a loaded fragment. -/
def declareFragment (c : Catalogue) (f : LoadedFragment) : Warned Declaration :=
  c.declare (Naming.fragmentVariable c.settings f.name) f.fragment.print f.spreads

/-- The declarations of all fragments, dependencies first. -/
def fragmentDeclarations (c : Catalogue) : Warned (List Declaration) :=
  let declared := c.fragments.ordered.map c.declareFragment
  ⟨declared.map Warned.value, declared.flatMap Warned.warnings⟩

/-- What comes of a definition in a file. -/
def outcome (c : Catalogue) (file : Option String) : Definition → Outcome
  | .fragment _ => .nothing
  | .shorthand _ => .skipped (.anonymousOperation file)
  | .operation o =>
    match o.named? file with
    | none => .skipped (.anonymousOperation file)
    | some named =>
      let record := named.record c.settings
      .declared record (c.declare record.names.document o.print (directSpreads o.selections))

/-- What comes of the definitions of a document, in order. -/
def outcomes (c : Catalogue) (s : SourceDocument) : List Outcome :=
  s.document.map (c.outcome s.file)

/-- The records and declarations of the named operations of a document, in order. -/
def visit (c : Catalogue) (s : SourceDocument) : Warned (List (OperationRecord × Declaration)) :=
  ⟨(c.outcomes s).filterMap Outcome.declared?, (c.outcomes s).flatMap Outcome.warnings⟩

/-- The import statements of the catalogue's file, with those that are asked for. -/
def imports (c : Catalogue) (requested : List String) : List String :=
  mergeImports c.settings.gqlImport.statement requested

end Catalogue

/-- The texts of declarations, each followed by what `build` makes of its record, if anything. -/
def interleave (build : OperationRecord → Option String)
    (declared : List (OperationRecord × Declaration)) : List String :=
  declared.flatMap fun (record, declaration) => declaration.text :: (build record).toList

end GraphqlClient
