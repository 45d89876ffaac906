/-!
# Settings

What a user can choose about names and imports. Options are what was given, settings what holds
after every missing option has its default.
-/

namespace GraphqlClient

/-- How names of operations and fragments become identifiers. -/
inductive NamingConvention where
  | keep
  | pascalCase
  deriving DecidableEq, Repr, Inhabited

/-- Where the template tag comes from: a module, and the name it exports the tag under. -/
structure GqlImport where
  module : String
  named : Option String
  deriving DecidableEq, Repr, Inhabited

namespace GqlImport

/-- The part of a source before its first `#` is the module, the part after it the exported name. -/
def ofSource (source : String) : GqlImport :=
  let module := source.toList.takeWhile (· != '#')
  match source.toList.dropWhile (· != '#') with
  | [] => ⟨String.ofList module, none⟩
  | _ :: named => ⟨String.ofList module, some (String.ofList named)⟩

/-- The statement that imports the tag under the name `gql`. -/
def statement (i : GqlImport) : String :=
  let binding := match i.named with
    | none => "gql"
    | some "gql" => "\x7b gql \x7d"
    | some name => "\x7b " ++ name ++ " as gql \x7d"
  "import " ++ binding ++ " from '" ++ i.module ++ "';"

end GqlImport

/-- The options that were given. -/
structure Options where
  dedupeOperationSuffix : Option Bool := none
  documentVariablePrefix : Option String := none
  documentVariableSuffix : Option String := none
  fragmentVariablePrefix : Option String := none
  fragmentVariableSuffix : Option String := none
  gqlImport : Option String := none
  namingConvention : Option NamingConvention := none
  omitOperationSuffix : Option Bool := none
  operationResultSuffix : Option String := none
  transformUnderscore : Option Bool := none
  deriving DecidableEq, Repr, Inhabited

/-- The settings of a generation. -/
structure Settings where
  dedupeOperationSuffix : Bool
  documentVariablePrefix : String
  documentVariableSuffix : String
  fragmentVariablePrefix : String
  fragmentVariableSuffix : String
  gqlImport : GqlImport
  namingConvention : NamingConvention
  omitOperationSuffix : Bool
  operationResultSuffix : String
  transformUnderscore : Bool
  deriving DecidableEq, Repr, Inhabited

/-- The settings that options lead to. -/
def Options.settings (o : Options) : Settings where
  dedupeOperationSuffix := o.dedupeOperationSuffix.getD false
  documentVariablePrefix := o.documentVariablePrefix.getD ""
  documentVariableSuffix := o.documentVariableSuffix.getD "Document"
  fragmentVariablePrefix := o.fragmentVariablePrefix.getD ""
  fragmentVariableSuffix := o.fragmentVariableSuffix.getD "FragmentDoc"
  gqlImport := .ofSource (o.gqlImport.getD "graphql-tag")
  namingConvention := o.namingConvention.getD .pascalCase
  omitOperationSuffix := o.omitOperationSuffix.getD false
  operationResultSuffix := o.operationResultSuffix.getD ""
  transformUnderscore := o.transformUnderscore.getD false

end GraphqlClient
