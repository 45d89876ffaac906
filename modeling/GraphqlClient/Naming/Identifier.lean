import GraphqlClient.Document.Basic
import GraphqlClient.Naming.Words
import GraphqlClient.Settings.Basic

/-!
# Generated identifiers

The names under which operations and fragments appear in the generated file. An operation's types
end in its kind unless the settings leave that out or the name ends in it already.
-/

namespace GraphqlClient

/-- The identifiers generated for an operation. -/
structure OperationNames where
  document : String
  operationType : String
  resultType : String
  variablesType : String
  deriving DecidableEq, Repr, Inhabited

namespace Naming

/-- A name under the naming convention of the settings. -/
def convert (s : Settings) (name : String) : String :=
  match s.namingConvention with
  | .keep => name
  | .pascalCase =>
    String.ofList (if s.transformUnderscore then pascalCase name.toList else pascalParts name.toList)

/-- Whether a name ends in a suffix but for case. Suffixes are ASCII, and no other letter becomes
one of theirs in lower case, so ASCII letters alone are lowered. -/
def endsIgnoringCase (name suffix : String) : Bool :=
  (suffix.toList.map Char.toLower).isSuffixOf (name.toList.map Char.toLower)

/-- What the type names of an operation say of its kind. -/
def kindSuffix (s : Settings) (kind : OperationKind) (name : String) : String :=
  if s.omitOperationSuffix then ""
  else if s.dedupeOperationSuffix && endsIgnoringCase name kind.typeSuffix then ""
  else kind.typeSuffix

/-- The identifiers of an operation. -/
def operationNames (s : Settings) (kind : OperationKind) (name : String) : OperationNames :=
  let converted := convert s name
  let suffix := kindSuffix s kind name
  { document := s.documentVariablePrefix ++ converted ++ s.documentVariableSuffix
    operationType := kind.keyword
    resultType := converted ++ suffix ++ s.operationResultSuffix
    variablesType := converted ++ suffix ++ "Variables" }

/-- The constant that holds a fragment's document. -/
def fragmentVariable (s : Settings) (name : String) : String :=
  s.fragmentVariablePrefix ++ convert s name ++ s.fragmentVariableSuffix

end Naming

end GraphqlClient
