/-!
# Schemas

What a schema document defines. Generation reads a schema to make sure that it is one, so that of
its definitions only their kinds and names are kept.
-/

namespace GraphqlClient

/-- The kinds of types. -/
inductive TypeKind where
  | scalar
  | object
  | interface
  | union
  | enum
  | input
  deriving DecidableEq, Repr, Inhabited

namespace TypeKind

/-- The keyword of a type definition. -/
def keyword : TypeKind → String
  | .scalar => "scalar"
  | .object => "type"
  | .interface => "interface"
  | .union => "union"
  | .enum => "enum"
  | .input => "input"

/-- All kinds of types. -/
def all : List TypeKind := [.scalar, .object, .interface, .union, .enum, .input]

/-- The kind that a keyword names. -/
def ofKeyword? (word : String) : Option TypeKind := all.find? (·.keyword = word)

end TypeKind

/-- A definition of a schema. -/
inductive SchemaDefinition where
  | roots
  | type (kind : TypeKind) (name : String)
  | extension (kind : TypeKind) (name : String)
  | directive (name : String)
  deriving DecidableEq, Repr, Inhabited

/-- The definitions of a schema, in order. -/
abbrev Schema := List SchemaDefinition

/-- The places where a directive may stand. -/
def directiveLocations : List String :=
  ["QUERY", "MUTATION", "SUBSCRIPTION", "FIELD", "FRAGMENT_DEFINITION", "FRAGMENT_SPREAD",
   "INLINE_FRAGMENT", "VARIABLE_DEFINITION", "SCHEMA", "SCALAR", "OBJECT", "FIELD_DEFINITION",
   "ARGUMENT_DEFINITION", "INTERFACE", "UNION", "ENUM", "ENUM_VALUE", "INPUT_OBJECT",
   "INPUT_FIELD_DEFINITION"]

end GraphqlClient
