import GraphqlClient.Text.Quoted

/-!
# Warnings

What is worth telling although generation goes on, and values that come with warnings.
-/

namespace GraphqlClient

/-- Something that is passed over. -/
inductive Warning where
  | anonymousOperation (file : Option String)
  | unknownFragment (constant fragment : String)
  | otherExtension (path : String) (extensions : List String)
  deriving DecidableEq, Repr, Inhabited

/-- A file extension as messages show it. -/
def shownExtension (extension : String) : String := "`." ++ extension ++ "`"

/-- The wording of a warning. -/
def Warning.message : Warning → String
  | .anonymousOperation file =>
    "Skipping an anonymous operation in " ++ (file.map Text.quoted).getD "<document>" ++
      "; SDK methods can only be generated for named operations."
  | .unknownFragment constant fragment =>
    "`" ++ constant ++ "` spreads unknown fragment `" ++ fragment ++
      "`; no fragment document will be interpolated for it."
  | .otherExtension path extensions =>
    "Proceeding to load " ++ Text.quoted path ++
      " even though it doesn't match any of the --graphql-file-exts (" ++
      ", ".intercalate (extensions.map shownExtension) ++ ")."

/-- A value, and the warnings on the way to it. -/
structure Warned (α : Type) where
  value : α
  warnings : List Warning
  deriving Repr

end GraphqlClient
