/-!
# Imports

The import statements of a generated file: the one for the template tag first, and every statement
once, where it is first asked for.
-/

namespace GraphqlClient

/-- The statements that a client asks for. -/
def clientImports : List String :=
  ["import \x7b ApolloClient \x7d from 'apollo-client';",
   "import \x7b FetchResult \x7d from 'apollo-link';"]

/-- The statement for the tag and those asked for, without repetition. -/
def mergeImports (tag : String) (requested : List String) : List String :=
  (tag :: requested).eraseDups

/-- The merged statements are those that went in. -/
theorem mem_mergeImports (tag : String) (requested : List String) (x : String) :
    x ∈ mergeImports tag requested ↔ x = tag ∨ x ∈ requested := by
  simp [mergeImports]

end GraphqlClient
