import GraphqlClient.Proofs.Distinct
import GraphqlClient.Proofs.Settings.Import
import GraphqlClient.Sdk.Catalogue

/-!
# Imports of a file

The statement for the tag comes first, whether or not others ask for it too. Behind it every other
statement stands once, in the order in which they are first asked for. The statement for the tag tells
where the tag comes from, as long as no single quote comes in with its source.
-/

namespace GraphqlClient

/-- Import statements that are merged from the one for the tag and those that are asked for. -/
structure AreMerged (tag : String) (requested imports : List String) : Prop where
  head?_eq : imports.head? = some tag
  nodup : imports.Nodup
  mem_iff : ∀ statement, statement ∈ imports ↔ statement = tag ∨ statement ∈ requested
  idxOf_lt_iff : ∀ a ∈ requested, ∀ b ∈ requested, a ≠ tag → b ≠ tag →
    (imports.idxOf a < imports.idxOf b ↔ requested.idxOf a < requested.idxOf b)

variable {tag : String} {requested imports others : List String}

namespace AreMerged

/-- Nothing but the statement for the tag is at the front. -/
theorem idxOf_eq_zero_iff (h : AreMerged tag requested imports) {statement : String} :
    imports.idxOf statement = 0 ↔ statement = tag := by
  have hhead := h.head?_eq
  cases imports with
  | nil => cases hhead
  | cons first rest =>
    rw [← Option.some.inj hhead]
    by_cases hfirst : first = statement
    · simp [hfirst]
    · simp [List.idxOf_cons_ne rest hfirst, Ne.symm hfirst]

/-- Statements are merged in one way only. -/
theorem unique (h : AreMerged tag requested imports) (h' : AreMerged tag requested others) :
    imports = others := by
  have hmem : ∀ statement, statement ∈ imports ↔ statement ∈ others := fun statement =>
    (h.mem_iff statement).trans (h'.mem_iff statement).symm
  refine eq_of_idxOf_lt_iff h.nodup h'.nodup hmem fun a ha b hb => ?_
  -- The tag is first in both lists; of the others both keep the order in which they are asked for.
  by_cases hatag : a = tag
  · rw [h.idxOf_eq_zero_iff.mpr hatag, h'.idxOf_eq_zero_iff.mpr hatag, Nat.pos_iff_ne_zero,
      Nat.pos_iff_ne_zero, Ne, Ne, h.idxOf_eq_zero_iff, h'.idxOf_eq_zero_iff]
  · by_cases hbtag : b = tag
    · simp [h.idxOf_eq_zero_iff.mpr hbtag, h'.idxOf_eq_zero_iff.mpr hbtag]
    · have harequested := ((h.mem_iff a).mp ha).resolve_left hatag
      have hbrequested := ((h.mem_iff b).mp hb).resolve_left hbtag
      rw [h.idxOf_lt_iff a harequested b hbrequested hatag hbtag,
        h'.idxOf_lt_iff a harequested b hbrequested hatag hbtag]

end AreMerged

/-- The statements of a file are merged. -/
theorem areMerged_mergeImports (tag : String) (requested : List String) :
    AreMerged tag requested (mergeImports tag requested) where
  head?_eq := by rw [mergeImports, List.eraseDups_cons, List.head?_cons]
  nodup := nodup_eraseDups _
  mem_iff := mem_mergeImports tag requested
  idxOf_lt_iff a _ b _ ha hb := by
    rw [mergeImports, idxOf_eraseDups_lt_iff, List.idxOf_cons_ne _ ha.symm,
      List.idxOf_cons_ne _ hb.symm, Nat.succ_lt_succ_iff]

/-- The statements of a file are the ones that are merged from its tag's statement and those that are
asked for, and no other list is. If no single quote stands in its source, the statement for the tag is
read back to the module and the name that the source tells, and no other source has this statement. -/
theorem Catalogue.imports_merged (o : Options) (fragments : FragmentSet) (source : String)
    (requested : List String) :
    (∀ imports, AreMerged (GqlImport.ofSource source).statement requested imports ↔
      (Catalogue.mk { o with gqlImport := some source }.settings fragments).imports requested =
        imports) ∧
    ('\x27' ∉ source.toList →
      GqlImport.ofStatement? (GqlImport.ofSource source).statement =
        some (GqlImport.ofSource source) ∧
      ∀ other, '\x27' ∉ other.toList →
        (GqlImport.ofSource other).statement = (GqlImport.ofSource source).statement →
          other = source) := by
  have hmerged := areMerged_mergeImports (GqlImport.ofSource source).statement requested
  have hread : ∀ other : String, '\x27' ∉ other.toList →
      GqlImport.ofStatement? (GqlImport.ofSource other).statement =
        some (GqlImport.ofSource other) := by
    intro other hother
    rw [← GqlImport.source_ofSource other] at hother
    exact GqlImport.ofStatement?_statement hother
  refine ⟨fun imports => ⟨hmerged.unique, fun h => h ▸ hmerged⟩, fun hsource => ?_⟩
  refine ⟨hread source hsource, fun other hother h => GqlImport.ofSource_injective ?_⟩
  exact Option.some.inj ((hread other hother).symm.trans (h ▸ hread source hsource))

/-- A named export whose statement is asked for again between two equal requests. -/
theorem Catalogue.imports_merged_again :
    AreMerged "import \x7b gql \x7d from '@apollo/client';"
        ["import \x7b FetchResult \x7d from 'apollo-link';",
          "import \x7b gql \x7d from '@apollo/client';",
          "import \x7b FetchResult \x7d from 'apollo-link';"]
        ["import \x7b gql \x7d from '@apollo/client';",
          "import \x7b FetchResult \x7d from 'apollo-link';"] ∧
      '\x27' ∉ "@apollo/client#gql".toList ∧ '\x27' ∉ "@apollo/client".toList ∧
      GqlImport.ofStatement? "import \x7b gql \x7d from '@apollo/client';" =
        some ⟨"@apollo/client", some "gql"⟩ ∧
      (GqlImport.ofSource "@apollo/client").statement ≠
        (GqlImport.ofSource "@apollo/client#gql").statement := by
  have hsource : GqlImport.ofSource "@apollo/client#gql" = ⟨"@apollo/client", some "gql"⟩ := by
    decide +kernel
  have hstatement : (GqlImport.ofSource "@apollo/client#gql").statement =
      "import \x7b gql \x7d from '@apollo/client';" := by
    decide +kernel
  have hquote : '\x27' ∉ "@apollo/client#gql".toList := by decide
  have hquote' : '\x27' ∉ "@apollo/client".toList := by decide
  obtain ⟨himports, hdetermined⟩ := Catalogue.imports_merged {} .empty "@apollo/client#gql"
    ["import \x7b FetchResult \x7d from 'apollo-link';",
      "import \x7b gql \x7d from '@apollo/client';",
      "import \x7b FetchResult \x7d from 'apollo-link';"]
  obtain ⟨hread, hother⟩ := hdetermined hquote
  rw [hstatement] at himports hread
  refine ⟨(himports _).mpr (by decide +kernel), hquote, hquote', hsource ▸ hread, fun h => ?_⟩
  exact absurd (hother _ hquote' h) (by decide)

end GraphqlClient
