import GraphqlClient.Sdk.Factory

/-!
# Methods of a factory

The methods of a factory belong to its operations. A factory whose methods are all there is a
success of some steps in a row, which come apart into the successes of the single steps.
-/

namespace GraphqlClient

/-- Steps in a row succeed when the first does and the others do after it. -/
theorem bind_eq_ok_iff {ε α β : Type} {x : Except ε α} {k : α → Except ε β} {b : β} :
    (x >>= k) = .ok b ↔ ∃ a, x = .ok a ∧ k a = .ok b := by
  cases x with
  | error e => exact ⟨nofun, nofun⟩
  | ok a => exact ⟨fun h => ⟨a, rfl, h⟩, fun ⟨_, ha, h⟩ => Except.ok.inj ha ▸ h⟩

/-- A step on the value of a success changes no failure into a success. -/
theorem map_eq_ok_iff {ε α β : Type} {f : α → β} {x : Except ε α} {b : β} :
    x.map f = .ok b ↔ ∃ a, x = .ok a ∧ f a = b := by
  cases x <;> simp [Except.map]

/-- Nor does a step on the reason of a failure. -/
theorem mapError_eq_ok_iff {ε δ α : Type} {f : ε → δ} {x : Except ε α} {a : α} :
    x.mapError f = .ok a ↔ x = .ok a := by
  cases x with
  | error e => exact ⟨nofun, nofun⟩
  | ok b => exact ⟨fun h => Except.ok.inj h ▸ rfl, fun h => Except.ok.inj h ▸ rfl⟩

/-- What is told to be a success has a value. -/
theorem exists_eq_ok_of_toBool {ε α : Type} {x : Except ε α} (h : x.toBool = true) :
    ∃ a, x = .ok a := by
  cases x with
  | error e => cases h
  | ok a => exact ⟨a, rfl⟩

/-- The methods of some operations are methods of these. -/
theorem exists_of_mem_methods {records : List OperationRecord} {texts : List String}
    (h : methods records = .ok texts) :
    ∀ text ∈ texts, ∃ r ∈ records, r.method = .ok text := by
  induction records generalizing texts with
  | nil =>
    cases h
    simp
  | cons r rs ih =>
    obtain ⟨first, hfirst, h⟩ := bind_eq_ok_iff.mp h
    obtain ⟨others, hothers, h⟩ := bind_eq_ok_iff.mp h
    cases h
    refine List.forall_mem_cons.mpr ⟨⟨r, List.mem_cons_self, hfirst⟩, fun text htext => ?_⟩
    obtain ⟨other, hother, hmethod⟩ := ih hothers text htext
    exact ⟨other, List.mem_cons_of_mem _ hother, hmethod⟩

end GraphqlClient
