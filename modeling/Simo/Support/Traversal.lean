import Mathlib.Data.List.Basic

/-!
# Traversals that can fail

The first failure in a list of results ends a traversal of it, and without a failure the traversal
gives all results.
-/

namespace Traversal

variable {α β ε : Type*} {error : ε}

/-- A list without failures is a list of results. -/
theorem exists_eq_map_ok {results : List (Except ε α)} (fine : ∀ x ∈ results, ∃ a, x = .ok a) :
    ∃ values : List α, results = values.map .ok := by
  induction results with
  | nil => exact ⟨[], rfl⟩
  | cons x results induction =>
      obtain ⟨⟨a, rfl⟩, rest⟩ := List.forall_mem_cons.mp fine
      obtain ⟨values, rfl⟩ := induction rest
      exact ⟨a :: values, rfl⟩

theorem mapM_id_map_ok (values : List α) :
    (values.map (.ok : α → Except ε α)).mapM id = .ok values := by
  induction values with
  | nil => rfl
  | cons a values induction =>
      rw [List.map_cons, List.mapM_cons, induction]
      rfl

/-- The first failure ends a traversal. -/
theorem mapM_id_eq_error_iff {results : List (Except ε α)} :
    results.mapM id = .error error ↔
      ∃ earlier later, results = earlier ++ .error error :: later ∧
        ∀ x ∈ earlier, ∃ a, x = .ok a := by
  induction results with
  | nil => simp [pure, Except.pure]
  | cons x results induction =>
      rw [List.mapM_cons]
      cases x with
      | error other =>
          constructor
          · intro failed
            cases failed
            exact ⟨[], results, rfl, nofun⟩
          · rintro ⟨_ | ⟨y, earlier⟩, later, same, fine⟩
            · cases same
              rfl
            · cases same
              obtain ⟨a, passed⟩ := fine _ List.mem_cons_self
              cases passed
      | ok a =>
          have rest : ((do
              let head ← id (.ok a : Except ε α)
              let tail ← results.mapM id
              pure (head :: tail)) = .error error) ↔ results.mapM id = .error error := by
            cases results.mapM id <;> simp [bind, Except.bind, pure, Except.pure]
          rw [rest, induction]
          constructor
          · rintro ⟨earlier, later, rfl, fine⟩
            exact ⟨.ok a :: earlier, later, rfl, List.forall_mem_cons.mpr ⟨⟨a, rfl⟩, fine⟩⟩
          · rintro ⟨_ | ⟨y, earlier⟩, later, same, fine⟩
            · cases same
            · cases same
              exact ⟨earlier, later, rfl, (List.forall_mem_cons.mp fine).2⟩

theorem map_eq_error_iff {f : α → β} {result : Except ε α} :
    result.map f = .error error ↔ result = .error error := by
  cases result <;> simp [Except.map]

end Traversal
