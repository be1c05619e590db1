import Mathlib.Data.List.Basic

/-!
# Walks that can end early

A walk inspects one place after the other until it can return an answer.  A walk that comes to its
end without an answer is continued by the next one.  `Walk.Finds` says what the answers of a walk
mean, and is kept when walks are put together.
-/

/-- The places that have been inspected, and the answer if one has been returned. -/
structure Walk (ι : Type*) where
  inspected : List ι
  returned : Option Bool

namespace Walk

variable {ι : Type*} {walk rest : Walk ι} {inside inside' : ι → Prop}
  {hit hit' passes wellFormed wellFormed' : Prop}

/-- Return an answer at once. -/
def return_ (answer : Bool) : Walk ι := ⟨[], some answer⟩

/-- Go on at once. -/
def pass : Walk ι := ⟨[], none⟩

def andThen (walk rest : Walk ι) : Walk ι :=
  match walk.returned with
  | some answer => ⟨walk.inspected, some answer⟩
  | none => ⟨walk.inspected ++ rest.inspected, rest.returned⟩

/-- The walk inspects places inside its bounds, finds what it looks for, gives up only on malformed
data, and goes on only if there is nothing to be found. -/
structure Finds (walk : Walk ι) (inside : ι → Prop) (hit wellFormed : Prop) : Prop where
  inspected : ∀ place ∈ walk.inspected, inside place
  found : walk.returned = some true → hit
  stopped : walk.returned = some false → ¬ wellFormed
  passed : walk.returned = none → ¬ hit

theorem finds_pass (nothing : ¬ hit) : (pass : Walk ι).Finds inside hit wellFormed where
  inspected := by simp [pass]
  found returned := by cases returned
  stopped returned := by cases returned
  passed _ := nothing

theorem finds_return_false (malformed : ¬ wellFormed) :
    (return_ false : Walk ι).Finds inside hit wellFormed where
  inspected := by simp [return_]
  found returned := by cases returned
  stopped _ := malformed
  passed returned := by cases returned

theorem Finds.imp (finds : walk.Finds inside hit wellFormed)
    (within : ∀ place, inside place → inside' place) (same : hit ↔ hit')
    (stricter : wellFormed' → wellFormed) : walk.Finds inside' hit' wellFormed' where
  inspected place member := within place (finds.inspected place member)
  found returned := same.mp (finds.found returned)
  stopped returned formed := finds.stopped returned (stricter formed)
  passed returned here := finds.passed returned (same.mpr here)

/-- A walk and what comes after it, where the first part goes on only if it passes a test. -/
theorem Finds.andThen (first : walk.Finds inside hit wellFormed)
    (tested : walk.returned = none → passes)
    (second : passes → rest.Finds inside hit' wellFormed') :
    (walk.andThen rest).Finds inside (hit ∨ (passes ∧ hit')) (wellFormed ∧ wellFormed') := by
  rw [Walk.andThen]
  cases returned : walk.returned with
  | some answer =>
      refine ⟨first.inspected, fun found => .inl (first.found (returned.trans found)),
        fun stopped formed => first.stopped (returned.trans stopped) formed.1, fun passed => ?_⟩
      cases passed
  | none =>
      have ok := tested returned
      refine ⟨fun place member => ?_, fun found => .inr ⟨ok, (second ok).found found⟩,
        fun stopped formed => (second ok).stopped stopped formed.2, fun passed here => ?_⟩
      · rcases List.mem_append.mp member with early | late
        · exact first.inspected place early
        · exact (second ok).inspected place late
      · rcases here with here | ⟨-, here⟩
        · exact first.passed returned here
        · exact (second ok).passed passed here

/-- On well-formed data the answer says whether there is something to be found. -/
theorem Finds.answer (finds : walk.Finds inside hit wellFormed) (formed : wellFormed) :
    walk.returned.getD false = true ↔ hit := by
  cases returned : walk.returned with
  | none => exact iff_of_false Bool.false_ne_true (finds.passed returned)
  | some answer =>
      cases answer with
      | true => exact iff_of_true rfl (finds.found returned)
      | false => exact absurd formed (finds.stopped returned)

/-- The walk does not answer yes without having found something. -/
theorem Finds.sound (finds : walk.Finds inside hit wellFormed)
    (answer : walk.returned.getD false = true) : hit := by
  cases returned : walk.returned with
  | none => simp [returned] at answer
  | some found =>
      obtain rfl : found = true := by simpa [returned] using answer
      exact finds.found returned

end Walk
