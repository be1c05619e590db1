import Simo.Core.RunSplitting

/-!
# Running step by step

A program can advance the simulation by several calls of `run` and look at it in between.  Each call
aims at a distance from the current time, and a call that finds no more ticks leaves the clock
behind, so that the calls after it aim at earlier times than planned.  There is nothing left to run
by then: the calls do what one run to the planned time does, as long as the tasks of that run
schedule for later ticks.
-/

namespace Simo

variable {Task ModuleRef Params World : Type*}

theorem Time.toNat_add {start delta : Time}
    (fits : start.picoseconds.toNat + delta.picoseconds.toNat < 2 ^ 64) :
    (start + delta).picoseconds.toNat = start.picoseconds.toNat + delta.picoseconds.toNat :=
  (UInt64.toNat_add start.picoseconds delta.picoseconds).trans (Nat.mod_eq_of_lt fits)

theorem Time.toNat_foldl_add {start : Time} {deltas : List Time}
    (fits : start.picoseconds.toNat + (deltas.map fun delta => delta.picoseconds.toNat).sum <
      2 ^ 64) :
    (deltas.foldl (· + ·) start).picoseconds.toNat =
      start.picoseconds.toNat + (deltas.map fun delta => delta.picoseconds.toNat).sum := by
  induction deltas generalizing start with
  | nil => rfl
  | cons delta deltas induction =>
      rw [List.map_cons, List.sum_cons] at fits ⊢
      have sum : (start + delta).picoseconds.toNat =
          start.picoseconds.toNat + delta.picoseconds.toNat :=
        toNat_add (by omega)
      rw [List.foldl_cons, induction (by omega), sum, Nat.add_assoc]

theorem Time.lt_foldl_add {start delta : Time} {deltas : List Time}
    (positive : 0 < delta.picoseconds)
    (fits : start.picoseconds.toNat +
      ((delta :: deltas).map fun delta => delta.picoseconds.toNat).sum < 2 ^ 64) :
    start < (delta :: deltas).foldl (· + ·) start := by
  refine UInt64.lt_iff_toNat_lt.mpr ?_
  rw [toNat_foldl_add fits, List.map_cons, List.sum_cons]
  have := UInt64.lt_iff_toNat_lt.mp positive
  simp only [UInt64.toNat_zero] at this
  omega

namespace Session

/-- Calls of `run`, one after the other, until one of them fails. -/
def Steps (behaviour : Behaviour Task ModuleRef Params World) :
    Time → List Time → Session Task ModuleRef Params World →
      Session Task ModuleRef Params World × Except (InitializationStatus ModuleRef) RunStatus → Prop
  | delta, [], session, result =>
      session.Runs behaviour (session.ctx.currentTime + delta) result
  | delta, next :: deltas, session, result =>
      ∃ middle outcome,
        session.Runs behaviour (session.ctx.currentTime + delta) (middle, outcome) ∧
          match outcome with
          | .error failure => result = (middle, .error failure)
          | .ok _ => Steps behaviour next deltas middle result

variable {behaviour : Behaviour Task ModuleRef Params World} {finalTime delta : Time}
  {deltas : List Time} {session middle : Session Task ModuleRef Params World} {status : RunStatus}

theorem runs_of_error {failed : Session Task ModuleRef Params World}
    {failure : InitializationStatus ModuleRef}
    (begins : session.beginRun behaviour = .error (failed, failure))
    (result : Session Task ModuleRef Params World ×
      Except (InitializationStatus ModuleRef) RunStatus) :
    session.Runs behaviour finalTime result ↔ result = (failed, .error failure) := by
  simp only [Runs, runAt, begins, Option.some.injEq, exists_const, eq_comm]

/-- The loop leaves no ticks, or it leaves the clock at the final time. -/
theorem exit_of_returns (valid : session.ctx.nextTickHeap.Valid)
    (returned : Loop.Returns (loopBody behaviour finalTime) session (middle, status)) :
    middle.ctx.nextTickHeap.Valid ∧
      (middle.ctx.nextTickHeap.empty = true ∧ middle.ctx.state = .stopped ∨
        middle.ctx.currentTime = finalTime) := by
  generalize outcome : (middle, status) = stopped at returned
  induction returned using Loop.Returns.induction with
  | done session stopped returns =>
      subst outcome
      rcases loopBody_inr returns with ⟨drained, -, rfl⟩ | ⟨-, -, -, rfl⟩
      · exact ⟨valid, .inl ⟨drained, rfl⟩⟩
      · exact ⟨valid, .inr rfl⟩
  | again session next stopped passes _ induction =>
      exact induction (valid_pass valid passes) outcome

section Drained

variable (drained : session.ctx.nextTickHeap.empty = true) (stopped : session.ctx.state = .stopped)

include drained stopped

/-- When nothing is left a run does nothing, whatever it aims at. -/
theorem runs_of_drained (finalTime : Time) (result : Session Task ModuleRef Params World ×
      Except (InitializationStatus ModuleRef) RunStatus) :
    session.Runs behaviour finalTime result ↔ result = (session, .ok .stopped) := by
  have started : session.ctx.state ≠ .initialization := by simp [stopped]
  have kept : loopBody behaviour finalTime
      { session with ctx := { session.ctx with state := .running } } =
        .inr (session, .stopped) := by
    rw [loopBody, if_pos drained, ← stopped]
  rw [runs_iff_of_begun (beginRun_of_started behaviour started)]
  constructor
  · rintro ⟨final, status, rfl, returned⟩
    obtain ⟨rfl, rfl⟩ := Prod.mk.inj (returned.unique (Loop.returns_of_done kept))
    rfl
  · rintro rfl
    exact ⟨session, .stopped, rfl, Loop.returns_of_done kept⟩

theorem steps_of_drained (delta : Time) (deltas : List Time)
    (result : Session Task ModuleRef Params World ×
      Except (InitializationStatus ModuleRef) RunStatus) :
    session.Steps behaviour delta deltas result ↔ result = (session, .ok .stopped) := by
  induction deltas generalizing delta with
  | nil => exact runs_of_drained drained stopped _ result
  | cons next deltas induction =>
      rw [Steps]
      constructor
      · rintro ⟨middle, outcome, first, rest⟩
        obtain ⟨rfl, rfl⟩ := Prod.mk.inj ((runs_of_drained drained stopped _ _).mp first)
        exact (induction next).mp rest
      · exact fun same => ⟨session, .ok .stopped, (runs_of_drained drained stopped _ _).mpr rfl,
          (induction next).mpr same⟩

end Drained

/-- What the calls lead to is what one run to the sum of the distances leads to. -/
theorem steps_iff_of_valid (valid : session.ctx.nextTickHeap.Valid)
    (asserted : session.RunAsserted behaviour
      ((delta :: deltas).foldl (· + ·) session.ctx.currentTime))
    (positive : ∀ time ∈ delta :: deltas, 0 < time.picoseconds)
    (fits : session.ctx.currentTime.picoseconds.toNat +
      ((delta :: deltas).map fun time => time.picoseconds.toNat).sum < 2 ^ 64)
    (result : Session Task ModuleRef Params World ×
      Except (InitializationStatus ModuleRef) RunStatus) :
    session.Steps behaviour delta deltas result ↔
      session.Runs behaviour ((delta :: deltas).foldl (· + ·) session.ctx.currentTime) result := by
  induction deltas generalizing session delta with
  | nil => exact Iff.rfl
  | cons next deltas induction =>
      obtain ⟨here, positive⟩ := List.forall_mem_cons.mp positive
      rw [List.foldl_cons, Steps]
      cases begins : session.beginRun behaviour with
      | error failure =>
          rw [runs_of_error begins]
          constructor
          · rintro ⟨middle, outcome, first, rest⟩
            obtain ⟨rfl, rfl⟩ := Prod.mk.inj ((runs_of_error begins _).mp first)
            exact rest
          · exact fun same => ⟨_, _, (runs_of_error begins _).mpr rfl, same⟩
      | ok begun =>
          have within : (session.ctx.currentTime + delta).picoseconds.toNat +
              ((next :: deltas).map fun time => time.picoseconds.toNat).sum < 2 ^ 64 := by
            rw [List.map_cons, List.sum_cons] at fits
            rw [Time.toNat_add (by omega)]
            omega
          have later := Time.lt_foldl_add (positive next (List.mem_cons_self ..)) within
          obtain ⟨⟨middle, status⟩, returned⟩ := exists_returns
            (asserted.earlier later.le begun begins) (valid_beginRun valid begins)
          have first : session.Runs behaviour (session.ctx.currentTime + delta)
              (middle, .ok status) :=
            (runs_iff_of_begun begins).mpr ⟨middle, status, rfl, returned⟩
          have rest : middle.Steps behaviour next deltas result ↔ middle.Runs behaviour
              ((next :: deltas).foldl (· + ·) (session.ctx.currentTime + delta)) result := by
            obtain ⟨still, ⟨drained, stopped⟩ | reached⟩ :=
              exit_of_returns (valid_beginRun valid begins) returned
            · rw [steps_of_drained drained stopped, runs_of_drained drained stopped]
            · rw [← reached]
              exact induction still (reached ▸ asserted.split later first) positive
                (reached ▸ within)
          rw [← runs_split later first, ← rest]
          constructor
          · rintro ⟨middle', outcome, first', rest'⟩
            obtain ⟨rfl, rfl⟩ := Prod.mk.inj (first'.unique first)
            exact rest'
          · exact fun rest' => ⟨middle, .ok status, first, rest'⟩

end Session
end Simo
