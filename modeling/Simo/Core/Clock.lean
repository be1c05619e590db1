import Simo.Core.Termination

/-!
# Where a run leaves the clock

The loop of `run_at` has two exits.  One of them sets the clock to the final time.  The other, taken
when no tick is left, leaves it at the last tick that was run.  `Session.LastsUntil` says which
states lead to the first exit, or to a last tick that is the final time itself.
-/

namespace Simo

variable {Task ModuleRef Params World : Type*}

namespace Session

/-- The state after the tasks of the next tick. -/
def afterTick (behaviour : Behaviour Task ModuleRef Params World)
    (session : Session Task ModuleRef Params World) : Session Task ModuleRef Params World :=
  { session.runTick behaviour session.ctx.nextTick with
    ctx := (session.runTick behaviour session.ctx.nextTick).ctx.finishTick session.ctx.nextTick }

/-- The pending ticks, and those that their tasks schedule, go beyond the final time before they run
out, or the last of them is the final time. -/
inductive LastsUntil (behaviour : Behaviour Task ModuleRef Params World) (finalTime : Time) :
    Session Task ModuleRef Params World → Prop
  | beyond {session : Session Task ModuleRef Params World}
      (occupied : session.ctx.nextTickHeap.empty = false)
      (later : finalTime < session.ctx.nextTick) : LastsUntil behaviour finalTime session
  | last {session : Session Task ModuleRef Params World}
      (occupied : session.ctx.nextTickHeap.empty = false)
      (exact : session.ctx.nextTick = finalTime)
      (drained : (session.afterTick behaviour).ctx.nextTickHeap.empty = true) :
      LastsUntil behaviour finalTime session
  | tick {session : Session Task ModuleRef Params World}
      (occupied : session.ctx.nextTickHeap.empty = false)
      (rest : LastsUntil behaviour finalTime (session.afterTick behaviour)) :
      LastsUntil behaviour finalTime session

section Clock

variable {behaviour : Behaviour Task ModuleRef Params World} {finalTime : Time}
  {session final : Session Task ModuleRef Params World} {status : RunStatus}

theorem afterTick_of_pass {next : Session Task ModuleRef Params World}
    (passes : session.loopBody behaviour finalTime = .inl next) :
    session.ctx.nextTickHeap.empty = false ∧ session.ctx.nextTick ≤ finalTime ∧
      next = session.afterTick behaviour :=
  loopBody_inl passes

theorem LastsUntil.occupied (lasts : session.LastsUntil behaviour finalTime) :
    session.ctx.nextTickHeap.empty = false := by
  cases lasts with
  | beyond occupied | last occupied | tick occupied => exact occupied

theorem currentTime_afterTick (behaviour : Behaviour Task ModuleRef Params World)
    (session : Session Task ModuleRef Params World) :
    (session.afterTick behaviour).ctx.currentTime = session.ctx.nextTick :=
  (schedules_calls behaviour _ _ _).currentTime_eq

/-- While a tick is due, the next state decides. -/
theorem lastsUntil_of_due (occupied : session.ctx.nextTickHeap.empty = false)
    (due : session.ctx.nextTick ≤ finalTime) :
    session.LastsUntil behaviour finalTime ↔
      (session.ctx.nextTick = finalTime ∧
          (session.afterTick behaviour).ctx.nextTickHeap.empty = true) ∨
        (session.afterTick behaviour).LastsUntil behaviour finalTime := by
  constructor
  · intro lasts
    cases lasts with
    | beyond _ later => exact (later.not_ge due).elim
    | last _ same drained => exact .inl ⟨same, drained⟩
    | tick _ rest => exact .inr rest
  · rintro (⟨same, drained⟩ | rest)
    · exact .last occupied same drained
    · exact .tick occupied rest

/-- A tick pending beyond the final time is enough. -/
theorem lastsUntil_of_pending (asserted : session.LoopAsserted behaviour finalTime)
    (valid : session.ctx.nextTickHeap.Valid) {val : UInt64}
    (pending : val ∈ session.ctx.nextTickHeap.contents) (later : finalTime < ⟨val⟩) :
    session.LastsUntil behaviour finalTime := by
  obtain ⟨stopped, returned⟩ := exists_returns asserted valid
  induction returned using Loop.Returns.induction with
  | done session stopped returns =>
      rcases loopBody_inr returns with ⟨drained, -, -⟩ | ⟨occupied, beyond, -, -⟩
      · rw [(RadixHeap.empty_iff valid).mp drained] at pending
        exact (Multiset.notMem_zero _ pending).elim
      · exact .beyond occupied beyond
  | again session next stopped passes _ induction =>
      obtain ⟨added, contents, -⟩ := contents_pass (asserted.here passes) valid passes
      have rest := asserted.rest passes
      have still := valid_pass valid passes
      obtain ⟨occupied, due, rfl⟩ := afterTick_of_pass passes
      refine .tick occupied (induction rest still ?_)
      rw [contents]
      apply Multiset.mem_add.mpr
      rw [RadixHeap.contents_pop valid occupied] at pending
      refine .inl ((Multiset.mem_cons.mp pending).resolve_left ?_)
      rintro rfl
      exact (later.trans_le due).false

/-- An empty queue is not. -/
theorem not_lastsUntil_of_drained (drained : session.ctx.nextTickHeap.empty = true) :
    ¬ session.LastsUntil behaviour finalTime := by
  intro lasts
  cases drained.symm.trans lasts.occupied

/-- Where the loop leaves the clock, when it is entered with a pending tick or without. -/
theorem currentTime_of_returns
    (returned : Loop.Returns (loopBody behaviour finalTime) session (final, status)) :
    (session.ctx.nextTickHeap.empty = true ∧ final.ctx.currentTime = session.ctx.currentTime) ∨
      (session.ctx.nextTickHeap.empty = false ∧
        (final.ctx.currentTime = finalTime ↔ session.LastsUntil behaviour finalTime)) := by
  generalize outcome : (final, status) = stopped at returned
  induction returned using Loop.Returns.induction with
  | done session stopped returns =>
      subst outcome
      rcases loopBody_inr returns with ⟨drained, -, rfl⟩ | ⟨occupied, later, -, rfl⟩
      · exact .inl ⟨drained, rfl⟩
      · exact .inr ⟨occupied, iff_of_true rfl (.beyond occupied later)⟩
  | again session next stopped passes _ induction =>
      obtain ⟨occupied, due, rfl⟩ := afterTick_of_pass passes
      refine .inr ⟨occupied, ?_⟩
      rw [lastsUntil_of_due occupied due]
      rcases induction outcome with ⟨drained, clock⟩ | ⟨still, decided⟩
      · -- the tick just run was the last one
        have clock : final.ctx.currentTime = session.ctx.nextTick :=
          clock.trans (currentTime_afterTick behaviour session)
        rw [clock, or_iff_left (not_lastsUntil_of_drained drained)]
        exact (and_iff_left drained).symm
      · rw [decided, or_iff_right]
        rintro ⟨-, drained⟩
        cases drained.symm.trans still

/-- `run(timeDelta)` leaves the clock at the requested time in exactly those cases in which the
pending ticks last until then. -/
theorem run_advances_iff {fuel : ℕ} {timeDelta : Time} (positive : 0 < timeDelta.picoseconds)
    (fits : session.ctx.currentTime.picoseconds.toNat + timeDelta.picoseconds.toNat < 2 ^ 64)
    (runs : session.run behaviour fuel timeDelta = some (final, .ok status)) :
    final.ctx.currentTime = session.ctx.currentTime + timeDelta ↔
      ∃ begun, session.beginRun behaviour = .ok begun ∧
        begun.LastsUntil behaviour (session.ctx.currentTime + timeDelta) := by
  have apart : session.ctx.currentTime ≠ session.ctx.currentTime + timeDelta := by
    intro same
    have counts := congrArg (fun time : Time => time.picoseconds.toNat) same
    have sum := UInt64.toNat_add session.ctx.currentTime.picoseconds timeDelta.picoseconds
    rw [Nat.mod_eq_of_lt fits] at sum
    have moved := UInt64.lt_iff_toNat_lt.mp positive
    rw [show (session.ctx.currentTime + timeDelta).picoseconds =
      session.ctx.currentTime.picoseconds + timeDelta.picoseconds from rfl, sum] at counts
    omega
  have called : session.Runs behaviour (session.ctx.currentTime + timeDelta)
      (final, .ok status) := ⟨fuel, runs⟩
  obtain ⟨begun, begins⟩ := called.exists_begun
  obtain ⟨_, _, outcome, returned⟩ := (runs_iff_of_begun begins).mp called
  cases outcome
  have only : (∃ other, session.beginRun behaviour = .ok other ∧
      other.LastsUntil behaviour (session.ctx.currentTime + timeDelta)) ↔
      begun.LastsUntil behaviour (session.ctx.currentTime + timeDelta) := by
    simp [begins]
  rw [only]
  rcases currentTime_of_returns returned with ⟨drained, clock⟩ | ⟨-, decided⟩
  · apply iff_of_false
    · rw [clock, currentTime_beginRun begins]
      exact apart
    · exact not_lastsUntil_of_drained drained
  · exact decided

/-- Tick 10 and the two ticks that its task causes, run to the last of them. -/
theorem run_advances_iff_countdown :
    ∃ session final : Session ℕ Unit Unit Unit,
      session.run .countdown 4 ⟨12⟩ = some (final, .ok .stopped) ∧
      final.ctx.currentTime = session.ctx.currentTime + ⟨12⟩ ∧
      (final.ctx.currentTime = session.ctx.currentTime + ⟨12⟩ ↔
        ∃ begun, session.beginRun .countdown = .ok begun ∧
          begun.LastsUntil .countdown (session.ctx.currentTime + ⟨12⟩)) := by
  have checked : (((new ()).scheduleAt ⟨10⟩ 2 : Session ℕ Unit Unit Unit).run .countdown 4
      ⟨12⟩).any (fun result => result.2.toOption = some .stopped ∧
        result.1.ctx.currentTime = ⟨12⟩) = true := by decide
  obtain ⟨⟨final, outcome⟩, runs, holds⟩ := (Option.any_eq_true _ _).mp checked
  obtain ⟨stopped, clock⟩ := of_decide_eq_true holds
  cases outcome with
  | error => cases stopped
  | ok status =>
      obtain rfl := Option.some.inj stopped
      exact ⟨_, final, runs, clock, run_advances_iff (by decide) (by decide) runs⟩

/-- A fresh context without events: `run(5)` returns `STOPPED` and leaves the clock at 0. -/
theorem run_stops_early :
    ∃ final : Session ℕ Unit Unit Unit,
      History Behaviour.countdown () [] ⟨new (), none⟩ ∧
      (new ()).run .countdown 1 ⟨5⟩ = some (final, .ok .stopped) ∧
      (new () : Session ℕ Unit Unit Unit).ctx.currentTime = ⟨0⟩ ∧
      final.ctx.currentTime = ⟨0⟩ ∧
      final.ctx.currentTime ≠ (new () : Session ℕ Unit Unit Unit).ctx.currentTime + ⟨5⟩ :=
  ⟨_, .nil, rfl, rfl, rfl, by decide⟩

end Clock
end Session
end Simo
