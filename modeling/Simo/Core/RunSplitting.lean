import Simo.Core.Termination

/-!
# Splitting a run

A pass of the loop uses the final time only to decide whether to go on, and it overwrites the
clock before anything reads it.  A run that stops early therefore leaves a later run exactly what
it would have had anyway.  No order of the heap is used, so this holds in every history; that the
two runs return needs the assertion of `schedule_at` for the tasks of the undivided run.
-/

namespace Simo

variable {Task ModuleRef Params World : Type*}

namespace Session

variable {behaviour : Behaviour Task ModuleRef Params World} {finalTime laterTime : Time}
  {session next middle begun : Session Task ModuleRef Params World} {status : RunStatus}

/-- While a tick is pending the loop does not look at the clock. -/
theorem loopBody_withTime (occupied : session.ctx.nextTickHeap.empty = false) (clock : Time) :
    loopBody behaviour finalTime { session with ctx := { session.ctx with currentTime := clock } } =
      session.loopBody behaviour finalTime := by
  have pending : ¬ session.ctx.nextTickHeap.empty = true := by simp [occupied]
  simp only [loopBody, if_neg pending]
  rfl

/-- What a pass does before an earlier final time it does before a later one. -/
theorem loopBody_later (passes : session.loopBody behaviour finalTime = .inl next)
    (later : finalTime ≤ laterTime) : session.loopBody behaviour laterTime = .inl next := by
  obtain ⟨occupied, due, rfl⟩ := loopBody_inl passes
  exact loopBody_of_due behaviour occupied (due.trans later)

/-- What a run to a later time calls meets the assertion, and so does what a run to an earlier one
calls. -/
theorem RunAsserted.earlier (asserted : session.RunAsserted behaviour laterTime)
    (later : finalTime ≤ laterTime) : session.RunAsserted behaviour finalTime :=
  fun begun begins =>
    (asserted begun begins).of_passes fun _ _ passes => loopBody_later passes later

/-- The clock stays within the final time. -/
theorem currentTime_le_of_returns
    (returned : Loop.Returns (loopBody behaviour finalTime) session (middle, status))
    (within : session.ctx.currentTime ≤ finalTime) : middle.ctx.currentTime ≤ finalTime := by
  generalize outcome : (middle, status) = stopped at returned
  induction returned using Loop.Returns.induction with
  | done session stopped returns =>
      subst outcome
      rcases loopBody_inr returns with ⟨-, -, rfl⟩ | ⟨-, -, -, rfl⟩
      · exact within
      · exact le_rfl
  | again session next stopped passes _ induction =>
      obtain ⟨-, due, -⟩ := loopBody_inl passes
      exact induction ((currentTime_pass passes).trans_le due) outcome

/-- A loop with a later final time returns the same from where an earlier one stopped. -/
theorem returns_split (later : finalTime < laterTime)
    (returned : Loop.Returns (loopBody behaviour finalTime) session (middle, status))
    (running : session.ctx.state = .running)
    (result : Session Task ModuleRef Params World × RunStatus) :
    Loop.Returns (loopBody behaviour laterTime)
        { middle with ctx := { middle.ctx with state := .running } } result ↔
      Loop.Returns (loopBody behaviour laterTime) session result := by
  generalize outcome : (middle, status) = stopped at returned
  induction returned using Loop.Returns.induction with
  | done session stopped returns =>
      subst outcome
      rcases loopBody_inr returns with ⟨-, -, rfl⟩ | ⟨occupied, -, -, rfl⟩
      · rw [← running]
      · rw [← running]
        exact Loop.returns_congr (loopBody_withTime occupied finalTime)
  | again session next stopped passes _ induction =>
      have still := (state_pass passes).trans running
      rw [induction still outcome, Loop.returns_again (loopBody_later passes later.le)]

/-- What the later loop calls from there meets the assertion, if it is met without the stop. -/
theorem LoopAsserted.split (asserted : session.LoopAsserted behaviour laterTime)
    (later : finalTime < laterTime)
    (returned : Loop.Returns (loopBody behaviour finalTime) session (middle, status))
    (running : session.ctx.state = .running) :
    LoopAsserted behaviour laterTime
      { middle with ctx := { middle.ctx with state := .running } } := by
  generalize outcome : (middle, status) = stopped at returned
  induction returned using Loop.Returns.induction with
  | done session stopped returns =>
      subst outcome
      rcases loopBody_inr returns with ⟨-, -, rfl⟩ | ⟨occupied, -, -, rfl⟩
      · rw [← running]
        exact asserted
      · rw [← running]
        exact Loop.Obeys.of_congr asserted (loopBody_withTime occupied finalTime) id
  | again session next stopped passes _ induction =>
      have rest := asserted.rest (loopBody_later passes later.le)
      exact induction rest ((state_pass passes).trans running) outcome

theorem started_of_returns
    (returned : Loop.Returns (loopBody behaviour finalTime) session (middle, status))
    (running : session.ctx.state = .running) : middle.ctx.state ≠ .initialization := by
  generalize outcome : (middle, status) = stopped at returned
  induction returned using Loop.Returns.induction with
  | done session stopped returns =>
      subst outcome
      rcases loopBody_inr returns with ⟨-, -, rfl⟩ | ⟨-, -, -, rfl⟩
      · simp
      · simp [running]
  | again session next stopped passes _ induction =>
      exact induction ((state_pass passes).trans running) outcome

/-- The same for whole calls of `run_at`. -/
theorem runs_split (later : finalTime < laterTime)
    (first : session.Runs behaviour finalTime (middle, .ok status))
    (result : Session Task ModuleRef Params World ×
      Except (InitializationStatus ModuleRef) RunStatus) :
    middle.Runs behaviour laterTime result ↔ session.Runs behaviour laterTime result := by
  obtain ⟨begun, begins⟩ := first.exists_begun
  obtain ⟨_, _, outcome, returned⟩ := (runs_iff_of_begun begins).mp first
  cases outcome
  have running := state_of_beginRun begins
  have started := started_of_returns returned running
  rw [runs_iff_of_begun begins, runs_iff_of_begun (beginRun_of_started behaviour started)]
  simp only [returns_split later returned running]

theorem RunAsserted.split (asserted : session.RunAsserted behaviour laterTime)
    (later : finalTime < laterTime)
    (first : session.Runs behaviour finalTime (middle, .ok status)) :
    middle.RunAsserted behaviour laterTime := by
  obtain ⟨begun, begins⟩ := first.exists_begun
  obtain ⟨_, _, outcome, returned⟩ := (runs_iff_of_begun begins).mp first
  cases outcome
  have running := state_of_beginRun begins
  have started := started_of_returns returned running
  intro again beginsAgain
  rw [beginRun_of_started behaviour started] at beginsAgain
  obtain rfl := Except.ok.inj beginsAgain
  exact (asserted begun begins).split later returned running

/-- Splitting a run does not change it.  From every reachable state in which initialization, if
still due, succeeds, and for tasks that in the run to `laterTime` schedule for later ticks,
`run_at(finalTime)` returns, it leaves a state in which `run_at(laterTime)` may be called, and that
call has exactly the results of a single `run_at(laterTime)`: the same status, and the same session
with its task calls, state, clock, pending tasks and heap. -/
theorem run_at_split [DecidableEq ModuleRef] {world : World}
    {steps : List (Transition (Config Task ModuleRef Params World)
      (Event Task ModuleRef Params))}
    (history : History behaviour world steps ⟨session, none⟩)
    (initializes : session.ctx.state = .initialization →
      (session.initializeContext behaviour).2.success = true)
    (asserted : session.RunAsserted behaviour laterTime)
    (later : session.ctx.currentTime < finalTime) (more : finalTime < laterTime) :
    ∃ middle status, session.Runs behaviour finalTime (middle, .ok status) ∧
      middle.ctx.currentTime < laterTime ∧
      (∃ final lastStatus, session.Runs behaviour laterTime (final, .ok lastStatus)) ∧
      ∀ result, middle.Runs behaviour laterTime result ↔
        session.Runs behaviour laterTime result := by
  have valid := Config.valid_of_history history
  obtain ⟨middle, status, first⟩ := exists_runs (asserted.earlier more.le) valid initializes
  refine ⟨middle, status, first, ?_, exists_runs asserted valid initializes,
    runs_split more first⟩
  obtain ⟨begun, begins⟩ := first.exists_begun
  obtain ⟨_, _, outcome, returned⟩ := (runs_iff_of_begun begins).mp first
  cases outcome
  refine (currentTime_le_of_returns returned ?_).trans_lt more
  rw [currentTime_beginRun begins]
  exact later.le

/-- A state with a tick below the head of the heap, and tasks that schedule further ones. -/
theorem run_at_split_below_head :
    ∃ session : Session ℕ Unit Unit Unit,
      session.ctx.tasksAt ⟨7⟩ = [1] ∧ session.ctx.nextTick = ⟨10⟩ ∧
      ∃ middle status, session.Runs Behaviour.countdown ⟨8⟩ (middle, .ok status) ∧
        middle.ctx.currentTime < ⟨20⟩ ∧
        (∃ final lastStatus, session.Runs Behaviour.countdown ⟨20⟩ (final, .ok lastStatus)) ∧
        ∀ result, middle.Runs Behaviour.countdown ⟨20⟩ result ↔
          session.Runs Behaviour.countdown ⟨20⟩ result := by
  obtain ⟨steps, ⟨session, control⟩, history, outside, tasks, head, started, clock⟩ :=
    Config.exists_path_of_execute Behaviour.countdown
      ⟨Session.new (), none⟩
      [.request (.scheduleAt ⟨10⟩ 2), .runAt ⟨5⟩, .pass, .request (.scheduleAt ⟨7⟩ 1)]
      (fun result => result.2.finalTime = none ∧ result.2.session.ctx.tasksAt ⟨7⟩ = [1] ∧
        result.2.session.ctx.nextTick = ⟨10⟩ ∧ result.2.session.ctx.state ≠ .initialization ∧
        result.2.session.ctx.currentTime < ⟨8⟩) (by decide)
  cases outside
  exact ⟨session, tasks, head, run_at_split history (fun waiting => (started waiting).elim)
    (runAsserted_countdown (by decide) session) clock (by decide)⟩

end Session
end Simo
