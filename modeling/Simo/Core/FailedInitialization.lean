import Simo.Core.Scheduling

/-!
# After a failed initialization

A failed `Context::initialize` leaves the state `ERROR`.  The guard of `run_at` looks only for the
state `INITIALIZATION` and then overwrites whatever state there is, so the failure is reported once
and the next run goes ahead.  The law that nothing runs after a failure is stated over whole
histories and holds of exactly those in which no run is attempted after it.
-/

namespace Simo

variable {Task ModuleRef Params World : Type*}

namespace Event

/-- Whether initialization has been reported as failed, with no explicit success after it. -/
def failedAfter (failed : Bool) : Event Task ModuleRef Params → Bool
  | .initializes status => !status.success
  | .runFails _ _ => true
  | _ => failed

/-- The event begins a call of `run` or `run_at`. -/
def IsRunCall : Event Task ModuleRef Params → Prop
  | .runFails _ _ => True
  | .runBegins _ => True
  | _ => False

end Event

namespace Config

/-- If the step belongs to a run, it executes no task, does not leave the state `ERROR` and returns
no `RunStatus`. -/
def RunsNothing (step : Transition (Config Task ModuleRef Params World)
    (Event Task ModuleRef Params)) : Prop :=
  match step.label with
  | .runFails _ _ | .runBegins _ | .pass =>
      step.target.session.executed = step.source.session.executed ∧
        (step.source.session.ctx.state = .error → step.target.session.ctx.state = .error)
  | .runReturns _ => False
  | _ => True

instance decidableRunsNothing [DecidableEq Task] :
    ∀ step : Transition (Config Task ModuleRef Params World) (Event Task ModuleRef Params),
      Decidable (RunsNothing step)
  | ⟨_, .runFails _ _, _⟩ | ⟨_, .runBegins _, _⟩ | ⟨_, .pass, _⟩ =>
      inferInstanceAs (Decidable (_ ∧ _))
  | ⟨_, .runReturns _, _⟩ => .isFalse not_false
  | ⟨_, .request _, _⟩ | ⟨_, .add _ _, _⟩ | ⟨_, .remove _, _⟩ | ⟨_, .initializes _, _⟩ =>
      .isTrue trivial

/-- After a reported failure the state is `ERROR` and no run is in progress. -/
def Halted (failed : Bool) (config : Config Task ModuleRef Params World) : Prop :=
  failed = true → config.session.ctx.state = .error ∧ config.finalTime = none

variable [DecidableEq ModuleRef] {behaviour : Behaviour Task ModuleRef Params World}
  {before after : Config Task ModuleRef Params World} {event : Event Task ModuleRef Params}

/-- In state `ERROR` a run either does not begin or breaks the law at once. -/
theorem runsNothing_iff (step : Step behaviour before event after) (halted : before.Halted true) :
    RunsNothing ⟨before, event, after⟩ ↔ ¬ event.IsRunCall := by
  obtain ⟨stopped, outside⟩ := halted rfl
  cases step with
  | request | add | remove | initializes => simp [RunsNothing, Event.IsRunCall]
  | runFails finalTime begins =>
      have waiting := (Session.beginRun_error begins).1
      rw [stopped] at waiting
      cases waiting
  | runBegins finalTime begins =>
      refine iff_of_false (fun obeyed => ?_) (fun absent => absent trivial)
      have running := Session.state_of_beginRun begins
      rw [obeyed.2 stopped] at running
      cases running
  | pass | runReturns => cases outside

theorem halted_step {failed : Bool} (step : Step behaviour before event after)
    (halted : before.Halted failed)
    (obeyed : failed = true → RunsNothing ⟨before, event, after⟩) :
    after.Halted (event.failedAfter failed) := by
  intro raised
  cases step with
  | request session request =>
      obtain ⟨stopped, -⟩ := halted raised
      rw [Session.request_eq]
      exact ⟨(Context.state_scheduleAt _ _ _).trans stopped, rfl⟩
  | add | remove => exact halted raised
  | initializes session =>
      have failure : (session.initializeContext behaviour).2.success = false := by
        simpa [Event.failedAfter] using raised
      have state := Session.state_initializeContext behaviour session
      rw [failure] at state
      exact ⟨state, rfl⟩
  | @runFails session failed status finalTime begins =>
      obtain ⟨-, failure, result⟩ := Session.beginRun_error begins
      have state := Session.state_initializeContext behaviour session
      rw [← result, failure] at state
      exact ⟨state, rfl⟩
  | runBegins finalTime begins =>
      have one : Step behaviour ⟨_, none⟩ (.runBegins finalTime) ⟨_, some finalTime⟩ :=
        .runBegins finalTime begins
      exact ((runsNothing_iff one (raised ▸ halted)).mp (obeyed raised) trivial).elim
  | pass | runReturns => cases (halted raised).2

/-- After a failed initialization nothing runs, in exactly those histories in which no run is
attempted between the failure and the next explicit initialization that succeeds. -/
theorem never_runs_iff {world : World} {config : Config Task ModuleRef Params World}
    {steps : List (Transition (Config Task ModuleRef Params World)
      (Event Task ModuleRef Params))}
    (history : History behaviour world steps config) :
    During Event.failedAfter RunsNothing false steps ↔
      During Event.failedAfter (fun step => ¬ step.label.IsRunCall) false steps := by
  have initially : Halted false
      (⟨Session.new world, none⟩ : Config Task ModuleRef Params World) := nofun
  exact During.iff_of_invariant (fun _ _ _ => runsNothing_iff) (fun _ _ _ _ => halted_step)
    history initially

/-- Modules whose initialization always fails. -/
def broken : Behaviour ℕ Unit Unit Unit where
  call _ _ world := (world, [])
  initializeModule _ _ _ world := (world, [], .ofErrors none ["broken"])

/-- A program that runs only after a second, successful initialization. -/
def runRepaired : List (Command ℕ Unit Unit) :=
  [.request (.scheduleAt ⟨5⟩ 0), .add () (), .initializes, .remove (), .initializes, .runAt ⟨10⟩,
    .pass, .pass]

theorem never_runs_iff_repaired :
    ∃ steps config, History broken () steps config ∧ config.session.executed = [(⟨5⟩, 0)] ∧
      During Event.failedAfter RunsNothing false steps ∧
      (During Event.failedAfter RunsNothing false steps ↔
        During Event.failedAfter (fun step => ¬ step.label.IsRunCall) false steps) := by
  obtain ⟨steps, config, history, executed, obeyed⟩ :=
    exists_path_of_execute broken ⟨Session.new (), none⟩ runRepaired
      (fun result => result.2.session.executed = [(⟨5⟩, 0)] ∧
        During Event.failedAfter RunsNothing false result.1) (by decide)
  exact ⟨steps, config, history, executed, obeyed, never_runs_iff history⟩

/-- A program that runs its context again after the first run has reported the failure. -/
def runAgain : List (Command ℕ Unit Unit) :=
  [.request (.scheduleAt ⟨5⟩ 0), .add () (), .runAt ⟨10⟩, .runAt ⟨10⟩, .pass, .pass]

/-- The second `run_at` executes the task for tick 5 and returns `STOPPED`. -/
theorem runs_after_failure :
    ∃ steps config, History broken () steps config ∧
      ¬ During Event.failedAfter RunsNothing false steps ∧
      config.session.executed = [(⟨5⟩, 0)] ∧ config.session.ctx.state = .stopped := by
  obtain ⟨steps, config, history, result⟩ :=
    exists_path_of_execute broken ⟨Session.new (), none⟩ runAgain
      (fun result => ¬ During Event.failedAfter RunsNothing false result.1 ∧
        result.2.session.executed = [(⟨5⟩, 0)] ∧ result.2.session.ctx.state = .stopped)
      (by decide)
  exact ⟨steps, config, history, result⟩

end Config
end Simo
