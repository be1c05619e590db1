import Simo.Core.Scheduling

/-!
# Runs return

Tasks that schedule for later ticks refill the heap above the tick they run at.  There are finitely
many ticks, so the loop of `run_at` drains what is due and returns.  This needs the assertion of
`schedule_at` for the calls that tasks make in this run, and a valid heap, which every history has;
it needs neither the order of the heap nor anything of the calls made before.
-/

namespace Simo

variable {Task ModuleRef Params World : Type*}

namespace Session

/-- The call `run_at(finalTime)` returns `result`. -/
def Runs (behaviour : Behaviour Task ModuleRef Params World) (finalTime : Time)
    (session : Session Task ModuleRef Params World)
    (result : Session Task ModuleRef Params World ×
      Except (InitializationStatus ModuleRef) RunStatus) : Prop :=
  ∃ fuel, session.runAt behaviour fuel finalTime = some result

section Runs

variable {behaviour : Behaviour Task ModuleRef Params World} {finalTime : Time}
  {session begun : Session Task ModuleRef Params World}

/-- Once its loop is reached, a run returns what the loop returns. -/
theorem runs_iff_of_begun (begins : session.beginRun behaviour = .ok begun)
    {result : Session Task ModuleRef Params World ×
      Except (InitializationStatus ModuleRef) RunStatus} :
    session.Runs behaviour finalTime result ↔
      ∃ final status, result = (final, .ok status) ∧
        Loop.Returns (loopBody behaviour finalTime) begun (final, status) := by
  simp only [Runs, runAt, begins, Option.map_eq_some_iff, Prod.exists]
  constructor
  · rintro ⟨fuel, final, status, returned, rfl⟩
    exact ⟨final, status, rfl, fuel, returned⟩
  · rintro ⟨final, status, rfl, fuel, returned⟩
    exact ⟨fuel, final, status, returned, rfl⟩

/-- A run that reports a status has reached its loop. -/
theorem Runs.exists_begun {final : Session Task ModuleRef Params World} {status : RunStatus}
    (runs : session.Runs behaviour finalTime (final, .ok status)) :
    ∃ begun, session.beginRun behaviour = .ok begun := by
  obtain ⟨fuel, returned⟩ := runs
  cases begins : session.beginRun behaviour with
  | ok begun => exact ⟨begun, rfl⟩
  | error failure => simp [runAt, begins] at returned

theorem Runs.unique {first second : Session Task ModuleRef Params World ×
      Except (InitializationStatus ModuleRef) RunStatus}
    (one : session.Runs behaviour finalTime first)
    (other : session.Runs behaviour finalTime second) : first = second := by
  cases begins : session.beginRun behaviour with
  | ok begun =>
      obtain ⟨final, status, rfl, returned⟩ := (runs_iff_of_begun begins).mp one
      obtain ⟨final', status', rfl, returned'⟩ := (runs_iff_of_begun begins).mp other
      obtain ⟨rfl, rfl⟩ := Prod.mk.inj (returned.unique returned')
      rfl
  | error failure =>
      obtain ⟨fuel, returned⟩ := one
      obtain ⟨fuel', returned'⟩ := other
      simp only [runAt, begins, Option.some.injEq] at returned returned'
      exact returned.symm.trans returned'

/-- `run_at` reaches its loop whenever initialization is behind it or succeeds. -/
theorem exists_beginRun_ok (initializes : session.ctx.state = .initialization →
    (session.initializeContext behaviour).2.success = true) :
    ∃ begun, session.beginRun behaviour = .ok begun := by
  cases begins : session.beginRun behaviour with
  | ok begun => exact ⟨begun, rfl⟩
  | error failure =>
      obtain ⟨waiting, failed, result⟩ := beginRun_error begins
      have success := initializes waiting
      rw [← result] at success
      simp [failed] at success

end Runs

section Valid

variable {behaviour : Behaviour Task ModuleRef Params World}
  {session begun : Session Task ModuleRef Params World}

theorem valid_initializeContext (behaviour : Behaviour Task ModuleRef Params World)
    (valid : session.ctx.nextTickHeap.Valid) :
    (session.initializeContext behaviour).1.ctx.nextTickHeap.Valid :=
  Context.valid_pushTimes
    ((schedules_initializeModules behaviour session.ctx.modules (session, .ok none)).1.valid valid)

theorem valid_beginRun (valid : session.ctx.nextTickHeap.Valid)
    (begins : session.beginRun behaviour = .ok begun) : begun.ctx.nextTickHeap.Valid := by
  rcases beginRun_ok begins with ⟨-, -, rfl⟩ | ⟨-, rfl⟩
  · exact valid_initializeContext behaviour valid
  · exact valid

end Valid

section Loop

variable {behaviour : Behaviour Task ModuleRef Params World} {finalTime : Time}
  {session next : Session Task ModuleRef Params World}

/-- A pass takes the head out of the heap and adds later ticks. -/
theorem contents_pass (asserted : behaviour.MeetsAssertion session.ctx.nextTick
      (session.ctx.tasksAt session.ctx.nextTick) session.world)
    (valid : session.ctx.nextTickHeap.Valid)
    (passes : session.loopBody behaviour finalTime = .inl next) :
    ∃ added : Multiset UInt64, next.ctx.nextTickHeap.contents =
        session.ctx.nextTickHeap.pop.contents + added ∧
      ∀ val ∈ added, session.ctx.nextTickHeap.peek < val := by
  obtain ⟨occupied, -, rfl⟩ := loopBody_inl passes
  have schedules := schedules_runTick asserted
  have still := schedules.valid valid
  obtain ⟨added, contents, named⟩ := schedules.contents
  obtain ⟨nonempty, head⟩ := schedules.nextTick_eq valid occupied
  refine ⟨added, ?_, named⟩
  have peek : (session.runTick behaviour session.ctx.nextTick).ctx.nextTickHeap.peek =
      session.ctx.nextTickHeap.peek := congrArg Time.picoseconds head
  have popped := RadixHeap.contents_pop still nonempty
  rw [contents, peek, RadixHeap.contents_pop valid occupied, Multiset.cons_add] at popped
  exact (Multiset.cons_inj_right _).mp popped.symm

/-- A pass refills the heap above its head. -/
theorem refills_pass (asserted : behaviour.MeetsAssertion session.ctx.nextTick
      (session.ctx.tasksAt session.ctx.nextTick) session.world)
    (valid : session.ctx.nextTickHeap.Valid)
    (passes : session.loopBody behaviour finalTime = .inl next) :
    MinQueue.Refills next.ctx.nextTickHeap.contents session.ctx.nextTickHeap.contents := by
  obtain ⟨added, contents, named⟩ := contents_pass asserted valid passes
  obtain ⟨occupied, -, -⟩ := loopBody_inl passes
  exact ⟨session.ctx.nextTickHeap.pop.contents, added, session.ctx.nextTickHeap.peek,
    RadixHeap.contents_pop valid occupied, contents, named⟩

/-- The loop of `run_at` returns. -/
theorem exists_returns (asserted : session.LoopAsserted behaviour finalTime)
    (valid : session.ctx.nextTickHeap.Valid) :
    ∃ result, Loop.Returns (loopBody behaviour finalTime) session result := by
  have pass : ∀ between next : Session Task ModuleRef Params World,
      between.LoopAsserted behaviour finalTime ∧ between.ctx.nextTickHeap.Valid →
      between.loopBody behaviour finalTime = .inl next →
      (next.LoopAsserted behaviour finalTime ∧ next.ctx.nextTickHeap.Valid) ∧
        MinQueue.Refills next.ctx.nextTickHeap.contents between.ctx.nextTickHeap.contents := by
    rintro between next ⟨asserted, valid⟩ passes
    exact ⟨⟨asserted.rest passes, valid_pass valid passes⟩,
      refills_pass (asserted.here passes) valid passes⟩
  exact Loop.exists_returns
    (InvImage.wf (fun session : Session Task ModuleRef Params World =>
      session.ctx.nextTickHeap.contents) MinQueue.wellFounded_refills) pass ⟨asserted, valid⟩

/-- `run_at` returns a status of its run unless its own initialization fails. -/
theorem exists_runs (asserted : session.RunAsserted behaviour finalTime)
    (valid : session.ctx.nextTickHeap.Valid)
    (initializes : session.ctx.state = .initialization →
      (session.initializeContext behaviour).2.success = true) :
    ∃ final status, session.Runs behaviour finalTime (final, .ok status) := by
  obtain ⟨begun, begins⟩ := exists_beginRun_ok initializes
  obtain ⟨⟨final, status⟩, returned⟩ :=
    exists_returns (asserted begun begins) (valid_beginRun valid begins)
  exact ⟨final, status, (runs_iff_of_begun begins).mpr ⟨final, status, rfl, returned⟩⟩

end Loop
end Session

namespace Config

theorem valid_step [DecidableEq ModuleRef] {behaviour : Behaviour Task ModuleRef Params World}
    {before after : Config Task ModuleRef Params World}
    {event : Event Task ModuleRef Params} (valid : before.session.ctx.nextTickHeap.Valid)
    (step : Step behaviour before event after) : after.session.ctx.nextTickHeap.Valid := by
  cases step with
  | request session request =>
      rw [Session.request_eq]
      exact Context.valid_scheduleAt _ _ _ valid
  | add | remove => exact valid
  | initializes session => exact Session.valid_initializeContext behaviour valid
  | @runFails session failed status finalTime begins =>
      obtain ⟨-, -, result⟩ := Session.beginRun_error begins
      obtain rfl := (Prod.mk.inj result).1
      exact Session.valid_initializeContext behaviour valid
  | runBegins finalTime begins => exact Session.valid_beginRun valid begins
  | pass passes => exact Session.valid_pass valid passes
  | runReturns returns =>
      rcases Session.loopBody_inr returns with ⟨-, -, rfl⟩ | ⟨-, -, -, rfl⟩ <;> exact valid

/-- The heap is valid in every history, forward or not. -/
theorem valid_of_history [DecidableEq ModuleRef]
    {behaviour : Behaviour Task ModuleRef Params World} {world : World}
    {config : Config Task ModuleRef Params World}
    {steps : List (Transition (Config Task ModuleRef Params World)
      (Event Task ModuleRef Params))}
    (history : History behaviour world steps config) : config.session.ctx.nextTickHeap.Valid :=
  history.invariant_of_step RadixHeap.valid_new fun _ _ _ valid step => valid_step valid step

end Config
namespace Session

/-- `run_at` terminates: from every reachable state there is a bound on the passes of its loop, for
every final time, with or without ticks below the head of the heap, as long as the tasks that it
calls schedule for later ticks. -/
theorem run_at_terminates [DecidableEq ModuleRef]
    {behaviour : Behaviour Task ModuleRef Params World} {world : World}
    {steps : List (Transition (Config Task ModuleRef Params World)
      (Event Task ModuleRef Params))}
    {session : Session Task ModuleRef Params World}
    (history : History behaviour world steps ⟨session, none⟩) {finalTime : Time}
    (asserted : session.RunAsserted behaviour finalTime) :
    ∃ passes result, ∀ fuel, passes ≤ fuel →
      session.runAt behaviour fuel finalTime = some result := by
  cases begins : session.beginRun behaviour with
  | error failure =>
      refine ⟨0, (failure.1, .error failure.2), fun fuel _ => ?_⟩
      rw [runAt, begins]
  | ok begun =>
      have valid := valid_beginRun (Config.valid_of_history history) begins
      obtain ⟨⟨final, status⟩, passes, returned⟩ := exists_returns (asserted begun begins) valid
      refine ⟨passes, (final, .ok status), fun fuel bound => ?_⟩
      rw [runAt, begins]
      exact congrArg (Option.map _) (Loop.run_mono bound returned)

/-- A task that schedules itself for the next tick for ever. -/
def periodic : Behaviour Unit Unit Unit Unit where
  call _ _ world := (world, [.scheduleIn ⟨1⟩ ()])
  initializeModule module _ _ world := (world, [], .ok (some module))

theorem later_periodic {tick : Time} (next : tick < tick + ⟨1⟩) (task world : Unit) :
    ∀ request ∈ (periodic.call task tick world).2, tick < request.target tick := by
  intro request member
  rw [List.mem_singleton.mp member]
  exact next

/-- A state with a tick below the head of the heap and a task that never stops. -/
theorem run_at_terminates_periodic :
    ∃ session : Session Unit Unit Unit Unit,
      session.ctx.tasksAt ⟨7⟩ = [()] ∧ session.ctx.nextTick = ⟨10⟩ ∧
      ∃ passes result, ∀ fuel, passes ≤ fuel →
        session.runAt periodic fuel ⟨20⟩ = some result := by
  obtain ⟨steps, ⟨session, control⟩, history, outside, tasks, head⟩ :=
    Config.exists_path_of_execute periodic ⟨Session.new (), none⟩
      [.request (.scheduleAt ⟨10⟩ ()), .runAt ⟨5⟩, .pass, .request (.scheduleAt ⟨7⟩ ())]
      (fun result => result.2.finalTime = none ∧ result.2.session.ctx.tasksAt ⟨7⟩ = [()] ∧
        result.2.session.ctx.nextTick = ⟨10⟩) (by decide)
  cases outside
  have asserted : session.RunAsserted periodic ⟨20⟩ := runAsserted_of_later
    (fun task _ world due => later_periodic (Time.lt_add_one due (by decide)) task world) session
  exact ⟨session, tasks, head, run_at_terminates history asserted⟩

end Session
end Simo
