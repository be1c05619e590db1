import Simo.Core.Chronology
import Simo.Core.Clock
import Simo.Support.EventSimulator

/-!
# The scheduler refines the reference simulator

The task map is one queue for each tick, so it represents the event set of the reference simulator;
the heap only has to find the least tick in use.  One pass of the loop of `run_at` corresponds to
as many steps of the simulator as the tick has tasks.  `Session.Refines` is the simulation
relation; from it the calls of `run_at` show the same task calls, status, state and clock as the
simulator does.
-/

namespace Simo

open EventSimulator

variable {Task ModuleRef Params World : Type*}

/-! ## The reference -/

/-- What a call of `run_at` shows. -/
structure Observation (Task : Type*) where
  /-- Every task call so far, with its argument. -/
  executed : List (Time × Task)
  status : RunStatus
  state : State
  currentTime : Time

/-- The tick of the last task call; a context starts at time zero. -/
def lastExecuted (executed : List (Time × Task)) : Time :=
  (executed.getLast?.map Prod.fst).getD .zero

theorem lastExecuted_append (executed : List (Time × Task)) (tick : Time) {tasks : List Task}
    (some : tasks ≠ []) : lastExecuted (executed ++ tasks.map (Prod.mk tick)) = tick := by
  obtain ⟨front, last, rfl⟩ := List.eq_nil_or_concat tasks |>.resolve_left some
  simp [lastExecuted]

/-- A task call as the simulator makes it, with requests for absolute ticks. -/
def Behaviour.simulated (behaviour : Behaviour Task ModuleRef Params World) (task : Task)
    (tick : Time) (world : World) : World × List (Time × Task) :=
  ((behaviour.call task tick world).1,
    (behaviour.call task tick world).2.map fun request => (request.target tick, request.callable))

/-- The reference for `run_at`: fire what is due; if something is left, stop at the final time in
state `RUNNING`, otherwise at the last executed tick in state `STOPPED`. -/
inductive ReferenceRun (behaviour : Behaviour Task ModuleRef Params World) :
    Simulator Time Task World → Time × Observation Task → Simulator Time Task World → Prop
  | eventsInQueue {sim next : Simulator Time Task World} {finalTime : Time}
      (run : RunTo behaviour.simulated finalTime sim next) (left : next.pending ≠ ∅) :
      ReferenceRun behaviour sim
        (finalTime, ⟨next.executed, .eventsInQueue, .running, finalTime⟩) next
  | stopped {sim next : Simulator Time Task World} {finalTime : Time}
      (run : RunTo behaviour.simulated finalTime sim next) (drained : next.pending = ∅) :
      ReferenceRun behaviour sim
        (finalTime, ⟨next.executed, .stopped, .stopped, lastExecuted next.executed⟩) next

theorem ReferenceRun.unique {behaviour : Behaviour Task ModuleRef Params World}
    {sim first second : Simulator Time Task World} {finalTime : Time}
    {shown other : Observation Task}
    (one : ReferenceRun behaviour sim (finalTime, shown) first)
    (another : ReferenceRun behaviour sim (finalTime, other) second) :
    shown = other ∧ first = second := by
  cases one with
  | eventsInQueue run left =>
      cases another with
      | eventsInQueue run' => exact run.unique run' ▸ ⟨rfl, rfl⟩
      | stopped run' drained => exact (left (run.unique run' ▸ drained)).elim
  | stopped run drained =>
      cases another with
      | eventsInQueue run' left => exact (left (run.unique run' ▸ drained)).elim
      | stopped run' => exact run.unique run' ▸ ⟨rfl, rfl⟩

/-- Entries fired before a call add to it. -/
theorem ReferenceRun.of_runs {behaviour : Behaviour Task ModuleRef Params World}
    {sim later next : Simulator Time Task World} {call : Time × Observation Task}
    (shown : ReferenceRun behaviour later call next)
    (runs : ∀ final, RunTo behaviour.simulated call.1 later final →
      RunTo behaviour.simulated call.1 sim final) : ReferenceRun behaviour sim call next := by
  cases shown with
  | eventsInQueue run left => exact .eventsInQueue (runs _ run) left
  | stopped run drained => exact .stopped (runs _ run) drained

namespace Session

/-- A call of `run_at` together with what it shows. -/
def RunAtShows (behaviour : Behaviour Task ModuleRef Params World)
    (session : Session Task ModuleRef Params World) (call : Time × Observation Task)
    (next : Session Task ModuleRef Params World) : Prop :=
  ∃ status, session.Runs behaviour call.1 (next, .ok status) ∧
    call.2 = ⟨next.executed, status, next.ctx.state, next.ctx.currentTime⟩

/-- The assertion of `schedule_at` for the tasks that a sequence of calls of `run_at` calls. -/
def RunsAsserted (behaviour : Behaviour Task ModuleRef Params World) :
    List Time → Session Task ModuleRef Params World → Prop
  | [], _ => True
  | finalTime :: times, session =>
      session.RunAsserted behaviour finalTime ∧
        ∀ next status, session.Runs behaviour finalTime (next, .ok status) →
          RunsAsserted behaviour times next

theorem runsAsserted_of_forall {behaviour : Behaviour Task ModuleRef Params World}
    {times : List Time}
    (asserted : ∀ finalTime ∈ times, ∀ session : Session Task ModuleRef Params World,
      session.RunAsserted behaviour finalTime) (session : Session Task ModuleRef Params World) :
    session.RunsAsserted behaviour times := by
  induction times generalizing session with
  | nil => trivial
  | cons finalTime times induction =>
      obtain ⟨here, later⟩ := List.forall_mem_cons.mp asserted
      exact ⟨here session, fun next _ _ => induction later next⟩

/-- The simulator with the events scheduled before the first run, by schedule calls and by the
initialization of modules. -/
def reference (behaviour : Behaviour Task ModuleRef Params World)
    (session : Session Task ModuleRef Params World) : Simulator Time Task World :=
  (session.initializeContext behaviour).1.scheduled.foldl Simulator.schedule
    (.new (session.initializeContext behaviour).1.world)

/-! ## One tick -/

/-- The simulator agrees with the session, of whose current tick only `remaining` is still to be
run. -/
structure MirrorsAt (tick : Time) (remaining : List Task)
    (session : Session Task ModuleRef Params World) (sim : Simulator Time Task World) : Prop where
  tasks : Represents (Function.update session.ctx.tasksAt tick remaining) sim.pending sim.issued
  world : sim.world = session.world
  executed : sim.executed = session.executed

theorem tasksAt_scheduleAt (session : Session Task ModuleRef Params World) (timeTarget : Time)
    (callable : Task) :
    (session.scheduleAt timeTarget callable).ctx.tasksAt =
      Function.update session.ctx.tasksAt timeTarget
        (session.ctx.tasksAt timeTarget ++ [callable]) := by
  funext tick
  rw [Function.update_apply]
  exact Context.tasksAt_scheduleAt session.ctx timeTarget callable tick

section Tick

variable {behaviour : Behaviour Task ModuleRef Params World} {tick finalTime : Time}
  {remaining : List Task} {session : Session Task ModuleRef Params World}
  {sim : Simulator Time Task World}

/-- A request for a later tick is scheduled alike on both sides. -/
theorem MirrorsAt.request (mirrors : session.MirrorsAt tick remaining sim) (request : Request Task)
    (later : tick < request.target session.ctx.currentTime) :
    (session.request request).MirrorsAt tick remaining
      (sim.schedule (request.target session.ctx.currentTime, request.callable)) := by
  refine ⟨?_, ?_, ?_⟩
  · have scheduled := mirrors.tasks.schedule (request.target session.ctx.currentTime)
      request.callable
    rw [Function.update_of_ne later.ne', Function.update_comm later.ne] at scheduled
    rw [request_eq, tasksAt_scheduleAt]
    exact scheduled
  · rw [request_eq]
    exact mirrors.world
  · rw [request_eq]
    exact mirrors.executed

theorem MirrorsAt.requests (mirrors : session.MirrorsAt tick remaining sim)
    (requests : List (Request Task)) (now : session.ctx.currentTime = tick)
    (later : ∀ request ∈ requests, tick < request.target tick) :
    (requests.foldl Session.request session).MirrorsAt tick remaining
      ((requests.map fun request => (request.target tick, request.callable)).foldl
        Simulator.schedule sim) := by
  induction requests generalizing session sim with
  | nil => exact mirrors
  | cons first rest induction =>
      have here : tick < first.target session.ctx.currentTime := by
        rw [now]
        exact later first List.mem_cons_self
      have one := mirrors.request first here
      rw [now] at one
      refine induction one ?_ fun request member => later request (List.mem_cons_of_mem _ member)
      rw [request_eq]
      exact (Context.currentTime_scheduleAt _ _ _).trans now

/-- Calling the first remaining task of the current tick fires the least entry. -/
theorem MirrorsAt.callTask {task : Task} (mirrors : session.MirrorsAt tick (task :: remaining) sim)
    (later : ∀ request ∈ (behaviour.call task tick session.world).2, tick < request.target tick)
    (now : session.ctx.currentTime = tick)
    (least : ∀ lower < tick, session.ctx.tasksAt lower = []) :
    ∃ entry, IsNext sim.pending entry ∧ entry.tick = tick ∧
      (session.callTask behaviour tick task).MirrorsAt tick remaining
        (sim.fire behaviour.simulated entry) := by
  obtain ⟨number, next, fired⟩ := mirrors.tasks.exists_isNext (Function.update_self tick _ _)
    fun lower below => (Function.update_of_ne below.ne _ _).trans (least lower below)
  rw [Function.update_idem] at fired
  refine ⟨⟨tick, number, task⟩, next, rfl, ?_⟩
  rw [Simulator.fire, Behaviour.simulated, mirrors.world, mirrors.executed]
  exact MirrorsAt.requests ⟨fired, rfl, rfl⟩ _ now later

/-- Calling the remaining tasks of the current tick fires as many entries. -/
theorem MirrorsAt.callTasks (mirrors : session.MirrorsAt tick remaining sim)
    (asserted : behaviour.MeetsAssertion tick remaining session.world)
    (now : session.ctx.currentTime = tick)
    (least : ∀ lower < tick, session.ctx.tasksAt lower = []) (due : tick ≤ finalTime) :
    ∃ later, (remaining.foldl (Session.callTask behaviour tick) session).MirrorsAt tick [] later ∧
      ∀ final, RunTo behaviour.simulated finalTime later final →
        RunTo behaviour.simulated finalTime sim final := by
  induction remaining generalizing session sim with
  | nil => exact ⟨sim, mirrors, fun _ run => run⟩
  | cons task remaining induction =>
      obtain ⟨entry, next, rfl, one⟩ := mirrors.callTask asserted.1 now least
      have schedules := schedules_callTask now asserted.1
      have world : (session.callTask behaviour entry.tick task).world =
          (behaviour.call task entry.tick session.world).1 := world_requests _ _
      obtain ⟨later, all, runs⟩ := induction one (world ▸ asserted.2)
        (schedules.currentTime_eq.trans now)
        fun lower below => (schedules.tasksAt_eq below.not_gt).trans (least lower below)
      exact ⟨later, all, fun final run => .fire next due (runs final run)⟩

end Tick

/-! ## Whole runs -/

/-- The simulation relation, between the passes of a loop. -/
structure Refines (session : Session Task ModuleRef Params World)
    (sim : Simulator Time Task World) : Prop where
  running : session.ctx.state = .running
  consistent : session.Consistent
  timely : session.ctx.Timely
  tasks : Represents session.ctx.tasksAt sim.pending sim.issued
  world : sim.world = session.world
  executed : sim.executed = session.executed
  /-- Nothing is left but the last executed tick to stop at. -/
  clock : sim.pending = ∅ → session.ctx.currentTime = lastExecuted session.executed

namespace Refines

variable {behaviour : Behaviour Task ModuleRef Params World} {finalTime : Time}
  {session next final : Session Task ModuleRef Params World} {status : RunStatus}
  {sim : Simulator Time Task World}

theorem started (refines : session.Refines sim) : session.ctx.state ≠ .initialization := by
  simp [refines.running]

theorem pending_eq_empty (refines : session.Refines sim) :
    sim.pending = ∅ ↔ session.ctx.nextTickHeap.empty = true := by
  rw [refines.tasks.pending_eq_empty]
  constructor
  · intro vacant
    by_contra occupied
    exact refines.consistent.synced.tasksAt_nextTick_ne_nil refines.started
      (by simpa using occupied) (vacant _)
  · intro vacant tick
    by_contra filled
    obtain ⟨task, member⟩ := List.exists_mem_of_ne_nil _ filled
    have stored := Context.mem_stored.mpr member
    rw [refines.consistent.synced.stored_eq_zero refines.started vacant] at stored
    simp at stored

/-- A pass of the loop fires the entries of the head's tick. -/
theorem pass (refines : session.Refines sim)
    (asserted : behaviour.MeetsAssertion session.ctx.nextTick
      (session.ctx.tasksAt session.ctx.nextTick) session.world)
    (passes : session.loopBody behaviour finalTime = .inl next) :
    ∃ later, next.Refines later ∧ ∀ final, RunTo behaviour.simulated finalTime later final →
      RunTo behaviour.simulated finalTime sim final := by
  have consistent := refines.consistent.pass refines.started asserted passes
  have running := (state_pass passes).trans refines.running
  obtain ⟨timely, clock⟩ := timely_pass refines.timely refines.consistent.synced.valid
    refines.started asserted passes
  obtain ⟨occupied, due, rfl⟩ := loopBody_inl passes
  have least : ∀ lower < session.ctx.nextTick, session.ctx.tasksAt lower = [] := by
    intro lower below
    by_contra filled
    exact below.not_ge (refines.timely.nextTick_le refines.consistent.synced refines.started filled)
  have start : MirrorsAt session.ctx.nextTick (session.ctx.tasksAt session.ctx.nextTick)
      { session with ctx := { session.ctx with currentTime := session.ctx.nextTick } } sim :=
    ⟨(Function.update_eq_self session.ctx.nextTick session.ctx.tasksAt).symm ▸ refines.tasks,
      refines.world, refines.executed⟩
  obtain ⟨later, mirrors, runs⟩ := start.callTasks asserted rfl least due
  refine ⟨later, ⟨running, consistent, timely, ?_, mirrors.world, mirrors.executed, fun _ => ?_⟩,
    runs⟩
  · have queues : Context.tasksAt (Context.finishTick
        (session.runTick behaviour session.ctx.nextTick).ctx session.ctx.nextTick) =
        Function.update (session.runTick behaviour session.ctx.nextTick).ctx.tasksAt
          session.ctx.nextTick [] := by
      funext tick
      rw [Function.update_apply]
      exact Context.tasksAt_finishTick _ _ _
    exact queues ▸ mirrors.tasks
  · have filled := refines.consistent.synced.tasksAt_nextTick_ne_nil refines.started occupied
    have executed : (session.runTick behaviour session.ctx.nextTick).executed =
        session.executed ++ (session.ctx.tasksAt session.ctx.nextTick).map
          (Prod.mk session.ctx.nextTick) := executed_runTick behaviour _ session
    rw [clock, executed, lastExecuted_append _ _ filled]

/-- What a loop returns is what the reference shows, and the next run can go on from there. -/
theorem returns (refines : session.Refines sim)
    (asserted : session.LoopAsserted behaviour finalTime)
    (returned : Loop.Returns (loopBody behaviour finalTime) session (final, status)) :
    ∃ later, ReferenceRun behaviour sim (finalTime,
        ⟨final.executed, status, final.ctx.state, final.ctx.currentTime⟩) later ∧
      final.ctx.state ≠ .initialization ∧
      Refines { final with ctx := { final.ctx with state := .running } } later := by
  generalize outcome : (final, status) = result at returned
  induction returned using Loop.Returns.induction generalizing sim with
  | done session result returns =>
      subst outcome
      rcases loopBody_inr returns with ⟨vacant, rfl, rfl⟩ | ⟨occupied, beyond, rfl, rfl⟩
      · have drained := refines.pending_eq_empty.mpr vacant
        refine ⟨sim, ?_, by simp, ?_⟩
        · have run : RunTo behaviour.simulated finalTime sim sim :=
            .done fun entry member => by simp [drained] at member
          have shown := ReferenceRun.stopped run drained
          rw [refines.executed, ← refines.clock drained] at shown
          exact shown
        · rw [← refines.running]
          exact refines
      · have left : sim.pending ≠ ∅ := by
          rw [Ne, refines.pending_eq_empty, occupied]
          exact Bool.false_ne_true
        refine ⟨sim, ?_, refines.started, ?_⟩
        · have run : RunTo behaviour.simulated finalTime sim sim :=
            .done fun entry member => beyond.trans_le (refines.timely.nextTick_le
              refines.consistent.synced refines.started
              ((refines.tasks.exists_mem_iff _).mp ⟨entry, member, rfl⟩))
          have shown := ReferenceRun.eventsInQueue run left
          rw [refines.executed] at shown
          rw [refines.running]
          exact shown
        · exact ⟨rfl, refines.consistent.withState refines.started (by decide) finalTime,
            ⟨refines.timely.ordered, fun _ => beyond.le, nofun⟩, refines.tasks, refines.world,
            refines.executed, fun drained => (left drained).elim⟩
  | again session next result passes _ induction =>
      obtain ⟨later, still, runs⟩ := refines.pass (asserted.here passes) passes
      obtain ⟨last, shown, rest⟩ := induction still (asserted.rest passes) outcome
      exact ⟨last, shown.of_runs runs, rest⟩

/-- The simulator tells whether a run leaves the clock at its final time: something is pending, and
what is not fired by then is still pending, or the last entry is fired at that time. -/
theorem lastsUntil_iff (refines : session.Refines sim)
    (asserted : session.LoopAsserted behaviour finalTime) :
    session.LastsUntil behaviour finalTime ↔
      sim.pending ≠ ∅ ∧ ∃ later, RunTo behaviour.simulated finalTime sim later ∧
        (later.pending ≠ ∅ ∨ lastExecuted later.executed = finalTime) := by
  obtain ⟨⟨final, status⟩, returned⟩ := exists_returns asserted refines.consistent.synced.valid
  obtain ⟨later, shown, -⟩ := refines.returns asserted returned
  rw [Ne, refines.pending_eq_empty]
  rcases currentTime_of_returns returned with ⟨drained, -⟩ | ⟨occupied, decided⟩
  · exact iff_of_false (not_lastsUntil_of_drained drained) fun pending => pending.1 drained
  rw [← decided, occupied, and_iff_right Bool.false_ne_true]
  generalize observed : Observation.mk final.executed status final.ctx.state
    final.ctx.currentTime = observation at shown
  cases shown with
  | eventsInQueue run left =>
      have clock : final.ctx.currentTime = finalTime := congrArg Observation.currentTime observed
      exact iff_of_true clock ⟨later, run, .inl left⟩
  | stopped run drained =>
      have clock : final.ctx.currentTime = lastExecuted later.executed :=
        congrArg Observation.currentTime observed
      rw [clock]
      constructor
      · exact fun ends => ⟨later, run, .inr ends⟩
      · rintro ⟨other, another, left | ends⟩
        · exact (left (another.unique run ▸ drained)).elim
        · exact run.unique another ▸ ends

end Refines

/-! ## Before the first run -/

/-- A session on which nothing has run: its task map represents the recorded schedule calls. -/
structure Prepared (session : Session Task ModuleRef Params World) : Prop where
  consistent : session.Consistent
  timely : session.ctx.Timely
  tasks : ∀ world : World, Represents session.ctx.tasksAt
    (session.scheduled.foldl Simulator.schedule (.new world)).pending
    (session.scheduled.foldl Simulator.schedule (.new world)).issued
  executed : session.executed = []

theorem prepared_new (world : World) :
    (new world : Session Task ModuleRef Params World).Prepared where
  consistent := consistent_new world
  timely := Context.timely_new
  tasks _ := .empty
  executed := rfl

theorem Schedules.represents {allowed : Time → Prop}
    {before after : Session Task ModuleRef Params World}
    (schedules : Schedules allowed before after) {world : World}
    (initially : Represents before.ctx.tasksAt
      (before.scheduled.foldl Simulator.schedule (.new world)).pending
      (before.scheduled.foldl Simulator.schedule (.new world)).issued) :
    Represents after.ctx.tasksAt
      (after.scheduled.foldl Simulator.schedule (.new world)).pending
      (after.scheduled.foldl Simulator.schedule (.new world)).issued := by
  induction schedules with
  | refl => exact initially
  | frame _ _ _ induction => exact induction
  | @scheduleAt after timeTarget callable _ _ induction =>
      have scheduled := induction.schedule timeTarget callable
      rw [tasksAt_scheduleAt]
      change Represents _ (List.foldl Simulator.schedule _
        (after.scheduled ++ [(timeTarget, callable)])).pending
        (List.foldl Simulator.schedule _ (after.scheduled ++ [(timeTarget, callable)])).issued
      rw [List.foldl_append]
      exact scheduled

theorem Prepared.request {session : Session Task ModuleRef Params World}
    (prepared : session.Prepared) (waiting : session.ctx.state = .initialization)
    (request : Request Task) : (session.request request).Prepared := by
  have one : Schedules (fun _ => True) session (session.request request) := by
    rw [request_eq]
    exact .scheduleAt _ .refl trivial
  refine ⟨prepared.consistent.request request,
    one.timely_of_waiting prepared.timely prepared.consistent.synced.valid waiting,
    fun world => one.represents (prepared.tasks world), ?_⟩
  rw [request_eq]
  exact prepared.executed

/-- A successful initialization leaves the session in step with the reference. -/
theorem Prepared.refines {behaviour : Behaviour Task ModuleRef Params World}
    {session : Session Task ModuleRef Params World} (prepared : session.Prepared)
    (waiting : session.ctx.state = .initialization)
    (success : (session.initializeContext behaviour).2.success = true) :
    (session.initializeContext behaviour).1.Refines (session.reference behaviour) := by
  obtain ⟨schedules, kept⟩ :=
    schedules_initializeModules behaviour session.ctx.modules (session, .ok none)
  have chronological : session.Chronological :=
    ⟨prepared.timely, by simp [prepared.executed], by simp [prepared.executed]⟩
  have executed : (session.initializeContext behaviour).1.executed = [] :=
    kept.trans prepared.executed
  refine ⟨?_, prepared.consistent.initializeContext waiting behaviour,
    (chronological.initializeContext prepared.consistent waiting behaviour).timely,
    schedules.represents (prepared.tasks _), ?_, ?_, fun _ => ?_⟩
  · rw [state_initializeContext, if_pos success]
  · simp [reference, Simulator.new]
  · simp [reference, Simulator.new, executed]
  · rw [currentTime_initializeContext, prepared.timely.origin waiting, executed]
    rfl

end Session

namespace Config

/-- As long as the initialization phase has not been left, nothing has run. -/
def Unstarted (config : Config Task ModuleRef Params World) : Prop :=
  config.session.ctx.state = .initialization →
    config.session.Prepared ∧ config.finalTime = none

theorem unstarted_step [DecidableEq ModuleRef] {behaviour : Behaviour Task ModuleRef Params World}
    {before after : Config Task ModuleRef Params World}
    {event : Event Task ModuleRef Params} (unstarted : before.Unstarted)
    (step : Step behaviour before event after) : after.Unstarted := by
  intro waiting
  cases step with
  | request session request =>
      rw [Session.request_eq] at waiting
      have before := (Context.state_scheduleAt _ _ _).symm.trans waiting
      exact ⟨(unstarted before).1.request before request, rfl⟩
  | add | remove =>
      obtain ⟨⟨consistent, timely, tasks, executed⟩, -⟩ := unstarted waiting
      exact ⟨⟨consistent.withModules _, ⟨timely.ordered, timely.ahead, timely.origin⟩, tasks,
        executed⟩, rfl⟩
  | initializes session => exact (Session.started_initializeContext behaviour session waiting).elim
  | @runFails session failed status finalTime begins =>
      obtain ⟨-, -, result⟩ := Session.beginRun_error begins
      obtain rfl := (Prod.mk.inj result).1
      exact (Session.started_initializeContext behaviour session waiting).elim
  | runBegins finalTime begins =>
      rw [Session.state_of_beginRun begins] at waiting
      cases waiting
  | pass passes =>
      have still := Session.state_pass passes
      cases (unstarted (still.symm.trans waiting)).2
  | runReturns returns =>
      rcases Session.loopBody_inr returns with ⟨-, -, rfl⟩ | ⟨-, -, -, rfl⟩
      · cases waiting
      · cases (unstarted waiting).2

theorem unstarted_of_history [DecidableEq ModuleRef]
    {behaviour : Behaviour Task ModuleRef Params World} {world : World}
    {config : Config Task ModuleRef Params World}
    {steps : List (Transition (Config Task ModuleRef Params World)
      (Event Task ModuleRef Params))}
    (history : History behaviour world steps config) : config.Unstarted :=
  history.invariant_of_step (fun _ => ⟨Session.prepared_new world, rfl⟩)
    fun _ _ _ unstarted step => unstarted_step unstarted step

end Config

/-! ## The refinement -/

namespace Session

variable {behaviour : Behaviour Task ModuleRef Params World}
  {session next : Session Task ModuleRef Params World} {sim : Simulator Time Task World}

/-- The simulation relation, between two calls of `run_at`. -/
def Follows (behaviour : Behaviour Task ModuleRef Params World)
    (session : Session Task ModuleRef Params World) (sim : Simulator Time Task World) : Prop :=
  ∃ begun, session.beginRun behaviour = .ok begun ∧ begun.Refines sim

theorem Follows.forth {finalTime : Time} {shown : Observation Task}
    (asserted : session.RunAsserted behaviour finalTime) (follows : session.Follows behaviour sim)
    (shows : session.RunAtShows behaviour (finalTime, shown) next) :
    ∃ later, ReferenceRun behaviour sim (finalTime, shown) later ∧
      next.Follows behaviour later := by
  obtain ⟨begun, begins, refines⟩ := follows
  obtain ⟨status, runs, rfl⟩ := shows
  obtain ⟨_, _, outcome, returned⟩ := (runs_iff_of_begun begins).mp runs
  cases outcome
  obtain ⟨later, shown, started, still⟩ := refines.returns (asserted begun begins) returned
  exact ⟨later, shown, _, beginRun_of_started behaviour started, still⟩

/-- A call of `run_at` whose tasks meet the assertion returns and shows something. -/
theorem Follows.exists_shows {finalTime : Time} (asserted : session.RunAsserted behaviour finalTime)
    (follows : session.Follows behaviour sim) :
    ∃ shown next, session.RunAtShows behaviour (finalTime, shown) next := by
  obtain ⟨begun, begins, refines⟩ := follows
  obtain ⟨⟨final, status⟩, returned⟩ :=
    exists_returns (asserted begun begins) refines.consistent.synced.valid
  exact ⟨_, final, status, (runs_iff_of_begun begins).mpr ⟨final, status, rfl, returned⟩, rfl⟩

theorem Follows.back {finalTime : Time} {shown : Observation Task}
    {later : Simulator Time Task World} (asserted : session.RunAsserted behaviour finalTime)
    (follows : session.Follows behaviour sim)
    (run : ReferenceRun behaviour sim (finalTime, shown) later) :
    ∃ next, session.RunAtShows behaviour (finalTime, shown) next ∧
      next.Follows behaviour later := by
  obtain ⟨shown', next, shows⟩ := follows.exists_shows asserted
  obtain ⟨later', run', still⟩ := follows.forth asserted shows
  obtain ⟨rfl, rfl⟩ := run.unique run'
  exact ⟨next, shows, still⟩

/-- The assertion for the calls after a first one. -/
theorem runsAsserted_next {finalTime : Time} {times : List Time} {shown : Observation Task}
    (asserted : session.RunsAsserted behaviour (finalTime :: times))
    (shows : session.RunAtShows behaviour (finalTime, shown) next) :
    next.RunsAsserted behaviour times := by
  obtain ⟨status, runs, -⟩ := shows
  exact asserted.2 next status runs

/-- A sequence of final times with which the assertion is met can be run through. -/
theorem Follows.exists_traces {times : List Time} (asserted : session.RunsAsserted behaviour times)
    (follows : session.Follows behaviour sim) :
    ∃ calls, calls.map Prod.fst = times ∧ Traces (RunAtShows behaviour) session calls := by
  induction times generalizing session sim with
  | nil => exact ⟨[], rfl, trivial⟩
  | cons finalTime times induction =>
      obtain ⟨shown, next, shows⟩ := follows.exists_shows asserted.1
      obtain ⟨later, -, still⟩ := follows.forth asserted.1 shows
      obtain ⟨calls, rfl, traces⟩ := induction (runsAsserted_next asserted shows) still
      exact ⟨(finalTime, shown) :: calls, rfl, next, shows, traces⟩

/-- The same calls show the same on both sides. -/
theorem Follows.traces_iff {calls : List (Time × Observation Task)}
    (asserted : session.RunsAsserted behaviour (calls.map Prod.fst))
    (follows : session.Follows behaviour sim) :
    Traces (RunAtShows behaviour) session calls ↔ Traces (ReferenceRun behaviour) sim calls := by
  have related : session.RunsAsserted behaviour (calls.map Prod.fst) ∧
      session.Follows behaviour sim := ⟨asserted, follows⟩
  refine Traces.iff_of_bisimulation
    (R := fun calls session sim => session.RunsAsserted behaviour (calls.map Prod.fst) ∧
      session.Follows behaviour sim) ?_ ?_ related
  · rintro session ⟨finalTime, shown⟩ calls next sim shows ⟨asserted, follows⟩
    obtain ⟨later, run, still⟩ := follows.forth asserted.1 shows
    exact ⟨later, run, runsAsserted_next asserted shows, still⟩
  · rintro sim ⟨finalTime, shown⟩ calls later session run ⟨asserted, follows⟩
    obtain ⟨next, shows, still⟩ := follows.back asserted.1 run
    exact ⟨next, shows, runsAsserted_next asserted shows, still⟩

/-- The scheduler refines the reference simulator.  Take any history that schedules in the
initialization phase only, let initialization succeed, by an explicit call or in the first run, and
take any sequence of final times such that the tasks called by these runs schedule for later ticks.
Then what these calls of `run_at` show is exactly what the simulator shows that is started with the
scheduled events, and all of them return. -/
theorem run_at_refines_reference [DecidableEq ModuleRef]
    {world : World} {steps : List (Transition (Config Task ModuleRef Params World)
      (Event Task ModuleRef Params))}
    (history : History behaviour world steps ⟨session, none⟩)
    (waiting : session.ctx.state = .initialization)
    (success : (session.initializeContext behaviour).2.success = true)
    {start : Session Task ModuleRef Params World}
    (starts : start = session ∨ start = (session.initializeContext behaviour).1)
    {times : List Time} (asserted : start.RunsAsserted behaviour times) :
    (∀ calls, calls.map Prod.fst = times →
        (Traces (RunAtShows behaviour) start calls ↔
          Traces (ReferenceRun behaviour) (session.reference behaviour) calls)) ∧
      ∃ calls, calls.map Prod.fst = times ∧ Traces (RunAtShows behaviour) start calls := by
  have prepared := (Config.unstarted_of_history history waiting).1
  have refines := prepared.refines waiting success
  have follows : start.Follows behaviour (session.reference behaviour) := by
    refine ⟨_, ?_, refines⟩
    rcases starts with rfl | rfl
    · exact beginRun_of_waiting waiting success
    · rw [beginRun_of_started behaviour refines.started, ← refines.running]
  refine ⟨?_, follows.exists_traces asserted⟩
  rintro calls rfl
  exact follows.traces_iff asserted

/-- Two chains of tasks that meet at tick 10, with a run that ends between them and one after
them. -/
theorem run_at_refines_reference_countdown :
    ∃ session : Session ℕ Unit Unit Unit, session.scheduled = [(⟨10⟩, 1), (⟨8⟩, 3)] ∧
      (∀ calls, calls.map Prod.fst = [⟨9⟩, ⟨20⟩] →
        (Traces (RunAtShows Behaviour.countdown) session calls ↔
          Traces (ReferenceRun Behaviour.countdown) (session.reference Behaviour.countdown)
            calls)) ∧
      ∃ calls, calls.map Prod.fst = [⟨9⟩, ⟨20⟩] ∧
        Traces (RunAtShows Behaviour.countdown) session calls := by
  obtain ⟨steps, ⟨session, control⟩, history, outside, scheduled, waiting, success⟩ :=
    Config.exists_path_of_execute Behaviour.countdown
      ⟨Session.new (), none⟩
      [.request (.scheduleAt ⟨10⟩ 1), .request (.scheduleAt ⟨8⟩ 3), .add () ()]
      (fun result => result.2.finalTime = none ∧
        result.2.session.scheduled = [(⟨10⟩, 1), (⟨8⟩, 3)] ∧
        result.2.session.ctx.state = .initialization ∧
        (result.2.session.initializeContext Behaviour.countdown).2.success = true) (by decide)
  cases outside
  have finite : ∀ finalTime ∈ ([⟨9⟩, ⟨20⟩] : List Time), finalTime < finalTime + ⟨1⟩ := by decide
  have asserted : session.RunsAsserted Behaviour.countdown [⟨9⟩, ⟨20⟩] := runsAsserted_of_forall
    (fun finalTime listed => runAsserted_countdown (finite finalTime listed)) session
  exact ⟨session, scheduled, run_at_refines_reference history waiting success (.inl rfl) asserted⟩

end Session
end Simo
