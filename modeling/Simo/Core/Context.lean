import Mathlib.Data.List.AList
import Mathlib.Data.List.Sort
import Simo.Core.InitializationStatus
import Simo.Core.RadixHeap
import Simo.Core.Time
import Simo.Support.Transition

/-!
# The simulation context

A `Context` holds the clock, the tasks scheduled for each tick, the heap of ticks and the modules.
What its methods call back into (tasks and modules) is a `Behaviour` acting on an arbitrary state
of the rest of the program, the world.  A `Session` is a context together with the world and two
records that no function reads: every accepted schedule call and every task call, oldest first.

`Session.runAt` executes `run_at` with a bound on the passes of its loop.  `Step` is the same
program with control visible between the passes, so that histories show every state that a caller
or an observer between two passes can see.
-/

namespace Simo

/-- Phases of a context. -/
inductive State where
  | initialization
  | portConnection
  | running
  | stopped
  | error
deriving DecidableEq, Repr

/-- What a completed run reports. -/
inductive RunStatus where
  | eventsInQueue
  | stopped
deriving DecidableEq, Repr

/-- The two ways of scheduling a callable. -/
inductive Request (Task : Type*) where
  | scheduleAt (timeTarget : Time) (callable : Task)
  | scheduleIn (timeDelta : Time) (callable : Task)
deriving DecidableEq

namespace Request

/-- The tick a request names when it is made at `now`. -/
def target {Task : Type*} (now : Time) : Request Task → Time
  | .scheduleAt timeTarget _ => timeTarget
  | .scheduleIn timeDelta _ => now + timeDelta

def callable {Task : Type*} : Request Task → Task
  | .scheduleAt _ callable => callable
  | .scheduleIn _ callable => callable

end Request

/-- The scheduler's own state. -/
structure Context (Task ModuleRef Params : Type*) where
  /-- Current phase. -/
  state : State
  /-- The clock. -/
  currentTime : Time
  /-- Ticks that the loop of `run_at` still has to visit. -/
  nextTickHeap : RadixHeap
  /-- Callables by tick, in scheduling order. -/
  scheduledTasks : AList fun _ : Time => List Task
  /-- Registered modules with their parameters. -/
  modules : List (ModuleRef × Params)

namespace Context

variable {Task ModuleRef Params : Type*}

/-- A freshly constructed context. -/
def new : Context Task ModuleRef Params where
  state := .initialization
  currentTime := .zero
  nextTickHeap := .new
  scheduledTasks := ∅
  modules := []

/-- Callables stored for a tick; an absent tick has none. -/
def tasksAt (ctx : Context Task ModuleRef Params) (tick : Time) : List Task :=
  (ctx.scheduledTasks.lookup tick).getD []

/-- The assertion of `schedule_at`. -/
def MayScheduleAt (ctx : Context Task ModuleRef Params) (timeTarget : Time) : Prop :=
  ctx.state = .initialization ∨ ctx.currentTime < timeTarget

instance (ctx : Context Task ModuleRef Params) (timeTarget : Time) :
    Decidable (ctx.MayScheduleAt timeTarget) :=
  inferInstanceAs (Decidable (_ ∨ _))

def scheduleAt (ctx : Context Task ModuleRef Params) (timeTarget : Time) (callable : Task) :
    Context Task ModuleRef Params :=
  let tasks := ctx.tasksAt timeTarget ++ [callable]
  let ctx := { ctx with scheduledTasks := ctx.scheduledTasks.insert timeTarget tasks }
  if ctx.state = .initialization then ctx
  else if tasks.length = 1 then
    { ctx with nextTickHeap := ctx.nextTickHeap.push timeTarget.picoseconds }
  else ctx

/-- Add a module with its parameters. -/
def add (ctx : Context Task ModuleRef Params) (module : ModuleRef) (params : Params) :
    Context Task ModuleRef Params :=
  { ctx with modules := ctx.modules ++ [(module, params)] }

/-- Remove every occurrence of a module. -/
def remove [DecidableEq ModuleRef] (ctx : Context Task ModuleRef Params) (module : ModuleRef) :
    Context Task ModuleRef Params :=
  { ctx with modules := ctx.modules.filter fun entry => entry.1 ≠ module }

/-- Push the ticks that already have tasks, in increasing order. -/
def pushTimes (ctx : Context Task ModuleRef Params) : Context Task ModuleRef Params :=
  let allTimes := ctx.scheduledTasks.keys.insertionSort (· ≤ ·)
  { ctx with
    nextTickHeap := allTimes.foldl (fun heap t => heap.push t.picoseconds) ctx.nextTickHeap }

/-- Head of the heap of ticks, as a time.  Read only while the heap is not empty. -/
def nextTick (ctx : Context Task ModuleRef Params) : Time := ⟨ctx.nextTickHeap.peek⟩

/-- Drop the tasks of a tick that has been run, and its entry in the heap. -/
def finishTick (ctx : Context Task ModuleRef Params) (tick : Time) :
    Context Task ModuleRef Params :=
  { ctx with
    scheduledTasks := ctx.scheduledTasks.insert tick []
    nextTickHeap := ctx.nextTickHeap.pop }

end Context

/-- The code that a context calls back into, as a function on the rest of the program. -/
structure Behaviour (Task ModuleRef Params World : Type*) where
  /-- Calling a task with a tick: what it does to the world and schedules, in order. -/
  call : Task → Time → World → World × List (Request Task)
  /-- Initializing a module: what it does to the world, schedules, and reports. -/
  initializeModule : ModuleRef → Params → Context Task ModuleRef Params → World →
    World × List (Request Task) × InitializationStatus ModuleRef

namespace Behaviour

variable {Task ModuleRef Params World : Type*}

/-- Calling `tasks` in order at `tick` meets the assertion of `schedule_at` throughout. -/
def MeetsAssertion (behaviour : Behaviour Task ModuleRef Params World) (tick : Time) :
    List Task → World → Prop
  | [], _ => True
  | task :: tasks, world =>
      (∀ request ∈ (behaviour.call task tick world).2, tick < request.target tick) ∧
        behaviour.MeetsAssertion tick tasks (behaviour.call task tick world).1

/-- Where every call of a task at the tick schedules for later ticks only, the assertion is met. -/
theorem meetsAssertion_of_later {behaviour : Behaviour Task ModuleRef Params World} {tick : Time}
    (later : ∀ task world, ∀ request ∈ (behaviour.call task tick world).2,
      tick < request.target tick) (tasks : List Task) (world : World) :
    behaviour.MeetsAssertion tick tasks world := by
  induction tasks generalizing world with
  | nil => trivial
  | cons task tasks induction => exact ⟨later task world, induction _⟩

instance decidableMeetsAssertion (behaviour : Behaviour Task ModuleRef Params World) (tick : Time) :
    ∀ (tasks : List Task) (world : World), Decidable (behaviour.MeetsAssertion tick tasks world)
  | [], _ => .isTrue trivial
  | task :: tasks, world =>
      have := behaviour.decidableMeetsAssertion tick tasks (behaviour.call task tick world).1
      inferInstanceAs (Decidable (_ ∧ _))

/-- Tasks that do nothing and modules whose initialization succeeds. -/
def quiet : Behaviour Task ModuleRef Params World where
  call _ _ world := (world, [])
  initializeModule module _ _ world := (world, [], .ok (some module))

/-- Task `n + 1` schedules task `n` for the next tick, if there is one. -/
def countdown : Behaviour ℕ Unit Unit Unit where
  call
    | 0, _, world => (world, [])
    | n + 1, _, world => (world, [.scheduleIn ⟨1⟩ n])
  initializeModule module _ _ world := (world, [], .ok (some module))

theorem later_countdown {tick : Time} (next : tick < tick + ⟨1⟩) (task : ℕ) (world : Unit) :
    ∀ request ∈ (countdown.call task tick world).2, tick < request.target tick := by
  intro request member
  cases task with
  | zero => exact (List.not_mem_nil member).elim
  | succ n =>
      rw [List.mem_singleton.mp member]
      exact next

end Behaviour

/-- A context, the rest of the program, and the record of what has been scheduled and run. -/
structure Session (Task ModuleRef Params World : Type*) where
  /-- The context. -/
  ctx : Context Task ModuleRef Params
  /-- The rest of the program. -/
  world : World
  /-- Every schedule call so far: the tick it named and the callable. -/
  scheduled : List (Time × Task)
  /-- Every task call so far: the argument and the callable. -/
  executed : List (Time × Task)

namespace Session

variable {Task ModuleRef Params World : Type*}

/-- A fresh context in a given world. -/
def new (world : World) : Session Task ModuleRef Params World where
  ctx := .new
  world := world
  scheduled := []
  executed := []

def scheduleAt (session : Session Task ModuleRef Params World) (timeTarget : Time)
    (callable : Task) : Session Task ModuleRef Params World :=
  { session with
    ctx := session.ctx.scheduleAt timeTarget callable
    scheduled := session.scheduled ++ [(timeTarget, callable)] }

def scheduleIn (session : Session Task ModuleRef Params World) (timeDelta : Time)
    (callable : Task) : Session Task ModuleRef Params World :=
  session.scheduleAt (session.ctx.currentTime + timeDelta) callable

/-- Carry out one request. -/
def request (session : Session Task ModuleRef Params World) :
    Request Task → Session Task ModuleRef Params World
  | .scheduleAt timeTarget callable => session.scheduleAt timeTarget callable
  | .scheduleIn timeDelta callable => session.scheduleIn timeDelta callable

/-- Initialize one module and collect its status if it failed. -/
def initializeModule (behaviour : Behaviour Task ModuleRef Params World)
    (progress : Session Task ModuleRef Params World × InitializationStatus ModuleRef)
    (entry : ModuleRef × Params) :
    Session Task ModuleRef Params World × InitializationStatus ModuleRef :=
  let (session, status) := progress
  let (world, requests, moduleStatus) :=
    behaviour.initializeModule entry.1 entry.2 session.ctx session.world
  let session := requests.foldl request { session with world := world }
  (session, if moduleStatus.success then status else status.emplaceSubError moduleStatus)

/-- `Context::initialize`: the modules in the order they were added, then the ticks that have
tasks. -/
def initializeContext (behaviour : Behaviour Task ModuleRef Params World)
    (session : Session Task ModuleRef Params World) :
    Session Task ModuleRef Params World × InitializationStatus ModuleRef :=
  let (session, status) :=
    session.ctx.modules.foldl (initializeModule behaviour) (session, .ok none)
  let ctx := session.ctx.pushTimes
  ({ session with ctx := { ctx with state := if status.success then .running else .error } },
    status)

/-- Call one task of the current tick. -/
def callTask (behaviour : Behaviour Task ModuleRef Params World) (tick : Time)
    (session : Session Task ModuleRef Params World) (task : Task) :
    Session Task ModuleRef Params World :=
  let (world, requests) := behaviour.call task tick session.world
  requests.foldl request
    { session with world := world, executed := session.executed ++ [(tick, task)] }

/-- Advance the clock to the next tick and call the tasks stored for it. -/
def runTick (behaviour : Behaviour Task ModuleRef Params World)
    (session : Session Task ModuleRef Params World) (nextTick : Time) :
    Session Task ModuleRef Params World :=
  (session.ctx.tasksAt nextTick).foldl (callTask behaviour nextTick)
    { session with ctx := { session.ctx with currentTime := nextTick } }

/-- One pass of the loop of `run_at`: go on with a new state, or return. -/
def loopBody (behaviour : Behaviour Task ModuleRef Params World) (finalTime : Time)
    (session : Session Task ModuleRef Params World) :
    Session Task ModuleRef Params World ⊕ (Session Task ModuleRef Params World × RunStatus) :=
  if session.ctx.nextTickHeap.empty then
    .inr ({ session with ctx := { session.ctx with state := .stopped } }, .stopped)
  else
    let nextTick := session.ctx.nextTick
    if finalTime < nextTick then
      .inr ({ session with ctx := { session.ctx with currentTime := finalTime } }, .eventsInQueue)
    else
      let ran := session.runTick behaviour nextTick
      .inl { ran with ctx := ran.ctx.finishTick nextTick }

/-- What `run_at` does before its loop: initialize if that is still due, and start running. -/
def beginRun (behaviour : Behaviour Task ModuleRef Params World)
    (session : Session Task ModuleRef Params World) :
    Except (Session Task ModuleRef Params World × InitializationStatus ModuleRef)
      (Session Task ModuleRef Params World) :=
  if session.ctx.state = .initialization then
    let (session, status) := session.initializeContext behaviour
    if status.success then .ok { session with ctx := { session.ctx with state := .running } }
    else .error (session, status)
  else .ok { session with ctx := { session.ctx with state := .running } }

/-- `run_at`, with at most `fuel` passes of its loop. -/
def runAt (behaviour : Behaviour Task ModuleRef Params World) (fuel : ℕ) (finalTime : Time)
    (session : Session Task ModuleRef Params World) :
    Option (Session Task ModuleRef Params World ×
      Except (InitializationStatus ModuleRef) RunStatus) :=
  match session.beginRun behaviour with
  | .error (session, status) => some (session, .error status)
  | .ok session =>
      (Loop.run (loopBody behaviour finalTime) fuel session).map fun (session, status) =>
        (session, .ok status)

/-- The assertion of `schedule_at` for the tasks that every pass of the loop of `run_at` calls. -/
def LoopAsserted (behaviour : Behaviour Task ModuleRef Params World) (finalTime : Time) :
    Session Task ModuleRef Params World → Prop :=
  Loop.Obeys (loopBody behaviour finalTime) fun session =>
    behaviour.MeetsAssertion session.ctx.nextTick (session.ctx.tasksAt session.ctx.nextTick)
      session.world

/-- The assertion of `schedule_at` for the tasks that a call of `run_at` calls. -/
def RunAsserted (behaviour : Behaviour Task ModuleRef Params World) (finalTime : Time)
    (session : Session Task ModuleRef Params World) : Prop :=
  ∀ begun, session.beginRun behaviour = .ok begun → begun.LoopAsserted behaviour finalTime

/-- `run` is `run_at` at a distance from the current time. -/
def run (behaviour : Behaviour Task ModuleRef Params World) (fuel : ℕ) (timeDelta : Time)
    (session : Session Task ModuleRef Params World) :
    Option (Session Task ModuleRef Params World ×
      Except (InitializationStatus ModuleRef) RunStatus) :=
  session.runAt behaviour fuel (session.ctx.currentTime + timeDelta)

end Session

/-- A session together with the call to `run_at` that is in progress, if any. -/
structure Config (Task ModuleRef Params World : Type*) where
  /-- The session. -/
  session : Session Task ModuleRef Params World
  /-- Final time of the run in progress. -/
  finalTime : Option Time

/-- What a step of a history is. -/
inductive Event (Task ModuleRef Params : Type*) where
  /-- A schedule call made outside tasks and modules. -/
  | request (request : Request Task)
  | add (module : ModuleRef) (params : Params)
  | remove (module : ModuleRef)
  /-- An explicit call of `Context::initialize` that returned `status`. -/
  | initializes (status : InitializationStatus ModuleRef)
  /-- A call of `run_at` that returned the failure of its own initialization. -/
  | runFails (finalTime : Time) (status : InitializationStatus ModuleRef)
  /-- A call of `run_at` that reaches its loop; `run` is `run_at` at a distance. -/
  | runBegins (finalTime : Time)
  /-- A pass of the loop that goes on. -/
  | pass
  /-- A pass of the loop that returns. -/
  | runReturns (status : RunStatus)

/-- One step of a program that uses a context. -/
inductive Step {Task ModuleRef Params World : Type*} [DecidableEq ModuleRef]
    (behaviour : Behaviour Task ModuleRef Params World) :
    Config Task ModuleRef Params World → Event Task ModuleRef Params →
      Config Task ModuleRef Params World → Prop
  | request (session : Session Task ModuleRef Params World) (request : Request Task) :
      Step behaviour ⟨session, none⟩ (.request request) ⟨session.request request, none⟩
  | add (session : Session Task ModuleRef Params World) (module : ModuleRef) (params : Params) :
      Step behaviour ⟨session, none⟩ (.add module params)
        ⟨{ session with ctx := session.ctx.add module params }, none⟩
  | remove (session : Session Task ModuleRef Params World) (module : ModuleRef) :
      Step behaviour ⟨session, none⟩ (.remove module)
        ⟨{ session with ctx := session.ctx.remove module }, none⟩
  | initializes (session : Session Task ModuleRef Params World) :
      Step behaviour ⟨session, none⟩ (.initializes (session.initializeContext behaviour).2)
        ⟨(session.initializeContext behaviour).1, none⟩
  | runFails {session failed : Session Task ModuleRef Params World}
      {status : InitializationStatus ModuleRef} (finalTime : Time)
      (begins : session.beginRun behaviour = .error (failed, status)) :
      Step behaviour ⟨session, none⟩ (.runFails finalTime status) ⟨failed, none⟩
  | runBegins {session begun : Session Task ModuleRef Params World} (finalTime : Time)
      (begins : session.beginRun behaviour = .ok begun) :
      Step behaviour ⟨session, none⟩ (.runBegins finalTime) ⟨begun, some finalTime⟩
  | pass {session next : Session Task ModuleRef Params World} {finalTime : Time}
      (passes : session.loopBody behaviour finalTime = .inl next) :
      Step behaviour ⟨session, some finalTime⟩ .pass ⟨next, some finalTime⟩
  | runReturns {session final : Session Task ModuleRef Params World} {finalTime : Time}
      {status : RunStatus}
      (returns : session.loopBody behaviour finalTime = .inr (final, status)) :
      Step behaviour ⟨session, some finalTime⟩ (.runReturns status) ⟨final, none⟩

/-- What a program can ask for next, control included. -/
inductive Command (Task ModuleRef Params : Type*) where
  | request (request : Request Task)
  | add (module : ModuleRef) (params : Params)
  | remove (module : ModuleRef)
  | initializes
  | runAt (finalTime : Time)
  | pass

namespace Config

variable {Task ModuleRef Params World : Type*} [DecidableEq ModuleRef]

/-- Carry out a command, if it is possible where control is. -/
def perform (behaviour : Behaviour Task ModuleRef Params World) :
    Config Task ModuleRef Params World → Command Task ModuleRef Params →
      Option (Event Task ModuleRef Params × Config Task ModuleRef Params World)
  | ⟨session, none⟩, .request request => some (.request request, ⟨session.request request, none⟩)
  | ⟨session, none⟩, .add module params =>
      some (.add module params, ⟨{ session with ctx := session.ctx.add module params }, none⟩)
  | ⟨session, none⟩, .remove module =>
      some (.remove module, ⟨{ session with ctx := session.ctx.remove module }, none⟩)
  | ⟨session, none⟩, .initializes =>
      some (.initializes (session.initializeContext behaviour).2,
        ⟨(session.initializeContext behaviour).1, none⟩)
  | ⟨session, none⟩, .runAt finalTime =>
      match session.beginRun behaviour with
      | .ok begun => some (.runBegins finalTime, ⟨begun, some finalTime⟩)
      | .error (failed, status) => some (.runFails finalTime status, ⟨failed, none⟩)
  | ⟨session, some finalTime⟩, .pass =>
      match session.loopBody behaviour finalTime with
      | .inl next => some (.pass, ⟨next, some finalTime⟩)
      | .inr (final, status) => some (.runReturns status, ⟨final, none⟩)
  | _, _ => none

theorem step_of_perform {behaviour : Behaviour Task ModuleRef Params World}
    {before after : Config Task ModuleRef Params World} {command : Command Task ModuleRef Params}
    {event : Event Task ModuleRef Params}
    (performed : before.perform behaviour command = some (event, after)) :
    Step behaviour before event after := by
  obtain ⟨session, _ | finalTime⟩ := before <;> cases command <;>
    simp only [perform, Option.some.injEq, Prod.mk.injEq, reduceCtorEq] at performed
  case none.request request =>
    obtain ⟨rfl, rfl⟩ := performed
    exact .request session request
  case none.add module params =>
    obtain ⟨rfl, rfl⟩ := performed
    exact .add session module params
  case none.remove module =>
    obtain ⟨rfl, rfl⟩ := performed
    exact .remove session module
  case none.initializes =>
    obtain ⟨rfl, rfl⟩ := performed
    exact .initializes session
  case none.runAt finalTime =>
    cases begins : session.beginRun behaviour with
    | ok begun =>
        simp only [begins, Option.some.injEq, Prod.mk.injEq] at performed
        obtain ⟨rfl, rfl⟩ := performed
        exact .runBegins finalTime begins
    | error failure =>
        simp only [begins, Option.some.injEq, Prod.mk.injEq] at performed
        obtain ⟨rfl, rfl⟩ := performed
        exact .runFails finalTime begins
  case some.pass =>
    cases passes : session.loopBody behaviour finalTime with
    | inl next =>
        simp only [passes, Option.some.injEq, Prod.mk.injEq] at performed
        obtain ⟨rfl, rfl⟩ := performed
        exact .pass passes
    | inr final =>
        simp only [passes, Option.some.injEq, Prod.mk.injEq] at performed
        obtain ⟨rfl, rfl⟩ := performed
        exact .runReturns passes

/-- Carry out commands one after the other, keeping every step. -/
def execute (behaviour : Behaviour Task ModuleRef Params World) :
    Config Task ModuleRef Params World → List (Command Task ModuleRef Params) →
      Option (List (Transition (Config Task ModuleRef Params World)
        (Event Task ModuleRef Params)) × Config Task ModuleRef Params World)
  | config, [] => some ([], config)
  | config, command :: commands =>
      match config.perform behaviour command with
      | none => none
      | some (event, after) =>
          match after.execute behaviour commands with
          | none => none
          | some (steps, final) => some (⟨config, event, after⟩ :: steps, final)

/-- The first command of an execution and the rest. -/
theorem of_execute_cons {behaviour : Behaviour Task ModuleRef Params World}
    {start final : Config Task ModuleRef Params World} {command : Command Task ModuleRef Params}
    {commands : List (Command Task ModuleRef Params)}
    {steps : List (Transition (Config Task ModuleRef Params World)
      (Event Task ModuleRef Params))}
    (executed : start.execute behaviour (command :: commands) = some (steps, final)) :
    ∃ event after rest, start.perform behaviour command = some (event, after) ∧
      after.execute behaviour commands = some (rest, final) ∧
      steps = ⟨start, event, after⟩ :: rest := by
  rw [execute] at executed
  cases performed : start.perform behaviour command with
  | none => simp [performed] at executed
  | some result =>
      obtain ⟨event, after⟩ := result
      cases rest : after.execute behaviour commands with
      | none => simp [performed, rest] at executed
      | some tail =>
          simp only [performed, rest, Option.some.injEq, Prod.mk.injEq] at executed
          obtain ⟨rfl, rfl⟩ := executed
          exact ⟨event, after, tail.1, rfl, rest, rfl⟩

theorem path_of_execute {behaviour : Behaviour Task ModuleRef Params World}
    {start final : Config Task ModuleRef Params World}
    {commands : List (Command Task ModuleRef Params)}
    {steps : List (Transition (Config Task ModuleRef Params World)
      (Event Task ModuleRef Params))}
    (executed : start.execute behaviour commands = some (steps, final)) :
    StepPath (Step behaviour) start steps final := by
  induction commands generalizing start steps with
  | nil =>
      obtain ⟨rfl, rfl⟩ := Prod.mk.inj (Option.some.inj executed)
      exact .nil
  | cons command commands induction =>
      obtain ⟨event, after, rest, performed, remaining, rfl⟩ := of_execute_cons executed
      exact .cons (step_of_perform performed) (induction remaining)

/-- What happens in an execution has been commanded. -/
theorem command_of_execute {behaviour : Behaviour Task ModuleRef Params World}
    {start final : Config Task ModuleRef Params World}
    {commands : List (Command Task ModuleRef Params)}
    {steps : List (Transition (Config Task ModuleRef Params World)
      (Event Task ModuleRef Params))}
    (executed : start.execute behaviour commands = some (steps, final)) :
    ∀ step ∈ steps, ∃ command ∈ commands,
      step.source.perform behaviour command = some (step.label, step.target) := by
  induction commands generalizing start steps with
  | nil =>
      obtain ⟨rfl, rfl⟩ := Prod.mk.inj (Option.some.inj executed)
      exact fun _ member => (List.not_mem_nil member).elim
  | cons command commands induction =>
      obtain ⟨event, after, rest, performed, remaining, rfl⟩ := of_execute_cons executed
      intro step member
      rcases List.mem_cons.mp member with rfl | later
      · exact ⟨command, List.mem_cons_self, performed⟩
      · obtain ⟨other, listed, taken⟩ := induction remaining step later
        exact ⟨other, List.mem_cons_of_mem _ listed, taken⟩

/-- A module is added only on command. -/
theorem add_mem_of_execute {behaviour : Behaviour Task ModuleRef Params World}
    {start final : Config Task ModuleRef Params World}
    {commands : List (Command Task ModuleRef Params)}
    {steps : List (Transition (Config Task ModuleRef Params World)
      (Event Task ModuleRef Params))}
    (executed : start.execute behaviour commands = some (steps, final))
    {step : Transition (Config Task ModuleRef Params World) (Event Task ModuleRef Params)}
    (member : step ∈ steps) {module : ModuleRef} {params : Params}
    (adds : step.label = .add module params) : .add module params ∈ commands := by
  obtain ⟨command, listed, performed⟩ := command_of_execute executed step member
  have taken := step_of_perform performed
  obtain ⟨before, event, after⟩ := step
  obtain rfl : event = .add module params := adds
  cases taken with
  | add session =>
      cases command with
      | add other otherParams =>
          obtain ⟨same, -⟩ := Prod.mk.inj (Option.some.inj performed)
          cases same
          exact listed
      | runAt finalTime =>
          rw [perform] at performed
          split at performed <;> cases performed
      | _ => cases performed

/-- A checked execution. -/
theorem exists_execute (behaviour : Behaviour Task ModuleRef Params World)
    (start : Config Task ModuleRef Params World) (commands : List (Command Task ModuleRef Params))
    (check : List (Transition (Config Task ModuleRef Params World)
      (Event Task ModuleRef Params)) × Config Task ModuleRef Params World → Prop)
    [DecidablePred check]
    (checked : (start.execute behaviour commands).any (fun result => check result) = true) :
    ∃ steps final, start.execute behaviour commands = some (steps, final) ∧
      check (steps, final) := by
  obtain ⟨⟨steps, final⟩, executed, holds⟩ := (Option.any_eq_true _ _).mp checked
  exact ⟨steps, final, executed, of_decide_eq_true holds⟩

/-- A checked execution, as a history with the checked property. -/
theorem exists_path_of_execute (behaviour : Behaviour Task ModuleRef Params World)
    (start : Config Task ModuleRef Params World) (commands : List (Command Task ModuleRef Params))
    (check : List (Transition (Config Task ModuleRef Params World)
      (Event Task ModuleRef Params)) × Config Task ModuleRef Params World → Prop)
    [DecidablePred check]
    (checked : (start.execute behaviour commands).any (fun result => check result) = true) :
    ∃ steps final, StepPath (Step behaviour) start steps final ∧ check (steps, final) := by
  obtain ⟨steps, final, executed, holds⟩ := exists_execute behaviour start commands check checked
  exact ⟨steps, final, path_of_execute executed, holds⟩

end Config

/-- Histories of a program that starts with a fresh context. -/
abbrev History {Task ModuleRef Params World : Type*} [DecidableEq ModuleRef]
    (behaviour : Behaviour Task ModuleRef Params World) (world : World) :=
  StepPath (Step behaviour) ⟨Session.new world, none⟩

end Simo
