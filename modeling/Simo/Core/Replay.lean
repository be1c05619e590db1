import Simo.Core.Chronology

/-!
# The world as a replay of the task calls

Only modules that are initialized and tasks that are called change the world.  After initialization
the world is therefore what the recorded task calls make of the world that initialization left, in
the order in which they are recorded.  What has been scheduled comes in batches: from outside, from
one module, or from one task.
-/

namespace Simo

variable {Task ModuleRef Params World : Type*}

namespace Behaviour

variable (behaviour : Behaviour Task ModuleRef Params World)

/-- What task calls make of a world. -/
def replay (world : World) (executed : List (Time × Task)) : World :=
  executed.foldl (fun world entry => (behaviour.call entry.2 entry.1 world).1) world

theorem replay_append (world : World) (executed more : List (Time × Task)) :
    behaviour.replay world (executed ++ more) =
      behaviour.replay (behaviour.replay world executed) more :=
  List.foldl_append

theorem replay_cons (world : World) (entry : Time × Task) (executed : List (Time × Task)) :
    behaviour.replay world (entry :: executed) =
      behaviour.replay (behaviour.call entry.2 entry.1 world).1 executed := rfl

/-- The invariant rule for task calls. -/
theorem replay_invariant {P : World → Prop} {world : World} {executed : List (Time × Task)}
    (initially : P world)
    (kept : ∀ entry ∈ executed, ∀ world, P world → P (behaviour.call entry.2 entry.1 world).1) :
    P (behaviour.replay world executed) := by
  induction executed generalizing world with
  | nil => exact initially
  | cons entry executed induction =>
      rw [replay_cons]
      exact induction (kept entry List.mem_cons_self _ initially) fun other member =>
        kept other (List.mem_cons_of_mem _ member)

end Behaviour

namespace Session

variable {behaviour : Behaviour Task ModuleRef Params World}

theorem world_callTasks (tick : Time) (tasks : List Task)
    (session : Session Task ModuleRef Params World) :
    (tasks.foldl (callTask behaviour tick) session).world =
      behaviour.replay session.world (tasks.map (Prod.mk tick)) := by
  induction tasks generalizing session with
  | nil => rfl
  | cons task tasks induction =>
      rw [List.foldl_cons, induction, List.map_cons, Behaviour.replay_cons, callTask,
        world_requests]

theorem scheduled_requests (session : Session Task ModuleRef Params World)
    (requests : List (Request Task)) :
    (requests.foldl request session).scheduled = session.scheduled ++
      requests.map fun request =>
        (request.target session.ctx.currentTime, request.callable) := by
  induction requests generalizing session with
  | nil => rw [List.foldl_nil, List.map_nil, List.append_nil]
  | cons first rest induction =>
      have clock : (session.request first).ctx.currentTime = session.ctx.currentTime := by
        rw [request_eq]
        exact Context.currentTime_scheduleAt _ _ _
      rw [List.foldl_cons, induction, clock, request_eq, List.map_cons, ← List.singleton_append,
        ← List.append_assoc]
      rfl

theorem currentTime_requests (session : Session Task ModuleRef Params World)
    (requests : List (Request Task)) :
    (requests.foldl request session).ctx.currentTime = session.ctx.currentTime :=
  (schedules_requests fun _ _ => trivial : Schedules (fun _ => True) _ _).currentTime_eq

/-- What modules preserve, initialization preserves. -/
theorem initializeContext_invariant {P : World → Prop}
    (kept : ∀ module params ctx world, P world →
      P (behaviour.initializeModule module params ctx world).1)
    {session : Session Task ModuleRef Params World} (initially : P session.world) :
    P (session.initializeContext behaviour).1.world := by
  have each : ∀ (modules : List (ModuleRef × Params))
      (progress : Session Task ModuleRef Params World × InitializationStatus ModuleRef),
      P progress.1.world → P (modules.foldl (initializeModule behaviour) progress).1.world := by
    intro modules
    induction modules with
    | nil => exact fun _ holds => holds
    | cons entry modules induction =>
        intro progress holds
        refine induction _ ?_
        rw [initializeModule]
        dsimp only
        rw [world_requests]
        exact kept _ _ _ _ holds
  exact each _ _ initially

section Batches

variable {P : List (Time × Task) → Prop} {R : ModuleRef → Params → Prop}
  (append : ∀ first second, P first → P second → P (first ++ second))

include append

theorem scheduled_callTasks
    (tasks : ∀ task tick world, P ((behaviour.call task tick world).2.map fun request =>
      (request.target tick, request.callable)))
    {tick : Time} (called : List Task) {session : Session Task ModuleRef Params World}
    (now : session.ctx.currentTime = tick) (initially : P session.scheduled) :
    P (called.foldl (callTask behaviour tick) session).scheduled := by
  induction called generalizing session with
  | nil => exact initially
  | cons task called induction =>
      refine induction ?_ ?_
      · rw [callTask]
        exact (currentTime_requests _ _).trans now
      · rw [callTask]
        dsimp only
        rw [scheduled_requests]
        dsimp only
        rw [now]
        exact append _ _ initially (tasks task tick session.world)

theorem scheduled_initializeModules
    (modules : ∀ module params ctx world, R module params →
      P ((behaviour.initializeModule module params ctx world).2.1.map fun request =>
        (request.target ctx.currentTime, request.callable)))
    (entries : List (ModuleRef × Params)) (registered : ∀ entry ∈ entries, R entry.1 entry.2)
    {progress : Session Task ModuleRef Params World × InitializationStatus ModuleRef}
    (initially : P progress.1.scheduled) :
    P (entries.foldl (initializeModule behaviour) progress).1.scheduled := by
  induction entries generalizing progress with
  | nil => exact initially
  | cons entry entries induction =>
      refine induction (fun other member => registered other (List.mem_cons_of_mem _ member)) ?_
      rw [initializeModule]
      dsimp only
      rw [scheduled_requests]
      exact append _ _ initially (modules _ _ _ _ (registered entry List.mem_cons_self))

end Batches

theorem executed_initializeContext (behaviour : Behaviour Task ModuleRef Params World)
    (session : Session Task ModuleRef Params World) :
    (session.initializeContext behaviour).1.executed = session.executed :=
  (schedules_initializeModules behaviour session.ctx.modules (session, .ok none)).2

theorem modules_initializeContext (behaviour : Behaviour Task ModuleRef Params World)
    (session : Session Task ModuleRef Params World) :
    (session.initializeContext behaviour).1.ctx.modules = session.ctx.modules :=
  (schedules_initializeModules behaviour session.ctx.modules (session, .ok none)).1.modules_eq

end Session

namespace Config

variable [DecidableEq ModuleRef] {behaviour : Behaviour Task ModuleRef Params World}
  {before after config : Config Task ModuleRef Params World} {event : Event Task ModuleRef Params}
  {world : World} {steps : List (Transition (Config Task ModuleRef Params World)
    (Event Task ModuleRef Params))}

/-- What a step does to the session: a schedule call, something that concerns the context alone,
the initialization, or a pass. -/
theorem session_of_step (sound : before.Sound) (asserted : before.Asserted behaviour event)
    (step : Step behaviour before event after) :
    (∃ request, event = .request request ∧
        after.session = before.session.request request) ∨
      (∃ ctx, after.session = { before.session with ctx := ctx } ∧
        (ctx.state = .initialization ↔ before.session.ctx.state = .initialization) ∧
        ∀ entry ∈ ctx.modules,
          entry ∈ before.session.ctx.modules ∨ event = .add entry.1 entry.2) ∨
      (before.session.ctx.state = .initialization ∧
        after.session = (before.session.initializeContext behaviour).1) ∨
      ∃ finalTime, before.finalTime = some finalTime ∧ event = .pass ∧
        before.session.loopBody behaviour finalTime = .inl after.session := by
  cases step with
  | request session request => exact .inl ⟨request, rfl, rfl⟩
  | add session module params =>
      refine .inr (.inl ⟨_, rfl, Iff.rfl, fun entry member => ?_⟩)
      rcases List.mem_append.mp member with old | new
      · exact .inl old
      · rw [List.mem_singleton.mp new]
        exact .inr rfl
  | remove session module =>
      exact .inr (.inl ⟨_, rfl, Iff.rfl, fun entry member =>
        .inl (List.mem_of_mem_filter member)⟩)
  | initializes session => exact .inr (.inr (.inl ⟨asserted, rfl⟩))
  | runFails finalTime begins =>
      obtain ⟨waiting, -, result⟩ := Session.beginRun_error begins
      exact .inr (.inr (.inl ⟨waiting, congrArg Prod.fst result⟩))
  | runBegins finalTime begins =>
      rcases Session.beginRun_ok begins with ⟨waiting, -, rfl⟩ | ⟨started, rfl⟩
      · exact .inr (.inr (.inl ⟨waiting, rfl⟩))
      · exact .inr (.inl ⟨_, rfl, iff_of_false nofun started, fun _ => .inl⟩)
  | @pass session next finalTime passes => exact .inr (.inr (.inr ⟨finalTime, rfl, rfl, passes⟩))
  | @runReturns session final finalTime status returns =>
      rcases Session.loopBody_inr returns with ⟨-, -, rfl⟩ | ⟨-, -, -, rfl⟩
      · exact .inr (.inl ⟨_, rfl, iff_of_false nofun sound.started, fun _ => .inl⟩)
      · exact .inr (.inl ⟨_, rfl, Iff.rfl, fun _ => .inl⟩)

/-! ## The world -/

/-- The initialization is still to come, and nothing has happened to the world. -/
structure Idle (world : World) (config : Config Task ModuleRef Params World) : Prop where
  waiting : config.session.ctx.state = .initialization
  world : config.session.world = world
  executed : config.session.executed = []

/-- The world is what the task calls so far make of `start`. -/
structure Replays (behaviour : Behaviour Task ModuleRef Params World) (start : World)
    (config : Config Task ModuleRef Params World) : Prop where
  started : config.session.ctx.state ≠ .initialization
  world : config.session.world = behaviour.replay start config.session.executed

/-- An idle context stays idle until it is initialized. -/
theorem Idle.step (idle : before.Idle world) (sound : before.Sound)
    (asserted : before.Asserted behaviour event) (step : Step behaviour before event after) :
    after.Idle world ∨
      after.session = (before.session.initializeContext behaviour).1 ∧
        after.Replays behaviour after.session.world := by
  have inversion := session_of_step sound asserted step
  obtain ⟨session, finalTime⟩ := after
  rcases inversion with ⟨request, -, rfl⟩ | ⟨ctx, rfl, same, -⟩ | ⟨-, rfl⟩ | ⟨final, running, -⟩
  · rw [Session.request_eq]
    exact .inl ⟨(Context.state_scheduleAt _ _ _).trans idle.waiting, idle.world, idle.executed⟩
  · exact .inl ⟨same.mpr idle.waiting, idle.world, idle.executed⟩
  · refine .inr ⟨rfl, Session.started_initializeContext behaviour before.session, ?_⟩
    have executed := (Session.executed_initializeContext behaviour before.session).trans
      idle.executed
    rw [executed]
    rfl
  · have inLoop := sound.running (by rw [running]; exact nofun)
    rw [idle.waiting] at inLoop
    cases inLoop

theorem Replays.step {start : World} (replays : before.Replays behaviour start)
    (sound : before.Sound) (asserted : before.Asserted behaviour event)
    (step : Step behaviour before event after) : after.Replays behaviour start := by
  have inversion := session_of_step sound asserted step
  obtain ⟨session, finalTime⟩ := after
  rcases inversion with
    ⟨request, -, rfl⟩ | ⟨ctx, rfl, same, -⟩ | ⟨waiting, -⟩ | ⟨final, -, rfl, passes⟩
  · rw [Session.request_eq]
    exact ⟨(Context.state_scheduleAt _ _ _).trans_ne replays.started, replays.world⟩
  · exact ⟨mt same.mp replays.started, replays.world⟩
  · exact (replays.started waiting).elim
  · have still := Session.state_pass passes
    obtain ⟨-, -, rfl⟩ := Session.loopBody_inl passes
    refine ⟨still.trans_ne replays.started, ?_⟩
    dsimp only
    rw [Session.executed_runTick, Behaviour.replay_append, ← replays.world, Session.runTick,
      Session.world_callTasks]

/-- Once the context is initialized, one step of the history has initialized it, and the world is
the replay of the task calls from the world that this step left. -/
theorem exists_start (history : History behaviour world steps config)
    (asserted : ∀ step ∈ steps, step.source.Asserted behaviour step.label) :
    config.Idle world ∨ ∃ step ∈ steps, step.source.Idle world ∧
      step.target.session = (step.source.session.initializeContext behaviour).1 ∧
      config.Replays behaviour step.target.session.world := by
  induction history with
  | nil => exact .inl ⟨rfl, rfl, rfl⟩
  | @snoc steps before after label path last induction =>
      have earlier : ∀ step ∈ steps, step.source.Asserted behaviour step.label :=
        fun step member => asserted step (List.mem_append_left _ member)
      have latest : before.Asserted behaviour label :=
        asserted ⟨before, label, after⟩ (List.mem_append_right _ List.mem_cons_self)
      have sound : before.Sound := (path.invariant (sound_new world) fun step member source =>
        sound_step source (earlier step member) (path.step_of_mem member)).1
      rcases induction earlier with idle | ⟨step, member, idle, initialized, replays⟩
      · rcases idle.step sound latest last with still | ⟨initialized, replays⟩
        · exact .inl still
        · exact .inr ⟨⟨before, label, after⟩, List.mem_append_right _ List.mem_cons_self, idle,
            initialized, replays⟩
      · exact .inr ⟨step, List.mem_append_left _ member, idle, initialized,
          replays.step sound latest last⟩

/-! ## The schedule calls -/

/-- The invariant rule for schedule calls: what holds of nothing and of every batch, and of two
lists together when it holds of both, holds of all schedule calls. -/
theorem scheduled_invariant {P : List (Time × Task) → Prop} {R : ModuleRef → Params → Prop}
    (nil : P []) (append : ∀ first second, P first → P second → P (first ++ second))
    (modules : ∀ module params ctx world, R module params →
      P ((behaviour.initializeModule module params ctx world).2.1.map fun request =>
        (request.target ctx.currentTime, request.callable)))
    (tasks : ∀ task tick world, P ((behaviour.call task tick world).2.map fun request =>
      (request.target tick, request.callable)))
    (history : History behaviour world steps config)
    (asserted : ∀ step ∈ steps, step.source.Asserted behaviour step.label)
    (outside : ∀ step ∈ steps, ∀ request, step.label = .request request →
      P [(request.target step.source.session.ctx.currentTime, request.callable)])
    (registered : ∀ step ∈ steps, ∀ module params, step.label = .add module params →
      R module params) : P config.session.scheduled := by
  let Inv (config : Config Task ModuleRef Params World) : Prop :=
    config.Sound ∧ P config.session.scheduled ∧
      ∀ entry ∈ config.session.ctx.modules, R entry.1 entry.2
  have initially : Inv ⟨Session.new world, none⟩ :=
    ⟨sound_new world, nil, fun _ member => (List.not_mem_nil member).elim⟩
  refine (history.invariant initially fun step member invariant => ?_).1.2.1
  obtain ⟨sound, scheduled, listed⟩ := invariant
  have taken := history.step_of_mem member
  refine ⟨sound_step sound (asserted step member) taken, ?_⟩
  rcases session_of_step sound (asserted step member) taken with
    ⟨request, called, result⟩ | ⟨ctx, result, -, added⟩ | ⟨-, result⟩ |
    ⟨finalTime, -, called, passes⟩
  · rw [result, Session.request_eq]
    refine ⟨append _ _ scheduled (outside step member request called), fun entry present => ?_⟩
    rw [Session.scheduleAt] at present
    dsimp only at present
    rw [Context.modules_scheduleAt] at present
    exact listed entry present
  · rw [result]
    refine ⟨scheduled, fun entry present => ?_⟩
    rcases added entry present with old | new
    · exact listed entry old
    · exact registered step member _ _ new
  · rw [result, Session.modules_initializeContext]
    exact ⟨Session.scheduled_initializeModules append modules _ listed scheduled, listed⟩
  · obtain ⟨-, -, next⟩ := Session.loopBody_inl passes
    rw [next]
    refine ⟨Session.scheduled_callTasks append tasks _ rfl scheduled, fun entry present => ?_⟩
    have meets := asserted step member
    rw [called] at meets
    dsimp only [Context.finishTick] at present
    rw [(Session.schedules_runTick meets).modules_eq] at present
    exact listed entry present

/-! ## The order of the task calls -/

omit [DecidableEq ModuleRef] in
/-- What has been called was scheduled. -/
theorem Orderly.mem_scheduled (orderly : config.Orderly) {call : Time × Task}
    (called : call ∈ config.session.executed) : call ∈ config.session.scheduled := by
  rw [← Multiset.mem_coe, orderly.consistent.conserved]
  exact Multiset.mem_add.mpr (.inl (Multiset.mem_coe.mpr called))

omit [DecidableEq ModuleRef] in
/-- What is still to come is not before what has been called. -/
theorem Orderly.le_of_stored (orderly : config.Orderly)
    (started : config.session.ctx.state ≠ .initialization) {past : Time × Task}
    (called : past ∈ config.session.executed) {pending : Time × Task}
    (stored : pending ∈ config.session.ctx.stored) : past.1 ≤ pending.1 := by
  have synced := orderly.consistent.synced
  have filled : config.session.ctx.tasksAt pending.1 ≠ [] :=
    List.ne_nil_of_mem (Context.mem_stored.mp stored)
  have occupied : config.session.ctx.nextTickHeap.empty = false := by
    rw [← Bool.not_eq_true]
    intro vacant
    rw [synced.stored_eq_zero started vacant] at stored
    exact Multiset.notMem_zero _ stored
  exact ((orderly.chronological.past past called).trans
    (orderly.chronological.timely.ahead occupied)).trans
      (orderly.chronological.timely.nextTick_le synced started filled)

omit [DecidableEq ModuleRef] in
/-- A task that is scheduled for an earlier tick than one that has been called was called before
it. -/
theorem Orderly.mem_of_earlier (orderly : config.Orderly)
    (started : config.session.ctx.state ≠ .initialization) {earlier later : List (Time × Task)}
    {call first : Time × Task} (split : config.session.executed = earlier ++ call :: later)
    (scheduled : first ∈ config.session.scheduled) (before : first.1 < call.1) :
    first ∈ earlier := by
  have called : call ∈ config.session.executed := by
    rw [split]
    exact List.mem_append_right _ List.mem_cons_self
  have conserved := orderly.consistent.conserved
  have somewhere : first ∈ (config.session.executed : Multiset (Time × Task)) +
      config.session.ctx.stored := conserved ▸ Multiset.mem_coe.mpr scheduled
  have executed : first ∈ earlier ++ call :: later := by
    rcases Multiset.mem_add.mp somewhere with done | pending
    · exact split ▸ Multiset.mem_coe.mp done
    · exact (not_lt.mpr (orderly.le_of_stored started called pending) before).elim
  rcases List.mem_append.mp executed with here | after
  · exact here
  · have sorted := orderly.chronological.sorted
    rw [split, List.map_append, List.map_cons] at sorted
    have tail := (List.pairwise_cons.mp (List.pairwise_append.mp sorted).2.1).1
    rcases List.mem_cons.mp after with rfl | late
    · exact (lt_irrefl _ before).elim
    · exact (not_lt.mpr (tail _ (List.mem_map_of_mem late)) before).elim

end Config
end Simo
