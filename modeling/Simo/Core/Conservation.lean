import Simo.Core.Scheduling

/-!
# No event is lost or run twice

The task map and the heap of ticks are kept in step by three details of the source: a tick is
pushed when its vector gets its first task, the vector is cleared after its tasks have run, and the
tick is popped once.  `Session.Consistent` states the result, and holds in every history whose
calls meet the assertions of the source.  It does not use any order of the heap.
-/

namespace Simo

variable {Task ModuleRef Params World : Type*}

namespace Context

/-- The heap holds the ticks with tasks once each; before initialization it is empty. -/
structure Synced (ctx : Context Task ModuleRef Params) : Prop where
  valid : ctx.nextTickHeap.Valid
  /-- Before initialization. -/
  fresh : ctx.state = .initialization →
    ctx.nextTickHeap.contents = 0 ∧ ∀ tick ∈ ctx.scheduledTasks.keys, ctx.tasksAt tick ≠ []
  /-- After initialization. -/
  count : ctx.state ≠ .initialization → ∀ tick : Time,
    ctx.nextTickHeap.contents.count tick.picoseconds = if ctx.tasksAt tick = [] then 0 else 1

theorem synced_new : (new : Context Task ModuleRef Params).Synced where
  valid := RadixHeap.valid_new
  fresh _ := ⟨RadixHeap.contents_new, fun tick member => (AList.notMem_empty tick member).elim⟩
  count started := (started rfl).elim

theorem Synced.scheduleAt {ctx : Context Task ModuleRef Params} (synced : ctx.Synced)
    (timeTarget : Time) (callable : Task) : (ctx.scheduleAt timeTarget callable).Synced where
  valid := valid_scheduleAt ctx timeTarget callable synced.valid
  fresh waiting := by
    rw [state_scheduleAt] at waiting
    obtain ⟨noTicks, occupied⟩ := synced.fresh waiting
    rw [nextTickHeap_scheduleAt, if_neg (fun started => started.1 waiting)]
    refine ⟨noTicks, fun tick member => ?_⟩
    rw [tasksAt_scheduleAt]
    rw [scheduledTasks_scheduleAt] at member
    split
    next => simp
    next other =>
      have := (AList.mem_insert _).mp (AList.mem_keys.mp member)
      exact occupied tick (AList.mem_keys.mpr (this.resolve_left other))
  count started tick := by
    rw [state_scheduleAt] at started
    have before := synced.count started tick
    rw [tasksAt_scheduleAt, nextTickHeap_scheduleAt]
    by_cases target : tick = timeTarget
    · subst target
      by_cases vacant : ctx.tasksAt tick = []
      · rw [if_pos ⟨started, vacant⟩, RadixHeap.contents_push, Multiset.count_cons_self, before]
        simp [vacant]
      · rw [if_neg (fun both => vacant both.2), before]
        simp [vacant]
    · rw [if_neg target]
      split
      next =>
        rw [RadixHeap.contents_push, Multiset.count_cons_of_ne, before]
        exact fun same => target (Time.picoseconds_injective same)
      next => exact before

/-- Initialization puts exactly the ticks with tasks into the heap. -/
theorem Synced.pushTimes {ctx : Context Task ModuleRef Params} (synced : ctx.Synced)
    (waiting : ctx.state = .initialization) {state : State} (started : state ≠ .initialization) :
    Synced { ctx.pushTimes with state := state } where
  valid := valid_pushTimes synced.valid
  fresh waits := (started waits).elim
  count _ tick := by
    obtain ⟨noTicks, occupied⟩ := synced.fresh waiting
    change ctx.pushTimes.nextTickHeap.contents.count tick.picoseconds =
      if ctx.tasksAt tick = [] then 0 else 1
    rw [contents_pushTimes synced.valid, noTicks, zero_add, Multiset.coe_count,
      List.count_map_of_injective _ _ Time.picoseconds_injective]
    by_cases member : tick ∈ ctx.scheduledTasks.keys
    · rw [List.count_eq_one_of_mem ctx.scheduledTasks.keys_nodup member,
        if_neg (occupied tick member)]
    · rw [List.count_eq_zero_of_not_mem member, if_pos]
      rw [tasksAt, AList.lookup_eq_none.mpr (fun present => member (AList.mem_keys.mp present))]
      rfl

theorem picoseconds_nextTick (ctx : Context Task ModuleRef Params) :
    ctx.nextTick.picoseconds = ctx.nextTickHeap.peek := rfl

/-- The head of a non-empty heap is a tick with tasks. -/
theorem Synced.tasksAt_nextTick_ne_nil {ctx : Context Task ModuleRef Params} (synced : ctx.Synced)
    (started : ctx.state ≠ .initialization) (occupied : ctx.nextTickHeap.empty = false) :
    ctx.tasksAt ctx.nextTick ≠ [] := by
  intro vacant
  have absent := synced.count started ctx.nextTick
  rw [if_pos vacant, Multiset.count_eq_zero] at absent
  exact absent (RadixHeap.peek_mem synced.valid occupied)

/-- Clearing the head's tasks and popping the heap go together. -/
theorem Synced.finishTick {ctx : Context Task ModuleRef Params} (synced : ctx.Synced)
    (started : ctx.state ≠ .initialization) (occupied : ctx.nextTickHeap.empty = false) :
    (ctx.finishTick ctx.nextTick).Synced where
  valid := RadixHeap.valid_pop synced.valid occupied
  fresh waiting := (started waiting).elim
  count _ tick := by
    have before := synced.count started tick
    rw [RadixHeap.contents_pop synced.valid occupied, ← picoseconds_nextTick] at before
    change ctx.nextTickHeap.pop.contents.count tick.picoseconds = _
    rw [tasksAt_finishTick]
    by_cases head : tick = ctx.nextTick
    · subst head
      rw [Multiset.count_cons_self, if_neg (synced.tasksAt_nextTick_ne_nil started occupied)]
        at before
      rw [if_pos rfl, if_pos rfl]
      exact Nat.succ.inj before
    · rw [Multiset.count_cons_of_ne (fun same => head (Time.picoseconds_injective same))] at before
      rw [if_neg head]
      exact before

/-- Nothing is stored once the heap is empty. -/
theorem Synced.stored_eq_zero {ctx : Context Task ModuleRef Params} (synced : ctx.Synced)
    (started : ctx.state ≠ .initialization) (vacant : ctx.nextTickHeap.empty = true) :
    ctx.stored = 0 := by
  rw [Multiset.eq_zero_iff_forall_notMem]
  rintro ⟨tick, task⟩ member
  have occupied : ctx.tasksAt tick ≠ [] := List.ne_nil_of_mem (mem_stored.mp member)
  have count := synced.count started tick
  rw [if_neg occupied, (RadixHeap.empty_iff synced.valid).mp vacant] at count
  simp at count

end Context

namespace Session

theorem Schedules.synced {allowed : Time → Prop}
    {before after : Session Task ModuleRef Params World}
    (schedules : Schedules allowed before after) (initially : before.ctx.Synced) :
    after.ctx.Synced := by
  induction schedules with
  | refl => exact initially
  | frame _ _ _ induction => exact induction
  | scheduleAt callable _ _ induction => exact induction.scheduleAt _ callable

/-- Nothing lost, nothing run twice, heap and task map in step. -/
structure Consistent (session : Session Task ModuleRef Params World) : Prop where
  /-- Every schedule call is accounted for exactly once. -/
  conserved : (session.scheduled : Multiset (Time × Task)) =
    (session.executed : Multiset (Time × Task)) + session.ctx.stored
  synced : session.ctx.Synced

theorem consistent_new (world : World) :
    (new world : Session Task ModuleRef Params World).Consistent where
  conserved := by
    change (0 : Multiset (Time × Task)) = 0 + 0
    rw [add_zero]
  synced := Context.synced_new

theorem Consistent.schedules {allowed : Time → Prop}
    {before after : Session Task ModuleRef Params World} (consistent : before.Consistent)
    (schedules : Schedules allowed before after) :
    (after.scheduled : Multiset (Time × Task)) =
      (before.executed : Multiset (Time × Task)) + after.ctx.stored := by
  have added := schedules.stored_eq
  rw [consistent.conserved, add_comm before.ctx.stored, ← add_assoc] at added
  have cancelled := add_right_cancel added
  rw [← cancelled, add_comm]

theorem Consistent.request {session : Session Task ModuleRef Params World}
    (consistent : session.Consistent) (request : Request Task) :
    (session.request request).Consistent := by
  have one : Schedules (fun _ => True) session (session.request request) := by
    rw [request_eq]
    exact .scheduleAt _ .refl trivial
  refine ⟨?_, one.synced consistent.synced⟩
  rw [consistent.schedules one, request_eq]
  rfl

theorem Consistent.initializeContext {session : Session Task ModuleRef Params World}
    (consistent : session.Consistent) (waiting : session.ctx.state = .initialization)
    (behaviour : Behaviour Task ModuleRef Params World) :
    (session.initializeContext behaviour).1.Consistent := by
  obtain ⟨schedules, kept⟩ :=
    schedules_initializeModules behaviour session.ctx.modules (session, .ok none)
  have still := schedules.state_eq.trans waiting
  constructor
  · have scheduled := consistent.schedules schedules
    rw [← kept] at scheduled
    exact scheduled
  · refine (schedules.synced consistent.synced).pushTimes still ?_
    split <;> simp

/-- A pass of the loop moves the tasks of the head from the stored to the executed ones. -/
theorem Consistent.pass {behaviour : Behaviour Task ModuleRef Params World}
    {session next : Session Task ModuleRef Params World} {finalTime : Time}
    (consistent : session.Consistent) (started : session.ctx.state ≠ .initialization)
    (asserted : behaviour.MeetsAssertion session.ctx.nextTick
      (session.ctx.tasksAt session.ctx.nextTick) session.world)
    (passes : session.loopBody behaviour finalTime = .inl next) : next.Consistent := by
  obtain ⟨occupied, -, rfl⟩ := loopBody_inl passes
  have schedules := schedules_runTick asserted
  have clock : Consistent
      { session with ctx := { session.ctx with currentTime := session.ctx.nextTick } } :=
    ⟨consistent.conserved, consistent.synced.valid, consistent.synced.fresh,
      consistent.synced.count⟩
  obtain ⟨still, head⟩ := schedules.nextTick_eq consistent.synced.valid occupied
  constructor
  · have scheduled := clock.schedules schedules
    rw [← Context.stored_finishTick _ session.ctx.nextTick, schedules.tasksAt_eq (lt_irrefl _)]
      at scheduled
    change ((session.runTick behaviour _).scheduled : Multiset (Time × Task)) =
      ((session.runTick behaviour _).executed : Multiset (Time × Task)) + _
    rw [scheduled, executed_runTick, ← Multiset.coe_add, add_assoc, add_comm (Context.stored _)]
    rfl
  · have running := schedules.state_eq.trans_ne started
    have finished := (schedules.synced clock.synced).finishTick running still
    rwa [head] at finished

/-- The clock does not matter, nor does the state once it is past initialization. -/
theorem Consistent.withState {session : Session Task ModuleRef Params World}
    (consistent : session.Consistent) (started : session.ctx.state ≠ .initialization)
    {state : State} (still : state ≠ .initialization) (currentTime : Time) :
    Consistent { session with
      ctx := { session.ctx with state := state, currentTime := currentTime } } :=
  ⟨consistent.conserved, consistent.synced.valid, fun waiting => (still waiting).elim,
    fun _ => consistent.synced.count started⟩

theorem Consistent.withModules {session : Session Task ModuleRef Params World}
    (consistent : session.Consistent) (modules : List (ModuleRef × Params)) :
    Consistent { session with ctx := { session.ctx with modules := modules } } :=
  ⟨consistent.conserved, consistent.synced.valid, consistent.synced.fresh,
    consistent.synced.count⟩

end Session

/-! ## Histories -/

namespace Config

/-- The step meets the assertion of `schedule_at` at each of its calls, and it does not initialize
the context a second time: the state leaves `INITIALIZATION` with the first call. -/
def Asserted (behaviour : Behaviour Task ModuleRef Params World)
    (config : Config Task ModuleRef Params World) : Event Task ModuleRef Params → Prop
  | .request request =>
      config.session.ctx.MayScheduleAt (request.target config.session.ctx.currentTime)
  | .initializes _ => config.session.ctx.state = .initialization
  | .pass => behaviour.MeetsAssertion config.session.ctx.nextTick
      (config.session.ctx.tasksAt config.session.ctx.nextTick) config.session.world
  | _ => True

instance decidableAsserted (behaviour : Behaviour Task ModuleRef Params World)
    (config : Config Task ModuleRef Params World) :
    ∀ event : Event Task ModuleRef Params, Decidable (config.Asserted behaviour event)
  | .request _ => inferInstanceAs (Decidable (config.session.ctx.MayScheduleAt _))
  | .initializes _ => inferInstanceAs (Decidable (_ = _))
  | .pass => inferInstanceAs (Decidable (behaviour.MeetsAssertion _ _ _))
  | .add _ _ | .remove _ | .runFails _ _ | .runBegins _ | .runReturns _ => .isTrue trivial

/-- What holds between any two steps: the session is consistent, and a loop runs in state
`RUNNING`. -/
structure Sound (config : Config Task ModuleRef Params World) : Prop where
  consistent : config.session.Consistent
  running : config.finalTime ≠ none → config.session.ctx.state = .running

theorem sound_new (world : World) :
    Sound ⟨(Session.new world : Session Task ModuleRef Params World), none⟩ where
  consistent := Session.consistent_new world
  running inLoop := (inLoop rfl).elim

/-- The context is initialized while a run is in progress. -/
theorem Sound.started {session : Session Task ModuleRef Params World} {finalTime : Time}
    (sound : Sound ⟨session, some finalTime⟩) : session.ctx.state ≠ .initialization := by
  have running : session.ctx.state = .running := sound.running (by simp)
  simp [running]

theorem sound_step [DecidableEq ModuleRef] {behaviour : Behaviour Task ModuleRef Params World}
    {before after : Config Task ModuleRef Params World} {event : Event Task ModuleRef Params}
    (sound : before.Sound) (asserted : before.Asserted behaviour event)
    (step : Step behaviour before event after) : after.Sound := by
  have outside : ∀ {session : Session Task ModuleRef Params World}, session.Consistent →
      Sound ⟨session, none⟩ := fun consistent => ⟨consistent, fun inLoop => (inLoop rfl).elim⟩
  cases step with
  | request session request => exact outside (sound.consistent.request request)
  | add session module params => exact outside (sound.consistent.withModules _)
  | remove session module => exact outside (sound.consistent.withModules _)
  | initializes session => exact outside (sound.consistent.initializeContext asserted behaviour)
  | runFails finalTime begins =>
      obtain ⟨waiting, -, result⟩ := Session.beginRun_error begins
      rw [(Prod.mk.inj result).1]
      exact outside (sound.consistent.initializeContext waiting behaviour)
  | runBegins finalTime begins =>
      rcases Session.beginRun_ok begins with ⟨waiting, success, rfl⟩ | ⟨started, rfl⟩
      · refine ⟨sound.consistent.initializeContext waiting behaviour, fun _ => ?_⟩
        rw [Session.state_initializeContext, if_pos success]
      · exact ⟨sound.consistent.withState started (by decide) _, fun _ => rfl⟩
  | @pass session next finalTime passes =>
      have running : session.ctx.state = .running := sound.running (by simp)
      exact ⟨sound.consistent.pass sound.started asserted passes,
        fun _ => (Session.state_pass passes).trans running⟩
  | @runReturns session final finalTime status returns =>
      have started := sound.started
      rcases Session.loopBody_inr returns with ⟨-, -, rfl⟩ | ⟨-, -, -, rfl⟩
      · exact outside (sound.consistent.withState started (by decide) _)
      · exact outside (sound.consistent.withState started started _)

/-- A run that reports `STOPPED` leaves no stored task. -/
theorem stored_of_stopped [DecidableEq ModuleRef]
    {behaviour : Behaviour Task ModuleRef Params World}
    {before after : Config Task ModuleRef Params World} (sound : before.Sound)
    (step : Step behaviour before (.runReturns .stopped) after) :
    after.session.ctx.stored = 0 := by
  cases step with
  | @runReturns session final finalTime status returns =>
      have started := sound.started
      rcases Session.loopBody_inr returns with ⟨vacant, -, rfl⟩ | ⟨-, -, impossible, -⟩
      · exact sound.consistent.synced.stored_eq_zero started vacant
      · cases impossible

/-- No event is lost or run twice.  Between any two steps of a history that meets the assertions,
the scheduled tasks are the executed ones, each called with its own tick, and the stored ones; after
initialization the heap holds each tick with tasks once and no other; and a run that reports
`STOPPED` has executed everything that was scheduled. -/
theorem no_event_lost [DecidableEq ModuleRef] {behaviour : Behaviour Task ModuleRef Params World}
    {world : World} {config : Config Task ModuleRef Params World}
    {steps : List (Transition (Config Task ModuleRef Params World)
      (Event Task ModuleRef Params))}
    (history : History behaviour world steps config)
    (asserted : ∀ step ∈ steps, step.source.Asserted behaviour step.label) :
    (config.session.scheduled : Multiset (Time × Task)) =
        (config.session.executed : Multiset (Time × Task)) + config.session.ctx.stored ∧
      (config.session.ctx.state ≠ .initialization → ∀ tick : Time,
        config.session.ctx.nextTickHeap.contents.count tick.picoseconds =
          if config.session.ctx.tasksAt tick = [] then 0 else 1) ∧
      ∀ step ∈ steps, step.label = .runReturns .stopped →
        (step.target.session.scheduled : Multiset (Time × Task)) =
          (step.target.session.executed : Multiset (Time × Task)) := by
  obtain ⟨sound, around⟩ := history.invariant (sound_new world) fun step member before =>
    sound_step before (asserted step member) (history.step_of_mem member)
  refine ⟨sound.consistent.conserved, sound.consistent.synced.count, ?_⟩
  intro step member stopped
  obtain ⟨before, after⟩ := around step member
  have taken := history.step_of_mem member
  rw [stopped] at taken
  rw [after.consistent.conserved, stored_of_stopped before taken, add_zero]

/-- A program that schedules tick 7 between two runs, while tick 10 is the head of the heap. -/
def belowHead : List (Command ℕ Unit Unit) :=
  [.request (.scheduleAt ⟨10⟩ 0), .runAt ⟨5⟩, .pass, .request (.scheduleAt ⟨7⟩ 1), .runAt ⟨8⟩,
    .pass, .runAt ⟨20⟩, .pass, .pass, .pass]

/-- Nothing is lost even when a tick is scheduled below the head of the heap. -/
theorem no_event_lost_below_head :
    ∃ steps config, History (Behaviour.quiet : Behaviour ℕ Unit Unit Unit) () steps config ∧
      config.session.executed.length = 2 ∧
      (config.session.scheduled : Multiset (Time × ℕ)) =
        (config.session.executed : Multiset (Time × ℕ)) + config.session.ctx.stored ∧
      (config.session.ctx.state ≠ .initialization → ∀ tick : Time,
        config.session.ctx.nextTickHeap.contents.count tick.picoseconds =
          if config.session.ctx.tasksAt tick = [] then 0 else 1) ∧
      ∀ step ∈ steps, step.label = .runReturns .stopped →
        (step.target.session.scheduled : Multiset (Time × ℕ)) =
          (step.target.session.executed : Multiset (Time × ℕ)) := by
  obtain ⟨steps, config, history, asserted, length⟩ :=
    exists_path_of_execute (Behaviour.quiet : Behaviour ℕ Unit Unit Unit)
      ⟨Session.new (), none⟩ belowHead
      (fun result => (∀ step ∈ result.1, step.source.Asserted Behaviour.quiet step.label) ∧
        result.2.session.executed.length = 2) (by decide)
  exact ⟨steps, config, history, length, no_event_lost history asserted⟩

end Config
end Simo
