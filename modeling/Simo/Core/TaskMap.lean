import Simo.Core.Conservation

/-!
# The size of the task map

The end of a tick empties its list of tasks and leaves the entry.  The map therefore has an entry
for every tick that was ever scheduled, and it holds nothing but pending ticks exactly as long as
no tick has been run.
-/

namespace Simo

variable {Task ModuleRef Params World : Type*}

namespace Context

/-- The ticks with tasks. -/
def pendingTicks (ctx : Context Task ModuleRef Params) : Finset Time :=
  (ctx.stored.map Prod.fst).toFinset

/-- Every key of the task map has a pending task, so that the map has as many entries as there are
pending ticks. -/
structure OnlyPending (ctx : Context Task ModuleRef Params) : Prop where
  pending : ∀ tick ∈ ctx.scheduledTasks, ctx.tasksAt tick ≠ []
  size : ctx.scheduledTasks.keys.length = ctx.pendingTicks.card

theorem mem_pendingTicks {ctx : Context Task ModuleRef Params} {tick : Time} :
    tick ∈ ctx.pendingTicks ↔ ctx.tasksAt tick ≠ [] := by
  rw [pendingTicks, Multiset.mem_toFinset, Multiset.mem_map, List.ne_nil_iff_exists_cons]
  constructor
  · rintro ⟨⟨tick, task⟩, member, rfl⟩
    have inside := mem_stored.mp member
    exact List.exists_cons_of_ne_nil (List.ne_nil_of_mem inside)
  · rintro ⟨first, rest, tasks⟩
    refine ⟨(tick, first), mem_stored.mpr ?_, rfl⟩
    rw [tasks]
    exact List.mem_cons_self

/-- A tick with tasks is a key. -/
theorem mem_scheduledTasks_of_pending {ctx : Context Task ModuleRef Params} {tick : Time}
    (pending : ctx.tasksAt tick ≠ []) : tick ∈ ctx.scheduledTasks := by
  by_contra absent
  apply pending
  rw [tasksAt, AList.lookup_eq_none.mpr absent]
  rfl

theorem onlyPending_iff {ctx : Context Task ModuleRef Params} :
    ctx.OnlyPending ↔ ∀ tick ∈ ctx.scheduledTasks, ctx.tasksAt tick ≠ [] := by
  refine ⟨OnlyPending.pending, fun pending => ⟨pending, ?_⟩⟩
  have same : ctx.scheduledTasks.keys.toFinset = ctx.pendingTicks := by
    ext tick
    rw [List.mem_toFinset, mem_pendingTicks]
    exact ⟨pending tick, mem_scheduledTasks_of_pending⟩
  rw [← same]
  exact (List.toFinset_card_of_nodup ctx.scheduledTasks.keys_nodup).symm

/-- The end of a tick leaves its key without a task. -/
theorem not_onlyPending_finishTick (ctx : Context Task ModuleRef Params) (tick : Time) :
    ¬ (ctx.finishTick tick).OnlyPending := by
  intro only
  apply only.pending tick (AList.mem_insert _ |>.mpr (.inl rfl))
  rw [tasksAt_finishTick, if_pos rfl]

theorem OnlyPending.congr {ctx other : Context Task ModuleRef Params} (only : ctx.OnlyPending)
    (same : other.scheduledTasks = ctx.scheduledTasks) : other.OnlyPending := by
  simp only [onlyPending_iff, tasksAt, same]
  exact only.pending

theorem mem_scheduledTasks_scheduleAt (ctx : Context Task ModuleRef Params) (timeTarget : Time)
    (callable : Task) (tick : Time) :
    tick ∈ (ctx.scheduleAt timeTarget callable).scheduledTasks ↔
      tick = timeTarget ∨ tick ∈ ctx.scheduledTasks := by
  rw [scheduledTasks_scheduleAt]
  exact AList.mem_insert _

theorem OnlyPending.scheduleAt {ctx : Context Task ModuleRef Params} (only : ctx.OnlyPending)
    (timeTarget : Time) (callable : Task) : (ctx.scheduleAt timeTarget callable).OnlyPending := by
  rw [onlyPending_iff]
  intro tick member
  rw [tasksAt_scheduleAt]
  split
  next => simp
  next apart =>
    rw [mem_scheduledTasks_scheduleAt] at member
    exact only.pending tick (member.resolve_left apart)

end Context

namespace Session

variable {before after : Session Task ModuleRef Params World} {allowed : Time → Prop}

theorem Schedules.onlyPending (schedules : Schedules allowed before after)
    (initially : before.ctx.OnlyPending) : after.ctx.OnlyPending := by
  induction schedules with
  | refl => exact initially
  | frame _ _ _ induction => exact induction
  | scheduleAt callable _ _ induction => exact induction.scheduleAt _ callable

/-- The keys are those of before and the ticks that are recorded as scheduled. -/
theorem Schedules.mem_scheduledTasks (schedules : Schedules allowed before after)
    (initially : ∀ tick, tick ∈ before.ctx.scheduledTasks ↔ tick ∈ before.scheduled.map Prod.fst)
    (tick : Time) :
    tick ∈ after.ctx.scheduledTasks ↔ tick ∈ after.scheduled.map Prod.fst := by
  induction schedules with
  | refl => exact initially tick
  | frame _ _ _ induction => exact induction
  | @scheduleAt after timeTarget callable _ _ induction =>
      change tick ∈ (after.ctx.scheduleAt timeTarget callable).scheduledTasks ↔
        tick ∈ (after.scheduled ++ [(timeTarget, callable)]).map Prod.fst
      rw [Context.mem_scheduledTasks_scheduleAt, induction, List.map_append, List.mem_append]
      simp [or_comm]

end Session

namespace Config

variable {behaviour : Behaviour Task ModuleRef Params World} {world : World}
  {before after config : Config Task ModuleRef Params World}
  {event : Event Task ModuleRef Params}
  {steps : List (Transition (Config Task ModuleRef Params World)
    (Event Task ModuleRef Params))}

open Session in
/-- Every step but a pass of the loop makes schedule calls, and leaves the task map alone
otherwise. -/
theorem exists_schedules_of_step [DecidableEq ModuleRef] (step : Step behaviour before event after)
    (other : event ≠ .pass) :
    ∃ middle, Schedules (fun _ => True) before.session middle ∧
      after.session.ctx.scheduledTasks = middle.ctx.scheduledTasks ∧
      after.session.scheduled = middle.scheduled := by
  have initialized : ∀ session : Session Task ModuleRef Params World,
      ∃ middle, Schedules (fun _ => True) session middle ∧
        (session.initializeContext behaviour).1.ctx.scheduledTasks = middle.ctx.scheduledTasks ∧
        (session.initializeContext behaviour).1.scheduled = middle.scheduled := fun session =>
    ⟨_, (schedules_initializeModules behaviour session.ctx.modules (session, .ok none)).1, rfl, rfl⟩
  cases step with
  | request session request =>
      have one : Schedules (fun _ => True) session ([request].foldl Session.request session) :=
        schedules_requests fun _ _ => trivial
      exact ⟨_, one, rfl, rfl⟩
  | add | remove => exact ⟨_, .refl, rfl, rfl⟩
  | initializes session => exact initialized session
  | @runFails session failed status finalTime begins =>
      obtain ⟨-, -, result⟩ := beginRun_error begins
      rw [(Prod.mk.inj result).1]
      exact initialized session
  | @runBegins session begun finalTime begins =>
      rcases beginRun_ok begins with ⟨-, -, rfl⟩ | ⟨-, rfl⟩
      · exact initialized session
      · exact ⟨_, .refl, rfl, rfl⟩
  | pass => exact (other rfl).elim
  | runReturns returns =>
      rcases loopBody_inr returns with ⟨-, -, rfl⟩ | ⟨-, -, -, rfl⟩
      · exact ⟨_, .refl, rfl, rfl⟩
      · exact ⟨_, .refl, rfl, rfl⟩

/-- A pass of the loop is the one step that leaves a tick without a task. -/
theorem onlyPending_step_iff [DecidableEq ModuleRef] (step : Step behaviour before event after)
    (only : before.session.ctx.OnlyPending) :
    after.session.ctx.OnlyPending ↔ event ≠ .pass := by
  constructor
  · rintro still rfl
    cases step with
    | pass passes =>
        obtain ⟨-, -, rfl⟩ := Session.loopBody_inl passes
        exact Context.not_onlyPending_finishTick _ _ still
  · intro other
    obtain ⟨middle, schedules, same, -⟩ := exists_schedules_of_step step other
    exact (schedules.onlyPending only).congr same

/-- The keys of the task map are the ticks that were ever scheduled. -/
structure Keyed (config : Config Task ModuleRef Params World) : Prop where
  sound : config.Sound
  keys : ∀ tick, tick ∈ config.session.ctx.scheduledTasks ↔
    tick ∈ config.session.scheduled.map Prod.fst

theorem keyed_new (world : World) :
    Keyed ⟨(Session.new world : Session Task ModuleRef Params World), none⟩ where
  sound := sound_new world
  keys tick := by simp [Session.new, Context.new]

/-- A pass finds the tick that it ends among the keys. -/
theorem Keyed.step [DecidableEq ModuleRef] (keyed : before.Keyed)
    (asserted : before.Asserted behaviour event) (step : Step behaviour before event after) :
    after.Keyed := by
  refine ⟨sound_step keyed.sound asserted step, fun tick => ?_⟩
  by_cases passes : event = .pass
  · subst passes
    cases step with
    | @pass session next finalTime passes =>
        obtain ⟨occupied, -, rfl⟩ := Session.loopBody_inl passes
        have schedules := Session.schedules_runTick asserted
        have keys := schedules.mem_scheduledTasks keyed.keys
        have pending := keyed.sound.consistent.synced.tasksAt_nextTick_ne_nil keyed.sound.started
          occupied
        have head : session.ctx.nextTick ∈
            (session.runTick behaviour session.ctx.nextTick).ctx.scheduledTasks := by
          apply Context.mem_scheduledTasks_of_pending
          rw [schedules.tasksAt_eq (lt_irrefl _)]
          exact pending
        refine (AList.mem_insert _).trans (Iff.trans (or_iff_right_of_imp ?_) (keys tick))
        rintro rfl
        exact head
  · obtain ⟨middle, schedules, sameKeys, sameRecord⟩ := exists_schedules_of_step step passes
    rw [sameKeys, sameRecord]
    exact schedules.mem_scheduledTasks keyed.keys tick

/-- In a history that meets the assertions no entry is removed from the task map: it has as many as
different ticks were ever scheduled. -/
theorem length_scheduledTasks [DecidableEq ModuleRef]
    (history : History behaviour world steps config)
    (asserted : ∀ step ∈ steps, step.source.Asserted behaviour step.label) :
    config.session.ctx.scheduledTasks.keys.length =
      (config.session.scheduled.map Prod.fst).toFinset.card := by
  have keyed : config.Keyed := (history.invariant (keyed_new world) fun step member before =>
    before.step (asserted step member) (history.step_of_mem member)).1
  rw [← List.toFinset_card_of_nodup config.session.ctx.scheduledTasks.keys_nodup]
  congr 1
  ext tick
  rw [List.mem_toFinset, List.mem_toFinset]
  exact keyed.keys tick

/-- In every history the map holds nothing but pending ticks after each step if and only if no pass
of the loop runs a tick. -/
theorem onlyPending_throughout_iff [DecidableEq ModuleRef]
    (history : History behaviour world steps config) :
    (∀ step ∈ steps, step.target.session.ctx.OnlyPending) ↔
      ∀ step ∈ steps, step.label ≠ .pass := by
  have initially : (Session.new world : Session Task ModuleRef Params World).ctx.OnlyPending :=
    ⟨fun tick member => (AList.notMem_empty tick member).elim, rfl⟩
  exact history.forall_target_iff_of_step initially fun _ _ _ step only =>
    onlyPending_step_iff step only

/-- A history without a pass: tasks are scheduled, also after the context has been initialized. -/
theorem onlyPending_throughout_iff_scheduled :
    ∃ steps config, History (Behaviour.quiet : Behaviour ℕ Unit Unit Unit) () steps config ∧
      config.session.ctx.scheduledTasks.keys.length = 2 ∧
      ((∀ step ∈ steps, step.target.session.ctx.OnlyPending) ↔
        ∀ step ∈ steps, step.label ≠ .pass) := by
  obtain ⟨steps, config, history, length⟩ :=
    exists_path_of_execute (Behaviour.quiet : Behaviour ℕ Unit Unit Unit)
      ⟨Session.new (), none⟩ [.request (.scheduleAt ⟨3⟩ 0), .initializes,
        .request (.scheduleAt ⟨7⟩ 1), .request (.scheduleAt ⟨3⟩ 2)]
      (fun result => result.2.session.ctx.scheduledTasks.keys.length = 2) (by decide)
  exact ⟨steps, config, history, length, onlyPending_throughout_iff history⟩

/-- After a run of two ticks the map has two entries and there is no pending tick. -/
theorem not_onlyPending_after_run :
    ∃ steps config, History (Behaviour.quiet : Behaviour ℕ Unit Unit Unit) () steps config ∧
      (∀ step ∈ steps, step.source.Asserted Behaviour.quiet step.label) ∧
      config.session.ctx.scheduledTasks.keys.length = 2 ∧
      config.session.ctx.pendingTicks.card = 0 ∧
      ¬ config.session.ctx.OnlyPending := by
  obtain ⟨steps, config, history, asserted, length, vacant⟩ :=
    exists_path_of_execute (Behaviour.quiet : Behaviour ℕ Unit Unit Unit)
      ⟨Session.new (), none⟩ [.request (.scheduleAt ⟨3⟩ 0), .request (.scheduleAt ⟨7⟩ 1),
        .runAt ⟨9⟩, .pass, .pass, .pass]
      (fun result => (∀ step ∈ result.1, step.source.Asserted Behaviour.quiet step.label) ∧
        result.2.session.ctx.scheduledTasks.keys.length = 2 ∧
        result.2.session.ctx.pendingTicks.card = 0) (by decide)
  refine ⟨steps, config, history, asserted, length, vacant, fun only => ?_⟩
  rw [only.size, vacant] at length
  cases length

end Config
end Simo
