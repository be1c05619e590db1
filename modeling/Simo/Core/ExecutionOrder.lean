import Simo.Core.Chronology
import Simo.Support.StableSort

/-!
# The order of the task calls

The task map is a queue for each tick, so the tasks of one tick are called in the order in which
they were scheduled.  This needs nothing of the heap but that it has every tick with tasks, and it
survives initializing the context again at any time.  Where moreover no schedule call names a tick
below the head of the heap, what a run has called when it returns is a stable sort: the schedule
calls that are due, by their ticks.
-/

namespace Simo

open StableSort

variable {Task ModuleRef Params World : Type*}

/-- The heap has every tick with tasks, possibly more than once and among others. -/
structure Context.Covered (ctx : Context Task ModuleRef Params) : Prop where
  valid : ctx.nextTickHeap.Valid
  covered : ctx.state ≠ .initialization → ∀ tick, ctx.tasksAt tick ≠ [] →
    tick.picoseconds ∈ ctx.nextTickHeap.contents

namespace Context

variable {ctx : Context Task ModuleRef Params}

theorem covered_new : (new : Context Task ModuleRef Params).Covered :=
  ⟨RadixHeap.valid_new, fun started => (started rfl).elim⟩

theorem Covered.scheduleAt (covered : ctx.Covered) (timeTarget : Time) (callable : Task) :
    (ctx.scheduleAt timeTarget callable).Covered where
  valid := valid_scheduleAt ctx timeTarget callable covered.valid
  covered started tick filled := by
    rw [state_scheduleAt] at started
    rw [tasksAt_scheduleAt] at filled
    rw [nextTickHeap_scheduleAt]
    by_cases first : ctx.tasksAt timeTarget = []
    · rw [if_pos ⟨started, first⟩, RadixHeap.contents_push, Multiset.mem_cons]
      split at filled
      next here => exact .inl (congrArg Time.picoseconds here)
      next => exact .inr (covered.covered started tick filled)
    · rw [if_neg fun both => first both.2]
      split at filled
      next here => exact here ▸ covered.covered started timeTarget first
      next => exact covered.covered started tick filled

/-- Initialization covers every tick, whatever was in the heap. -/
theorem Covered.pushTimes (covered : ctx.Covered) (state : State) :
    Covered { ctx.pushTimes with state := state } where
  valid := valid_pushTimes covered.valid
  covered _ tick filled := by
    refine (contents_pushTimes covered.valid).symm ▸ Multiset.mem_add.mpr (.inr ?_)
    refine Multiset.mem_coe.mpr (List.mem_map_of_mem (AList.mem_keys.mp ?_))
    by_contra absent
    refine filled ?_
    change (ctx.scheduledTasks.lookup tick).getD [] = []
    rw [AList.lookup_eq_none.mpr absent, Option.getD_none]

/-- The head is popped together with its tasks. -/
theorem Covered.finishTick (covered : ctx.Covered) (occupied : ctx.nextTickHeap.empty = false) :
    (ctx.finishTick ctx.nextTick).Covered where
  valid := RadixHeap.valid_pop covered.valid occupied
  covered started tick filled := by
    rw [tasksAt_finishTick] at filled
    split at filled
    next => exact (filled rfl).elim
    next apart =>
      have member := covered.covered started tick filled
      rw [RadixHeap.contents_pop covered.valid occupied, Multiset.mem_cons] at member
      exact member.resolve_left fun same => apart (Time.picoseconds_injective same)

theorem Covered.tasksAt_eq_nil (covered : ctx.Covered) (started : ctx.state ≠ .initialization)
    (vacant : ctx.nextTickHeap.empty = true) (tick : Time) : ctx.tasksAt tick = [] := by
  by_contra filled
  have member := covered.covered started tick filled
  rw [(RadixHeap.empty_iff covered.valid).mp vacant] at member
  exact Multiset.notMem_zero _ member

end Context

namespace Session

variable {allowed : Time → Prop} {session before after next : Session Task ModuleRef Params World}
  {behaviour : Behaviour Task ModuleRef Params World} {finalTime : Time}

/-- For every tick, the task calls and the pending tasks are the schedule calls in their order. -/
def InOrder (session : Session Task ModuleRef Params World) : Prop :=
  ∀ tick, withKey Prod.fst tick session.scheduled =
    withKey Prod.fst tick session.executed ++ (session.ctx.tasksAt tick).map (Prod.mk tick)

theorem Schedules.covered (schedules : Schedules allowed before after)
    (initially : before.ctx.Covered) : after.ctx.Covered := by
  induction schedules with
  | refl => exact initially
  | frame _ _ _ induction => exact induction
  | scheduleAt callable _ _ induction => exact induction.scheduleAt _ callable

/-- Schedule calls append to the queues of their ticks. -/
theorem Schedules.exists_added (schedules : Schedules allowed before after) :
    ∃ added, after.scheduled = before.scheduled ++ added ∧ (∀ entry ∈ added, allowed entry.1) ∧
      ∀ tick, (after.ctx.tasksAt tick).map (Prod.mk tick) =
        (before.ctx.tasksAt tick).map (Prod.mk tick) ++ withKey Prod.fst tick added := by
  induction schedules with
  | refl => exact ⟨[], (List.append_nil _).symm, nofun, fun _ => (List.append_nil _).symm⟩
  | frame _ _ _ induction => exact induction
  | @scheduleAt after timeTarget callable _ permitted induction =>
      obtain ⟨added, scheduled, named, queues⟩ := induction
      refine ⟨added ++ [(timeTarget, callable)], ?_, ?_, fun tick => ?_⟩
      · rw [← List.append_assoc, ← scheduled]
        rfl
      · refine List.forall_mem_append.mpr ⟨named, fun entry member => ?_⟩
        rw [List.mem_singleton.mp member]
        exact permitted
      · change ((after.ctx.scheduleAt timeTarget callable).tasksAt tick).map _ = _
        rw [Context.tasksAt_scheduleAt, withKey_append]
        split
        next here =>
          subst here
          have own : withKey Prod.fst tick [(tick, callable)] = [(tick, callable)] :=
            withKey_cons_self (tick, callable) []
          rw [List.map_append, queues, List.append_assoc, own]
          rfl
        next apart =>
          have foreign : withKey Prod.fst tick [(timeTarget, callable)] = [] :=
            withKey_cons_of_ne (Ne.symm apart) []
          rw [queues, foreign, List.append_nil]

theorem InOrder.schedules (inOrder : before.InOrder) (schedules : Schedules allowed before after)
    (kept : after.executed = before.executed) : after.InOrder := by
  obtain ⟨added, scheduled, -, queues⟩ := schedules.exists_added
  intro tick
  rw [scheduled, withKey_append, inOrder, kept, queues, List.append_assoc]

/-- Calls in time order of which none is due any more are the due schedule calls, sorted. -/
theorem InOrder.executed_eq (inOrder : session.InOrder)
    (sorted : (session.executed.map Prod.fst).Pairwise (· ≤ ·))
    (past : ∀ entry ∈ session.executed, entry.1 ≤ finalTime)
    (beyond : ∀ entry ∈ session.ctx.stored, finalTime < entry.1) :
    session.executed =
      sortBy Prod.fst (session.scheduled.filter fun entry => entry.1 ≤ finalTime) := by
  refine eq_sortBy (List.pairwise_map.mp sorted) fun tick => ?_
  by_cases due : tick ≤ finalTime
  · have called : session.ctx.tasksAt tick = [] := by
      by_contra waiting
      obtain ⟨task, member⟩ := List.exists_mem_of_ne_nil _ waiting
      exact (beyond (tick, task) (Context.mem_stored.mpr member)).not_ge due
    have passes : ∀ entry : Time × Task, entry.1 = tick → decide (entry.1 ≤ finalTime) = true :=
      fun entry here => decide_eq_true (here.trans_le due)
    rw [withKey_filter_of_pos passes, inOrder, called, List.map_nil, List.append_nil]
  · have fails : ∀ entry : Time × Task, entry.1 = tick → decide (entry.1 ≤ finalTime) = false :=
      fun entry here => decide_eq_false fun early => due (here.symm.trans_le early)
    rw [withKey_filter_of_neg fails]
    exact withKey_eq_nil fun entry called same => due (same ▸ past entry called)

theorem InOrder.initializeContext (inOrder : session.InOrder)
    (behaviour : Behaviour Task ModuleRef Params World) :
    (session.initializeContext behaviour).1.InOrder := by
  obtain ⟨schedules, kept⟩ :=
    schedules_initializeModules behaviour session.ctx.modules (session, .ok none)
  have initialized := inOrder.schedules schedules kept
  exact initialized

theorem covered_initializeContext (covered : session.ctx.Covered)
    (behaviour : Behaviour Task ModuleRef Params World) :
    (session.initializeContext behaviour).1.ctx.Covered := by
  obtain ⟨schedules, -⟩ :=
    schedules_initializeModules behaviour session.ctx.modules (session, .ok none)
  exact (schedules.covered covered).pushTimes _

/-- A pass calls the tasks of its tick in order, and none of them is for a tick that is already
named by the pass. -/
theorem InOrder.pass (inOrder : session.InOrder)
    (asserted : behaviour.MeetsAssertion session.ctx.nextTick
      (session.ctx.tasksAt session.ctx.nextTick) session.world)
    (passes : session.loopBody behaviour finalTime = .inl next) : next.InOrder := by
  obtain ⟨-, -, rfl⟩ := loopBody_inl passes
  obtain ⟨added, scheduled, later, queues⟩ := (schedules_runTick asserted).exists_added
  intro tick
  dsimp only at scheduled queues ⊢
  rw [scheduled, withKey_append, inOrder, executed_runTick, withKey_append,
    Context.tasksAt_finishTick]
  split
  next here =>
    subst here
    have unnamed : withKey Prod.fst session.ctx.nextTick added = [] :=
      withKey_eq_nil fun entry member => (later entry member).ne'
    have called : withKey Prod.fst session.ctx.nextTick
        ((session.ctx.tasksAt session.ctx.nextTick).map (Prod.mk session.ctx.nextTick)) =
          (session.ctx.tasksAt session.ctx.nextTick).map (Prod.mk session.ctx.nextTick) :=
      withKey_eq_self fun entry member => by
        obtain ⟨task, -, rfl⟩ := List.mem_map.mp member
        rfl
    rw [unnamed, called, List.map_nil]
  next apart =>
    have uncalled : withKey Prod.fst tick
        ((session.ctx.tasksAt session.ctx.nextTick).map (Prod.mk session.ctx.nextTick)) = [] :=
      withKey_eq_nil fun entry member => by
        obtain ⟨task, -, rfl⟩ := List.mem_map.mp member
        exact Ne.symm apart
    rw [uncalled, List.append_nil, List.append_assoc]
    exact congrArg _ (queues tick).symm

theorem covered_pass (covered : session.ctx.Covered)
    (asserted : behaviour.MeetsAssertion session.ctx.nextTick
      (session.ctx.tasksAt session.ctx.nextTick) session.world)
    (passes : session.loopBody behaviour finalTime = .inl next) : next.ctx.Covered := by
  obtain ⟨occupied, -, rfl⟩ := loopBody_inl passes
  have schedules := schedules_runTick asserted
  obtain ⟨still, head⟩ := schedules.nextTick_eq covered.valid occupied
  have clock : Context.Covered { session.ctx with currentTime := session.ctx.nextTick } :=
    ⟨covered.valid, covered.covered⟩
  have finished := (schedules.covered clock).finishTick still
  rwa [head] at finished

end Session

namespace Config

/-- What holds between any two steps, however often the context is initialized. -/
structure Steady (config : Config Task ModuleRef Params World) : Prop where
  inOrder : config.session.InOrder
  covered : config.session.ctx.Covered
  running : config.finalTime ≠ none → config.session.ctx.state = .running

theorem steady_new (world : World) :
    Steady ⟨(Session.new world : Session Task ModuleRef Params World), none⟩ where
  inOrder _ := rfl
  covered := Context.covered_new
  running inLoop := (inLoop rfl).elim

variable [DecidableEq ModuleRef] {behaviour : Behaviour Task ModuleRef Params World}
  {before after config : Config Task ModuleRef Params World} {event : Event Task ModuleRef Params}
  {world : World} {steps : List (Transition (Config Task ModuleRef Params World)
    (Event Task ModuleRef Params))}

theorem steady_step (steady : before.Steady)
    (asserted : event = .pass → before.Asserted behaviour event)
    (step : Step behaviour before event after) : after.Steady := by
  obtain ⟨inOrder, covered, running⟩ := steady
  cases step with
  | request session request =>
      have schedules : Session.Schedules (fun _ => True) session (session.request request) := by
        rw [Session.request_eq]
        exact .scheduleAt _ .refl trivial
      refine ⟨inOrder.schedules schedules ?_, schedules.covered covered,
        fun inLoop => (inLoop rfl).elim⟩
      rw [Session.request_eq]
      rfl
  | add session module params =>
      exact ⟨inOrder, ⟨covered.valid, covered.covered⟩, running⟩
  | remove session module =>
      exact ⟨inOrder, ⟨covered.valid, covered.covered⟩, running⟩
  | initializes session =>
      exact ⟨inOrder.initializeContext behaviour,
        Session.covered_initializeContext covered behaviour, fun inLoop => (inLoop rfl).elim⟩
  | @runFails session failed status finalTime begins =>
      obtain ⟨-, -, result⟩ := Session.beginRun_error begins
      obtain rfl := (Prod.mk.inj result).1
      exact ⟨inOrder.initializeContext behaviour,
        Session.covered_initializeContext covered behaviour, fun inLoop => (inLoop rfl).elim⟩
  | @runBegins session begun finalTime begins =>
      have state := Session.state_of_beginRun begins
      rcases Session.beginRun_ok begins with ⟨-, -, rfl⟩ | ⟨started, rfl⟩
      · exact ⟨inOrder.initializeContext behaviour,
          Session.covered_initializeContext covered behaviour, fun _ => state⟩
      · exact ⟨inOrder, ⟨covered.valid, fun _ => covered.covered started⟩, fun _ => state⟩
  | @pass session next finalTime passes =>
      have meets := asserted rfl
      exact ⟨inOrder.pass meets passes, Session.covered_pass covered meets passes,
        fun _ => (Session.state_pass passes).trans (running nofun)⟩
  | @runReturns session final finalTime status returns =>
      have started : session.ctx.state ≠ .initialization := (running nofun).trans_ne nofun
      rcases Session.loopBody_inr returns with ⟨-, -, rfl⟩ | ⟨-, -, -, rfl⟩
      · exact ⟨inOrder, ⟨covered.valid, fun _ => covered.covered started⟩,
          fun inLoop => (inLoop rfl).elim⟩
      · exact ⟨inOrder, ⟨covered.valid, covered.covered⟩, fun inLoop => (inLoop rfl).elim⟩

/-! ## Each tick is a queue -/

/-- However often and whenever the context is initialized, and whatever ticks are named between two
runs: if tasks schedule for later ticks, the calls made for a tick and the tasks pending for it are
the schedule calls for this tick, in their order; and a run that reports `STOPPED` has made every
call once. -/
theorem ticks_are_queues (history : History behaviour world steps config)
    (asserted : ∀ step ∈ steps, step.label = .pass → step.source.Asserted behaviour step.label) :
    (∀ tick, withKey Prod.fst tick config.session.scheduled =
        withKey Prod.fst tick config.session.executed ++
          (config.session.ctx.tasksAt tick).map (Prod.mk tick)) ∧
      ∀ step ∈ steps, step.label = .runReturns .stopped →
        step.target.session.scheduled.Perm step.target.session.executed := by
  obtain ⟨steady, around⟩ := history.invariant (steady_new world) fun step member before =>
    steady_step before (asserted step member) (history.step_of_mem member)
  refine ⟨steady.inOrder, ?_⟩
  rintro ⟨before, event, after⟩ member rfl
  obtain ⟨source, target⟩ := around _ member
  refine perm_of_withKey_eq fun tick => (target.inOrder tick).trans ?_
  cases history.step_of_mem member with
  | @runReturns session final finalTime status returns =>
      have started : session.ctx.state ≠ .initialization := (source.running nofun).trans_ne nofun
      rcases Session.loopBody_inr returns with ⟨vacant, -, rfl⟩ | ⟨-, -, impossible, -⟩
      · have drained := source.covered.tasksAt_eq_nil started vacant tick
        exact (congrArg _ (congrArg (List.map _) drained)).trans (List.append_nil _)
      · cases impossible

/-- A program that initializes the context twice before its run and once after it. -/
def initializedAgain : List (Command ℕ Unit Unit) :=
  [.request (.scheduleAt ⟨10⟩ 0), .request (.scheduleAt ⟨10⟩ 1), .initializes, .initializes,
    .runAt ⟨20⟩, .pass, .pass, .pass, .initializes, .runAt ⟨30⟩, .pass, .pass]

theorem ticks_are_queues_initializedAgain :
    ∃ steps config, History (Behaviour.quiet : Behaviour ℕ Unit Unit Unit) () steps config ∧
      config.session.executed = [(⟨10⟩, 0), (⟨10⟩, 1)] ∧
      (∀ tick, withKey Prod.fst tick config.session.scheduled =
        withKey Prod.fst tick config.session.executed ++
          (config.session.ctx.tasksAt tick).map (Prod.mk tick)) ∧
      ∀ step ∈ steps, step.label = .runReturns .stopped →
        step.target.session.scheduled.Perm step.target.session.executed := by
  obtain ⟨steps, config, history, executed⟩ :=
    exists_path_of_execute (Behaviour.quiet : Behaviour ℕ Unit Unit Unit)
      ⟨Session.new (), none⟩ initializedAgain
      (fun result => result.2.session.executed = [(⟨10⟩, 0), (⟨10⟩, 1)]) (by decide)
  refine ⟨steps, config, history, executed, ticks_are_queues history fun step _ pass => ?_⟩
  rw [pass]
  exact Behaviour.meetsAssertion_of_later
    (fun _ _ _ member => (List.not_mem_nil member).elim) _ _

/-! ## A run is a stable sort -/

/-- In a history whose calls meet the assertions of the source and whose schedule calls between two
runs name no tick before the earliest pending one, the calls that have been made when a run returns
are the schedule calls that are due by its final time, sorted by tick, those for the same tick in
their order; and it reports `STOPPED` if and only if all schedule calls are due. -/
theorem executed_eq_sortBy (history : History behaviour world steps config)
    (asserted : ∀ step ∈ steps, step.source.Asserted behaviour step.label)
    (runsLater : ∀ step ∈ steps, step.source.RunsLater step.label)
    (forward : ∀ step ∈ steps, step.source.Forward step.label) :
    ∀ step ∈ steps, ∀ finalTime status, step.source.finalTime = some finalTime →
      step.label = .runReturns status →
      step.target.session.executed =
          sortBy Prod.fst
            (step.target.session.scheduled.filter fun entry => entry.1 ≤ finalTime) ∧
        (status = .stopped ↔ ∀ entry ∈ step.target.session.scheduled, entry.1 ≤ finalTime) := by
  have orderly := (history.invariant (orderly_new world) fun step member before =>
    (orderly_step before (asserted step member) (runsLater step member) (forward step member)
      (history.step_of_mem member)).1).2
  have steady := (history.invariant (steady_new world) fun step member before =>
    steady_step before (fun _ => asserted step member) (history.step_of_mem member)).2
  rintro ⟨before, event, after⟩ member finalTime status running rfl
  obtain ⟨source, target⟩ := orderly _ member
  have inOrder := (steady _ member).2.inOrder
  cases history.step_of_mem member with
  | @runReturns session final finalTime' status returns =>
      cases running
      have chronological := source.chronological
      have consistent := source.consistent
      have started := source.started
      have beyond := chronological.beyond_of_returns consistent started returns
      have past : ∀ entry ∈ final.executed, entry.1 ≤ finalTime := by
        have within : ∀ entry ∈ session.executed, entry.1 ≤ finalTime := fun entry called =>
          (chronological.past entry called).trans (source.within finalTime rfl)
        rcases Session.loopBody_inr returns with ⟨-, -, rfl⟩ | ⟨-, -, -, rfl⟩
        · exact within
        · exact within
      refine ⟨inOrder.executed_eq target.chronological.sorted past beyond, ?_, ?_⟩
      · rintro rfl entry scheduled
        have drained := stored_of_stopped source.toSound (.runReturns returns)
        have conserved := target.consistent.conserved
        rw [drained, add_zero] at conserved
        exact past entry (Multiset.mem_coe.mp (conserved ▸ Multiset.mem_coe.mpr scheduled))
      · intro due
        rcases Session.loopBody_inr returns with ⟨-, stopped, -⟩ | ⟨occupied, later, -, rfl⟩
        · exact stopped
        · -- the head of the heap has a task, which was scheduled
          obtain ⟨task, waits⟩ := List.exists_mem_of_ne_nil _
            (consistent.synced.tasksAt_nextTick_ne_nil started occupied)
          have scheduled : (session.ctx.nextTick, task) ∈ session.scheduled := by
            rw [← Multiset.mem_coe, consistent.conserved]
            exact Multiset.mem_add.mpr (.inr (Context.mem_stored.mpr waits))
          exact ((due _ scheduled).not_gt later).elim

/-- A program with tasks for the same tick and with a task that schedules another. -/
def sameTick : List (Command ℕ Unit Unit) :=
  [.request (.scheduleAt ⟨3⟩ 0), .request (.scheduleAt ⟨2⟩ 1), .request (.scheduleAt ⟨9⟩ 0),
    .request (.scheduleAt ⟨2⟩ 0), .runAt ⟨5⟩, .pass, .pass, .pass]

theorem executed_eq_sortBy_sameTick :
    ∃ steps config, History Behaviour.countdown () steps config ∧
      config.session.executed = [(⟨2⟩, 1), (⟨2⟩, 0), (⟨3⟩, 0), (⟨3⟩, 0)] ∧
      ∀ step ∈ steps, ∀ finalTime status, step.source.finalTime = some finalTime →
        step.label = .runReturns status →
        step.target.session.executed =
            sortBy Prod.fst
              (step.target.session.scheduled.filter fun entry => entry.1 ≤ finalTime) ∧
          (status = .stopped ↔
            ∀ entry ∈ step.target.session.scheduled, entry.1 ≤ finalTime) := by
  obtain ⟨steps, config, history, asserted, runsLater, forward, executed⟩ :=
    exists_path_of_execute Behaviour.countdown ⟨Session.new (), none⟩ sameTick
      (fun result => (∀ step ∈ result.1, step.source.Asserted Behaviour.countdown step.label) ∧
        (∀ step ∈ result.1, step.source.RunsLater step.label) ∧
        (∀ step ∈ result.1, step.source.Forward step.label) ∧
        result.2.session.executed = [(⟨2⟩, 1), (⟨2⟩, 0), (⟨3⟩, 0), (⟨3⟩, 0)]) (by decide)
  exact ⟨steps, config, history, executed, executed_eq_sortBy history asserted runsLater forward⟩

end Config

end Simo
