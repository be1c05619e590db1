import Simo.Core.Conservation

/-!
# Events in time order

The radix heap is a priority queue only for callers that never push below its head.  Tasks meet
this by themselves: they run at the head and schedule for later ticks.  A schedule call between two
runs need not, because `schedule_at` compares its target with the clock and not with the head.
`Config.Forward` is the missing condition.  Histories that meet it execute their tasks in time
order and leave no due task behind; one call that does not is enough to break both.
-/

namespace Simo

variable {Task ModuleRef Params World : Type*}

theorem Time.zero_le (t : Time) : Time.zero ≤ t := by
  rw [Time.le_iff, UInt64.le_iff_toNat_le]
  exact Nat.zero_le _

namespace Context

/-- The head of the heap is the earliest pending tick, and not before the clock. -/
structure Timely (ctx : Context Task ModuleRef Params) : Prop where
  ordered : ctx.nextTickHeap.Ordered
  ahead : ctx.nextTickHeap.empty = false → ctx.currentTime ≤ ctx.nextTick
  origin : ctx.state = .initialization → ctx.currentTime = .zero

theorem timely_new : (new : Context Task ModuleRef Params).Timely where
  ordered := RadixHeap.ordered_new
  ahead occupied := by simp [new, RadixHeap.new, RadixHeap.empty] at occupied
  origin _ := rfl

theorem Timely.scheduleAt {ctx : Context Task ModuleRef Params} (timely : ctx.Timely)
    (valid : ctx.nextTickHeap.Valid) {timeTarget : Time} (callable : Task)
    (later : ctx.state = .initialization ∨ ctx.currentTime < timeTarget)
    (forward : ctx.state = .initialization ∨ ctx.nextTickHeap.empty = true ∨
      ctx.nextTick ≤ timeTarget) :
    (ctx.scheduleAt timeTarget callable).Timely := by
  have heap := nextTickHeap_scheduleAt ctx timeTarget callable
  split_ifs at heap with pushes
  · have later := later.resolve_left pushes.1
    have forward := forward.resolve_left pushes.1
    refine ⟨?_, fun _ => ?_, fun waiting => ?_⟩
    · rw [heap]
      exact RadixHeap.ordered_push valid timely.ordered forward
    · rw [currentTime_scheduleAt, nextTick, heap]
      rcases Nat.eq_zero_or_pos ctx.nextTickHeap.sizeVal with vacant | occupied
      · rw [RadixHeap.peek_push_of_empty valid vacant]
        exact later.le
      · rw [RadixHeap.peek_push_of_nonempty valid occupied]
        exact timely.ahead (by simpa [RadixHeap.empty, Nat.pos_iff_ne_zero] using occupied)
    · rw [state_scheduleAt] at waiting
      exact (pushes.1 waiting).elim
  · refine ⟨heap ▸ timely.ordered, ?_, ?_⟩
    · rw [currentTime_scheduleAt, nextTick, heap]
      exact timely.ahead
    · rw [state_scheduleAt, currentTime_scheduleAt]
      exact timely.origin

/-- Pushing in increasing order keeps the head least. -/
theorem ordered_foldl_push (times : List Time) (sorted : times.Pairwise (· ≤ ·))
    (heap : RadixHeap) (valid : heap.Valid) (ordered : heap.Ordered)
    (above : heap.empty = true ∨ ∀ t ∈ times, heap.peek ≤ t.picoseconds) :
    (times.foldl (fun heap t => heap.push t.picoseconds) heap).Ordered := by
  induction times generalizing heap with
  | nil => exact ordered
  | cons time times induction =>
      obtain ⟨first, rest⟩ := List.pairwise_cons.mp sorted
      refine induction rest _ (RadixHeap.valid_push valid _)
        (RadixHeap.ordered_push valid ordered (above.imp_right fun all => all _ List.mem_cons_self))
        (.inr fun t member => ?_)
      rcases Nat.eq_zero_or_pos heap.sizeVal with vacant | occupied
      · rw [RadixHeap.peek_push_of_empty valid vacant]
        exact first t member
      · rw [RadixHeap.peek_push_of_nonempty valid occupied]
        rcases above with vacant | all
        · simp [RadixHeap.empty] at vacant
          omega
        · exact all t (List.mem_cons_of_mem _ member)

theorem Timely.pushTimes {ctx : Context Task ModuleRef Params} (timely : ctx.Timely)
    (synced : ctx.Synced) (waiting : ctx.state = .initialization) {state : State}
    (started : state ≠ .initialization) :
    Timely { ctx.pushTimes with state := state } where
  ordered := by
    have vacant := (RadixHeap.empty_iff synced.valid).mpr (synced.fresh waiting).1
    exact ordered_foldl_push _ (List.pairwise_insertionSort _ _) _ synced.valid timely.ordered
      (.inl vacant)
  ahead _ := (timely.origin waiting).le.trans (Time.zero_le _)
  origin waits := (started waits).elim

/-- After its tasks have run, the head makes way for the least remaining tick. -/
theorem Timely.finishTick {ctx : Context Task ModuleRef Params} (timely : ctx.Timely)
    (valid : ctx.nextTickHeap.Valid) (occupied : ctx.nextTickHeap.empty = false)
    (started : ctx.state ≠ .initialization) (now : ctx.currentTime = ctx.nextTick) :
    (ctx.finishTick ctx.nextTick).Timely where
  ordered := RadixHeap.ordered_pop valid timely.ordered occupied
  ahead left := by
    have remains := RadixHeap.peek_mem (RadixHeap.valid_pop valid occupied) left
    have pending : ctx.nextTickHeap.pop.peek ∈ ctx.nextTickHeap.contents := by
      rw [RadixHeap.contents_pop valid occupied]
      exact Multiset.mem_cons_of_mem remains
    change ctx.currentTime ≤ _
    rw [now]
    exact timely.ordered _ pending
  origin waiting := (started waiting).elim

/-- Every tick with tasks is at or after the head of the heap. -/
theorem Timely.nextTick_le {ctx : Context Task ModuleRef Params} (timely : ctx.Timely)
    (synced : ctx.Synced) (started : ctx.state ≠ .initialization) {tick : Time}
    (filled : ctx.tasksAt tick ≠ []) : ctx.nextTick ≤ tick := by
  have count := synced.count started tick
  rw [if_neg filled] at count
  exact timely.ordered _ (Multiset.count_pos.mp (count ▸ Nat.one_pos))

end Context

namespace Session

/-- Tasks that run at the head and schedule for later ticks keep the head where it is. -/
theorem Schedules.timely {tick : Time} {before after : Session Task ModuleRef Params World}
    (schedules : Schedules (tick < ·) before after) (initially : before.ctx.Timely)
    (valid : before.ctx.nextTickHeap.Valid) (occupied : before.ctx.nextTickHeap.empty = false)
    (head : before.ctx.nextTick = tick) (now : before.ctx.currentTime = tick) :
    after.ctx.Timely := by
  induction schedules with
  | refl => exact initially
  | frame _ _ _ induction => exact induction
  | scheduleAt callable earlier permitted induction =>
      have here := (earlier.nextTick_eq valid occupied).2.trans head
      refine induction.scheduleAt (earlier.valid valid) callable (.inr ?_) (.inr (.inr ?_))
      · exact (earlier.currentTime_eq.trans now).trans_lt permitted
      · exact here.trans_le permitted.le

/-- Before initialization scheduling leaves the heap alone. -/
theorem Schedules.timely_of_waiting {allowed : Time → Prop}
    {before after : Session Task ModuleRef Params World}
    (schedules : Schedules allowed before after) (initially : before.ctx.Timely)
    (valid : before.ctx.nextTickHeap.Valid) (waiting : before.ctx.state = .initialization) :
    after.ctx.Timely := by
  induction schedules with
  | refl => exact initially
  | frame _ _ _ induction => exact induction
  | scheduleAt callable earlier _ induction =>
      have still := earlier.state_eq.trans waiting
      exact induction.scheduleAt (earlier.valid valid) callable (.inl still) (.inl still)

/-- Tasks have been run in time order, none of them after the clock. -/
structure Chronological (session : Session Task ModuleRef Params World) : Prop where
  timely : session.ctx.Timely
  sorted : (session.executed.map Prod.fst).Pairwise (· ≤ ·)
  past : ∀ entry ∈ session.executed, entry.1 ≤ session.ctx.currentTime

theorem chronological_new (world : World) :
    (new world : Session Task ModuleRef Params World).Chronological where
  timely := Context.timely_new
  sorted := .nil
  past _ member := (List.not_mem_nil member).elim

theorem Chronological.scheduleAt {session : Session Task ModuleRef Params World}
    (chronological : session.Chronological) (valid : session.ctx.nextTickHeap.Valid)
    {timeTarget : Time} (callable : Task)
    (later : session.ctx.state = .initialization ∨ session.ctx.currentTime < timeTarget)
    (forward : session.ctx.state = .initialization ∨ session.ctx.nextTickHeap.empty = true ∨
      session.ctx.nextTick ≤ timeTarget) :
    (session.scheduleAt timeTarget callable).Chronological where
  timely := chronological.timely.scheduleAt valid callable later forward
  sorted := chronological.sorted
  past entry member := (chronological.past entry member).trans
    (Context.currentTime_scheduleAt session.ctx timeTarget callable).ge

theorem Chronological.withModules {session : Session Task ModuleRef Params World}
    (chronological : session.Chronological) (modules : List (ModuleRef × Params)) :
    Chronological { session with ctx := { session.ctx with modules := modules } } :=
  ⟨⟨chronological.timely.ordered, chronological.timely.ahead, chronological.timely.origin⟩,
    chronological.sorted, chronological.past⟩

theorem Chronological.withState {session : Session Task ModuleRef Params World}
    (chronological : session.Chronological) {state : State} (still : state ≠ .initialization) :
    Chronological { session with ctx := { session.ctx with state := state } } :=
  ⟨⟨chronological.timely.ordered, chronological.timely.ahead, fun waiting => (still waiting).elim⟩,
    chronological.sorted, chronological.past⟩

/-- The clock may advance as long as it does not pass the head. -/
theorem Chronological.withTime {session : Session Task ModuleRef Params World}
    (chronological : session.Chronological) (started : session.ctx.state ≠ .initialization)
    {finalTime : Time} (within : session.ctx.currentTime ≤ finalTime)
    (beyond : finalTime ≤ session.ctx.nextTick) :
    Chronological { session with ctx := { session.ctx with currentTime := finalTime } } :=
  ⟨⟨chronological.timely.ordered, fun _ => beyond, fun waiting => (started waiting).elim⟩,
    chronological.sorted, fun entry member => (chronological.past entry member).trans within⟩

theorem Chronological.initializeContext {session : Session Task ModuleRef Params World}
    (chronological : session.Chronological) (consistent : session.Consistent)
    (waiting : session.ctx.state = .initialization)
    (behaviour : Behaviour Task ModuleRef Params World) :
    (session.initializeContext behaviour).1.Chronological := by
  obtain ⟨schedules, kept⟩ :=
    schedules_initializeModules behaviour session.ctx.modules (session, .ok none)
  have still := schedules.state_eq.trans waiting
  have executed : (session.initializeContext behaviour).1.executed = session.executed := kept
  refine ⟨?_, ?_, ?_⟩
  · refine (schedules.timely_of_waiting chronological.timely consistent.synced.valid
      waiting).pushTimes (schedules.synced consistent.synced) still ?_
    split <;> simp
  · rw [executed]
    exact chronological.sorted
  · rw [executed, currentTime_initializeContext]
    exact chronological.past

/-- A pass of the loop advances the clock to the head and keeps the heap in order. -/
theorem timely_pass {behaviour : Behaviour Task ModuleRef Params World}
    {session next : Session Task ModuleRef Params World} {finalTime : Time}
    (timely : session.ctx.Timely) (valid : session.ctx.nextTickHeap.Valid)
    (started : session.ctx.state ≠ .initialization)
    (asserted : behaviour.MeetsAssertion session.ctx.nextTick
      (session.ctx.tasksAt session.ctx.nextTick) session.world)
    (passes : session.loopBody behaviour finalTime = .inl next) :
    next.ctx.Timely ∧ next.ctx.currentTime = session.ctx.nextTick := by
  obtain ⟨occupied, -, rfl⟩ := loopBody_inl passes
  have schedules := schedules_runTick asserted
  obtain ⟨still, head⟩ := schedules.nextTick_eq valid occupied
  have clock : (session.runTick behaviour session.ctx.nextTick).ctx.currentTime =
      session.ctx.nextTick := schedules.currentTime_eq
  have atHead : Context.Timely { session.ctx with currentTime := session.ctx.nextTick } :=
    ⟨timely.ordered, fun _ => le_rfl, fun waiting => (started waiting).elim⟩
  have finished := (schedules.timely atHead valid occupied rfl rfl).finishTick
    (schedules.valid valid) still (schedules.state_eq.trans_ne started) (clock.trans head.symm)
  rw [head] at finished
  exact ⟨finished, clock⟩

/-- A pass of the loop runs tasks no earlier than all before it. -/
theorem Chronological.pass {behaviour : Behaviour Task ModuleRef Params World}
    {session next : Session Task ModuleRef Params World} {finalTime : Time}
    (chronological : session.Chronological) (consistent : session.Consistent)
    (started : session.ctx.state ≠ .initialization)
    (asserted : behaviour.MeetsAssertion session.ctx.nextTick
      (session.ctx.tasksAt session.ctx.nextTick) session.world)
    (passes : session.loopBody behaviour finalTime = .inl next) :
    next.Chronological ∧ session.ctx.currentTime ≤ next.ctx.currentTime ∧
      next.ctx.currentTime ≤ finalTime := by
  obtain ⟨timely, clock⟩ := timely_pass chronological.timely consistent.synced.valid started
    asserted passes
  obtain ⟨occupied, within, rfl⟩ := loopBody_inl passes
  have advance := chronological.timely.ahead occupied
  have executed : (session.runTick behaviour session.ctx.nextTick).executed =
      session.executed ++ (session.ctx.tasksAt session.ctx.nextTick).map
        (Prod.mk session.ctx.nextTick) := executed_runTick behaviour _ session
  refine ⟨⟨timely, ?_, ?_⟩, advance.trans clock.ge, clock.trans_le within⟩
  · rw [executed, List.map_append, List.map_map]
    refine List.pairwise_append.mpr ⟨chronological.sorted, ?_, ?_⟩
    · exact List.pairwise_map.mpr (List.pairwise_of_forall fun _ _ => le_rfl)
    · intro early member late run
      obtain ⟨entry, executed, rfl⟩ := List.mem_map.mp member
      obtain ⟨task, -, rfl⟩ := List.mem_map.mp run
      exact (chronological.past entry executed).trans advance
  · rw [executed, clock]
    intro entry member
    rcases List.mem_append.mp member with early | late
    · exact (chronological.past entry early).trans advance
    · obtain ⟨task, -, rfl⟩ := List.mem_map.mp late
      exact le_rfl

/-- When a run returns, whatever is still stored lies beyond its final time. -/
theorem Chronological.beyond_of_returns {behaviour : Behaviour Task ModuleRef Params World}
    {session final : Session Task ModuleRef Params World} {finalTime : Time} {status : RunStatus}
    (chronological : session.Chronological) (consistent : session.Consistent)
    (started : session.ctx.state ≠ .initialization)
    (returns : session.loopBody behaviour finalTime = .inr (final, status)) :
    ∀ entry ∈ final.ctx.stored, finalTime < entry.1 := by
  rintro ⟨tick, task⟩ member
  rcases loopBody_inr returns with ⟨vacant, -, rfl⟩ | ⟨-, beyond, -, rfl⟩
  · have nothing : session.ctx.stored = 0 := consistent.synced.stored_eq_zero started vacant
    change (tick, task) ∈ session.ctx.stored at member
    simp [nothing] at member
  · exact beyond.trans_le (chronological.timely.nextTick_le consistent.synced started
      (List.ne_nil_of_mem (Context.mem_stored.mp member)))

end Session

namespace Config

/-- Outside the initialization phase a schedule call that is made between two runs names no tick
before the earliest pending one. -/
def Forward (config : Config Task ModuleRef Params World) : Event Task ModuleRef Params → Prop
  | .request request =>
      config.session.ctx.state = .initialization ∨
        config.session.ctx.nextTickHeap.empty = true ∨
        config.session.ctx.nextTick ≤ request.target config.session.ctx.currentTime
  | _ => True

/-- The assertion of `run_at`. -/
def RunsLater (config : Config Task ModuleRef Params World) : Event Task ModuleRef Params → Prop
  | .runBegins finalTime => config.session.ctx.currentTime < finalTime
  | _ => True

instance decidableForward (config : Config Task ModuleRef Params World) :
    ∀ event : Event Task ModuleRef Params, Decidable (config.Forward event)
  | .request _ => inferInstanceAs (Decidable (_ ∨ _ ∨ _))
  | .add _ _ | .remove _ | .initializes _ | .runFails _ _ | .runBegins _ | .pass | .runReturns _ =>
      .isTrue trivial

instance decidableRunsLater (config : Config Task ModuleRef Params World) :
    ∀ event : Event Task ModuleRef Params, Decidable (config.RunsLater event)
  | .runBegins _ => inferInstanceAs (Decidable (_ < _))
  | .request _ | .add _ _ | .remove _ | .initializes _ | .runFails _ _ | .pass | .runReturns _ =>
      .isTrue trivial

/-- What holds between any two steps of a forward history. -/
structure Orderly (config : Config Task ModuleRef Params World) : Prop extends Sound config where
  chronological : config.session.Chronological
  within : ∀ finalTime, config.finalTime = some finalTime →
    config.session.ctx.currentTime ≤ finalTime

theorem orderly_new (world : World) :
    Orderly ⟨(Session.new world : Session Task ModuleRef Params World), none⟩ where
  toSound := sound_new world
  chronological := Session.chronological_new world
  within _ impossible := by cases impossible

theorem Orderly.outside {session : Session Task ModuleRef Params World}
    (sound : Sound ⟨session, none⟩) (chronological : session.Chronological) :
    Orderly ⟨session, none⟩ :=
  ⟨sound, chronological, fun _ impossible => by cases impossible⟩

/-- A forward step keeps the order of events, and the clock does not run backwards. -/
theorem orderly_step [DecidableEq ModuleRef] {behaviour : Behaviour Task ModuleRef Params World}
    {before after : Config Task ModuleRef Params World} {event : Event Task ModuleRef Params}
    (orderly : before.Orderly) (asserted : before.Asserted behaviour event)
    (runsLater : before.RunsLater event) (forward : before.Forward event)
    (step : Step behaviour before event after) :
    after.Orderly ∧ before.session.ctx.currentTime ≤ after.session.ctx.currentTime := by
  have sound := sound_step orderly.toSound asserted step
  have consistent := orderly.consistent
  have chronological := orderly.chronological
  cases step with
  | request session request =>
      rw [Session.request_eq] at sound ⊢
      exact ⟨.outside sound (chronological.scheduleAt consistent.synced.valid request.callable
        asserted forward), (Context.currentTime_scheduleAt _ _ _).ge⟩
  | add session module params =>
      exact ⟨.outside sound (chronological.withModules _), le_rfl⟩
  | remove session module =>
      exact ⟨.outside sound (chronological.withModules _), le_rfl⟩
  | initializes session =>
      exact ⟨.outside sound (chronological.initializeContext consistent asserted behaviour),
        (Session.currentTime_initializeContext behaviour session).ge⟩
  | @runFails session failed status finalTime begins =>
      obtain ⟨waiting, -, result⟩ := Session.beginRun_error begins
      obtain rfl := (Prod.mk.inj result).1
      exact ⟨.outside sound (chronological.initializeContext consistent waiting behaviour),
        (Session.currentTime_initializeContext behaviour session).ge⟩
  | @runBegins session begun finalTime begins =>
      rcases Session.beginRun_ok begins with ⟨waiting, -, rfl⟩ | ⟨started, rfl⟩
      · have clock := Session.currentTime_initializeContext behaviour session
        refine ⟨⟨sound, chronological.initializeContext consistent waiting behaviour, ?_⟩, clock.ge⟩
        rintro _ ⟨⟩
        exact clock.trans_le runsLater.le
      · refine ⟨⟨sound, chronological.withState (by decide), ?_⟩, le_rfl⟩
        rintro _ ⟨⟩
        exact runsLater.le
  | @pass session next finalTime passes =>
      obtain ⟨chronological, advance, within⟩ :=
        chronological.pass consistent orderly.started asserted passes
      refine ⟨⟨sound, chronological, ?_⟩, advance⟩
      rintro _ ⟨⟩
      exact within
  | @runReturns session final finalTime status returns =>
      rcases Session.loopBody_inr returns with ⟨-, -, rfl⟩ | ⟨-, beyond, -, rfl⟩
      · exact ⟨.outside sound (chronological.withState (by decide)), le_rfl⟩
      · have within := orderly.within finalTime rfl
        exact ⟨.outside sound (chronological.withTime orderly.started within beyond.le), within⟩

/-- Events never run late and simulated time never runs backwards.  In a history whose calls meet
the assertions of the source, and whose schedule calls between two runs name no tick before the
earliest pending one, tasks are executed in time order, the clock never decreases, and a run leaves
no task behind that was due by its final time. -/
theorem events_in_time_order [DecidableEq ModuleRef]
    {behaviour : Behaviour Task ModuleRef Params World} {world : World}
    {config : Config Task ModuleRef Params World}
    {steps : List (Transition (Config Task ModuleRef Params World)
      (Event Task ModuleRef Params))}
    (history : History behaviour world steps config)
    (asserted : ∀ step ∈ steps, step.source.Asserted behaviour step.label)
    (runsLater : ∀ step ∈ steps, step.source.RunsLater step.label)
    (forward : ∀ step ∈ steps, step.source.Forward step.label) :
    (config.session.executed.map Prod.fst).Pairwise (· ≤ ·) ∧
      (∀ step ∈ steps,
        step.source.session.ctx.currentTime ≤ step.target.session.ctx.currentTime) ∧
      ∀ step ∈ steps, ∀ finalTime status, step.source.finalTime = some finalTime →
        step.label = .runReturns status →
        ∀ entry ∈ step.target.session.ctx.stored, finalTime < entry.1 := by
  have one : ∀ step ∈ steps, step.source.Orderly → step.target.Orderly ∧
      step.source.session.ctx.currentTime ≤ step.target.session.ctx.currentTime :=
    fun step member before => orderly_step before (asserted step member) (runsLater step member)
      (forward step member) (history.step_of_mem member)
  obtain ⟨orderly, around⟩ := history.invariant (orderly_new world) fun step member before =>
    (one step member before).1
  refine ⟨orderly.chronological.sorted, ?_, ?_⟩
  · exact fun step member => (one step member (around step member).1).2
  · rintro ⟨before, event, after⟩ member finalTime status running rfl
    have orderly := (around _ member).1
    cases history.step_of_mem member with
    | @runReturns session final finalTime' status returns =>
        cases running
        have started := orderly.started
        exact orderly.chronological.beyond_of_returns orderly.consistent started returns

/-- A program that schedules tick 12 between two runs, while tick 10 is the head of the heap. -/
def aboveHead : List (Command ℕ Unit Unit) :=
  [.request (.scheduleAt ⟨10⟩ 0), .runAt ⟨5⟩, .pass, .request (.scheduleAt ⟨12⟩ 1), .runAt ⟨20⟩,
    .pass, .pass, .pass]

theorem events_in_time_order_above_head :
    ∃ steps config, History (Behaviour.quiet : Behaviour ℕ Unit Unit Unit) () steps config ∧
      config.session.executed.length = 2 ∧
      (config.session.executed.map Prod.fst).Pairwise (· ≤ ·) ∧
      (∀ step ∈ steps,
        step.source.session.ctx.currentTime ≤ step.target.session.ctx.currentTime) ∧
      ∀ step ∈ steps, ∀ finalTime status, step.source.finalTime = some finalTime →
        step.label = .runReturns status →
        ∀ entry ∈ step.target.session.ctx.stored, finalTime < entry.1 := by
  obtain ⟨steps, config, history, asserted, runsLater, forward, length⟩ :=
    exists_path_of_execute (Behaviour.quiet : Behaviour ℕ Unit Unit Unit)
      ⟨Session.new (), none⟩ aboveHead
      (fun result => (∀ step ∈ result.1, step.source.Asserted Behaviour.quiet step.label) ∧
        (∀ step ∈ result.1, step.source.RunsLater step.label) ∧
        (∀ step ∈ result.1, step.source.Forward step.label) ∧
        result.2.session.executed.length = 2) (by decide)
  exact ⟨steps, config, history, length,
    events_in_time_order history asserted runsLater forward⟩

/-- One schedule call below the head of the heap is enough: a run up to its tick leaves it behind,
whatever happened before. -/
theorem left_behind_of_below_head [DecidableEq ModuleRef]
    (behaviour : Behaviour Task ModuleRef Params World)
    {session : Session Task ModuleRef Params World} (valid : session.ctx.nextTickHeap.Valid)
    (started : session.ctx.state ≠ .initialization)
    (occupied : session.ctx.nextTickHeap.empty = false) (request : Request Task)
    (below : request.target session.ctx.currentTime < session.ctx.nextTick) :
    ∃ scheduled begun final, Step behaviour ⟨session, none⟩ (.request request) ⟨scheduled, none⟩ ∧
      Step behaviour ⟨scheduled, none⟩ (.runBegins (request.target session.ctx.currentTime))
        ⟨begun, some (request.target session.ctx.currentTime)⟩ ∧
      Step behaviour ⟨begun, some (request.target session.ctx.currentTime)⟩
        (.runReturns .eventsInQueue) ⟨final, none⟩ ∧
      (request.target session.ctx.currentTime, request.callable) ∈ final.ctx.stored := by
  have schedules : Session.Schedules (fun _ => True) session (session.request request) := by
    rw [Session.request_eq]
    exact .scheduleAt _ .refl trivial
  obtain ⟨still, head⟩ := schedules.nextTick_eq valid occupied
  have begins := Session.beginRun_of_started behaviour (schedules.state_eq.trans_ne started)
  refine ⟨_, _, _, .request session request, .runBegins _ begins,
    .runReturns (Session.loopBody_of_beyond behaviour still (below.trans_eq head.symm)), ?_⟩
  change _ ∈ (session.request request).ctx.stored
  rw [Session.request_eq]
  change _ ∈ (session.ctx.scheduleAt _ _).stored
  rw [Context.stored_scheduleAt]
  exact Multiset.mem_cons_self _ _

/-- The task for tick 7 of `belowHead` is still pending when `run_at` has returned from tick 8; it
runs after the task for tick 10, and the clock goes back for it. -/
theorem events_late_below_head :
    ∃ steps config, History (Behaviour.quiet : Behaviour ℕ Unit Unit Unit) () steps config ∧
      (∀ step ∈ steps, step.source.Asserted Behaviour.quiet step.label) ∧
      (∀ step ∈ steps, step.source.RunsLater step.label) ∧
      config.session.executed = [(⟨10⟩, 0), (⟨7⟩, 1)] ∧
      (∃ step ∈ steps,
        step.target.session.ctx.currentTime < step.source.session.ctx.currentTime) ∧
      ∃ step ∈ steps, step.source.finalTime = some ⟨8⟩ ∧
        (∃ status, step.label = .runReturns status) ∧
        (⟨7⟩, 1) ∈ step.target.session.ctx.stored := by
  obtain ⟨steps, config, history, asserted, runsLater, executed, backwards, step, member, running,
      returned, pending⟩ :=
    exists_path_of_execute (Behaviour.quiet : Behaviour ℕ Unit Unit Unit)
      ⟨Session.new (), none⟩ belowHead
      (fun result => (∀ step ∈ result.1, step.source.Asserted Behaviour.quiet step.label) ∧
        (∀ step ∈ result.1, step.source.RunsLater step.label) ∧
        result.2.session.executed = [(⟨10⟩, 0), (⟨7⟩, 1)] ∧
        (∃ step ∈ result.1,
          step.target.session.ctx.currentTime < step.source.session.ctx.currentTime) ∧
        ∃ step ∈ result.1, step.source.finalTime = some ⟨8⟩ ∧ step.target.finalTime = none ∧
          (⟨7⟩, 1) ∈ step.target.session.ctx.stored) (by decide)
  refine ⟨steps, config, history, asserted, runsLater, executed, backwards, step, member, running,
    ?_, pending⟩
  have taken := history.step_of_mem member
  obtain ⟨before, event, after⟩ := step
  cases taken with
  | runReturns returns => exact ⟨_, rfl⟩
  | pass => cases returned
  | _ => cases running

end Config
end Simo
