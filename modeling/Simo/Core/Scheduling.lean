import Simo.Core.Context

/-!
# What scheduling and running do

One lemma for each operation of the context says what it does to the task map, the heap and the
clock.  Everything that runs in between (requests made by tasks and modules) is a sequence of
`schedule_at` calls: `Session.Schedules` is that sequence, and the invariants of the later files
are proved along it.
-/

namespace Simo

/-! ## The task map -/

/-- Removing a key from an association list takes its images out of the list. -/
theorem flatMap_perm_kerase {κ γ : Type*} {ν : κ → Type*} [DecidableEq κ]
    (image : Sigma ν → List γ) (key : κ) (entries : List (Sigma ν)) :
    (entries.flatMap image).Perm
      (((entries.dlookup key).elim [] fun value => image ⟨key, value⟩) ++
        (entries.kerase key).flatMap image) := by
  induction entries with
  | nil => simp
  | cons entry entries induction =>
      obtain ⟨first, value⟩ := entry
      by_cases same : key = first
      · subst same
        have erased : List.kerase key (⟨key, value⟩ :: entries) = entries :=
          List.kerase_cons_eq rfl
        rw [List.dlookup_cons_eq, erased]
        exact List.Perm.refl _
      · rw [List.dlookup_cons_ne _ _ same, List.kerase_cons_ne same, List.flatMap_cons,
          List.flatMap_cons]
        exact (induction.append_left _).trans (List.perm_append_comm_assoc _ _ _)

namespace Context

variable {Task ModuleRef Params : Type*}

/-- The scheduled tasks with their ticks. -/
def stored (ctx : Context Task ModuleRef Params) : Multiset (Time × Task) :=
  (ctx.scheduledTasks.entries.flatMap fun entry => entry.2.map (Prod.mk entry.1) :
    List (Time × Task))

theorem tasksAt_insert (ctx : Context Task ModuleRef Params) (tick other : Time)
    (tasks : List Task) :
    tasksAt { ctx with scheduledTasks := ctx.scheduledTasks.insert tick tasks } other =
      if other = tick then tasks else ctx.tasksAt other := by
  by_cases same : other = tick
  · subst same
    simp [tasksAt]
  · simp [tasksAt, AList.lookup_insert_ne same, same]

/-- Overwriting the tasks of a tick exchanges them in the multiset of stored tasks. -/
theorem stored_insert (ctx : Context Task ModuleRef Params) (tick : Time) (tasks : List Task) :
    stored { ctx with scheduledTasks := ctx.scheduledTasks.insert tick tasks } +
        ((ctx.tasksAt tick).map (Prod.mk tick) : List (Time × Task)) =
      ctx.stored + (tasks.map (Prod.mk tick) : List (Time × Task)) := by
  have removed := Multiset.coe_eq_coe.mpr
    (flatMap_perm_kerase (fun entry : Sigma fun _ : Time => List Task =>
      entry.2.map (Prod.mk entry.1)) tick ctx.scheduledTasks.entries)
  have found : ((ctx.scheduledTasks.entries.dlookup tick).elim []
      fun value => value.map (Prod.mk tick)) = (ctx.tasksAt tick).map (Prod.mk tick) := by
    rw [tasksAt, AList.lookup]
    cases ctx.scheduledTasks.entries.dlookup tick <;> rfl
  rw [stored, stored, removed, found, AList.entries_insert, List.flatMap_cons,
    ← Multiset.coe_add, ← Multiset.coe_add]
  abel

theorem mem_stored {ctx : Context Task ModuleRef Params} {tick : Time} {task : Task} :
    (tick, task) ∈ ctx.stored ↔ task ∈ ctx.tasksAt tick := by
  simp only [stored, Multiset.mem_coe, List.mem_flatMap, List.mem_map, Prod.mk.injEq, tasksAt]
  constructor
  · rintro ⟨⟨key, tasks⟩, entry, _, member, rfl, rfl⟩
    rw [AList.mem_lookup_iff.mpr entry]
    exact member
  · intro member
    cases found : ctx.scheduledTasks.lookup tick with
    | none => simp [found] at member
    | some tasks =>
        rw [found] at member
        exact ⟨⟨tick, tasks⟩, AList.mem_lookup_iff.mp found, task, member, rfl, rfl⟩

/-! ## `schedule_at` -/

section ScheduleAt

variable (ctx : Context Task ModuleRef Params) (timeTarget : Time) (callable : Task)

@[simp]
theorem state_scheduleAt : (ctx.scheduleAt timeTarget callable).state = ctx.state := by
  simp only [scheduleAt]
  split_ifs <;> rfl

@[simp]
theorem currentTime_scheduleAt :
    (ctx.scheduleAt timeTarget callable).currentTime = ctx.currentTime := by
  simp only [scheduleAt]
  split_ifs <;> rfl

@[simp]
theorem modules_scheduleAt : (ctx.scheduleAt timeTarget callable).modules = ctx.modules := by
  simp only [scheduleAt]
  split_ifs <;> rfl

theorem scheduledTasks_scheduleAt :
    (ctx.scheduleAt timeTarget callable).scheduledTasks =
      ctx.scheduledTasks.insert timeTarget (ctx.tasksAt timeTarget ++ [callable]) := by
  simp only [scheduleAt]
  split_ifs <;> rfl

theorem tasksAt_scheduleAt (tick : Time) :
    (ctx.scheduleAt timeTarget callable).tasksAt tick =
      if tick = timeTarget then ctx.tasksAt timeTarget ++ [callable] else ctx.tasksAt tick := by
  rw [tasksAt, scheduledTasks_scheduleAt]
  exact tasksAt_insert ctx timeTarget tick _

theorem stored_scheduleAt :
    (ctx.scheduleAt timeTarget callable).stored = (timeTarget, callable) ::ₘ ctx.stored := by
  have exchange := stored_insert ctx timeTarget (ctx.tasksAt timeTarget ++ [callable])
  rw [stored, scheduledTasks_scheduleAt]
  refine add_right_cancel (exchange.trans ?_)
  rw [List.map_append, ← Multiset.coe_add, ← add_assoc, add_right_comm, ← Multiset.singleton_add,
    add_comm {(timeTarget, callable)}]
  rfl

/-- Outside the initialization phase a tick enters the heap with its first task. -/
theorem nextTickHeap_scheduleAt :
    (ctx.scheduleAt timeTarget callable).nextTickHeap =
      if ctx.state ≠ .initialization ∧ ctx.tasksAt timeTarget = [] then
        ctx.nextTickHeap.push timeTarget.picoseconds
      else ctx.nextTickHeap := by
  simp only [scheduleAt, List.length_append, List.length_singleton, Nat.add_eq_right,
    List.length_eq_zero_iff]
  split_ifs <;> simp_all

theorem valid_scheduleAt (valid : ctx.nextTickHeap.Valid) :
    (ctx.scheduleAt timeTarget callable).nextTickHeap.Valid := by
  rw [nextTickHeap_scheduleAt]
  split_ifs
  · exact RadixHeap.valid_push valid _
  · exact valid

end ScheduleAt

/-! ## Initialization and the end of a tick -/

theorem foldl_push_spec (times : List Time) (heap : RadixHeap) (valid : heap.Valid) :
    (times.foldl (fun heap t => heap.push t.picoseconds) heap).Valid ∧
      (times.foldl (fun heap t => heap.push t.picoseconds) heap).contents =
        heap.contents + (times.map Time.picoseconds : List UInt64) := by
  induction times generalizing heap with
  | nil => simp [valid]
  | cons time times induction =>
      obtain ⟨stays, pushed⟩ := induction _ (RadixHeap.valid_push valid time.picoseconds)
      refine ⟨stays, ?_⟩
      rw [List.foldl_cons, pushed, RadixHeap.contents_push, List.map_cons, ← Multiset.cons_coe,
        Multiset.cons_add, Multiset.add_cons]

theorem valid_pushTimes {ctx : Context Task ModuleRef Params} (valid : ctx.nextTickHeap.Valid) :
    ctx.pushTimes.nextTickHeap.Valid :=
  (foldl_push_spec _ _ valid).1

theorem contents_pushTimes {ctx : Context Task ModuleRef Params} (valid : ctx.nextTickHeap.Valid) :
    ctx.pushTimes.nextTickHeap.contents =
      ctx.nextTickHeap.contents +
        (ctx.scheduledTasks.keys.map Time.picoseconds : List UInt64) := by
  rw [pushTimes, (foldl_push_spec _ _ valid).2]
  congr 1
  exact Multiset.coe_eq_coe.mpr ((List.perm_insertionSort _ _).map _)

theorem tasksAt_finishTick (ctx : Context Task ModuleRef Params) (tick other : Time) :
    (ctx.finishTick tick).tasksAt other = if other = tick then [] else ctx.tasksAt other :=
  tasksAt_insert ctx tick other []

theorem stored_finishTick (ctx : Context Task ModuleRef Params) (tick : Time) :
    (ctx.finishTick tick).stored +
        ((ctx.tasksAt tick).map (Prod.mk tick) : List (Time × Task)) = ctx.stored := by
  have exchange := stored_insert ctx tick []
  rwa [List.map_nil, Multiset.coe_nil, add_zero] at exchange

end Context

/-! ## Sequences of schedule calls -/

namespace Session

variable {Task ModuleRef Params World : Type*}

/-- `after` is `before` with some `schedule_at` calls for `allowed` ticks made in between; the world
and the record of task calls may have changed as well. -/
inductive Schedules (allowed : Time → Prop) (before : Session Task ModuleRef Params World) :
    Session Task ModuleRef Params World → Prop
  | refl : Schedules allowed before before
  | frame {after : Session Task ModuleRef Params World} (world : World)
      (executed : List (Time × Task)) :
      Schedules allowed before after →
      Schedules allowed before { after with world := world, executed := executed }
  | scheduleAt {after : Session Task ModuleRef Params World} {timeTarget : Time}
      (callable : Task) :
      Schedules allowed before after → allowed timeTarget →
      Schedules allowed before (after.scheduleAt timeTarget callable)

namespace Schedules

variable {allowed : Time → Prop} {before middle after : Session Task ModuleRef Params World}

theorem trans (first : Schedules allowed before middle) (second : Schedules allowed middle after) :
    Schedules allowed before after := by
  induction second with
  | refl => exact first
  | frame world executed _ induction => exact .frame world executed induction
  | scheduleAt callable _ permitted induction => exact .scheduleAt callable induction permitted

theorem state_eq (schedules : Schedules allowed before after) :
    after.ctx.state = before.ctx.state := by
  induction schedules with
  | refl => rfl
  | frame _ _ _ induction => exact induction
  | scheduleAt _ _ _ induction => exact (Context.state_scheduleAt _ _ _).trans induction

theorem currentTime_eq (schedules : Schedules allowed before after) :
    after.ctx.currentTime = before.ctx.currentTime := by
  induction schedules with
  | refl => rfl
  | frame _ _ _ induction => exact induction
  | scheduleAt _ _ _ induction => exact (Context.currentTime_scheduleAt _ _ _).trans induction

theorem modules_eq (schedules : Schedules allowed before after) :
    after.ctx.modules = before.ctx.modules := by
  induction schedules with
  | refl => rfl
  | frame _ _ _ induction => exact induction
  | scheduleAt _ _ _ induction => exact (Context.modules_scheduleAt _ _ _).trans induction

theorem valid (schedules : Schedules allowed before after)
    (initially : before.ctx.nextTickHeap.Valid) : after.ctx.nextTickHeap.Valid := by
  induction schedules with
  | refl => exact initially
  | frame _ _ _ induction => exact induction
  | scheduleAt _ _ _ induction => exact Context.valid_scheduleAt _ _ _ induction

/-- What is recorded as scheduled is what is added to the stored tasks. -/
theorem stored_eq (schedules : Schedules allowed before after) :
    after.ctx.stored + (before.scheduled : Multiset (Time × Task)) =
      before.ctx.stored + (after.scheduled : Multiset (Time × Task)) := by
  induction schedules with
  | refl => rfl
  | frame _ _ _ induction => exact induction
  | @scheduleAt after timeTarget callable _ _ induction =>
      change (after.ctx.scheduleAt timeTarget callable).stored + _ =
        _ + ((after.scheduled ++ [(timeTarget, callable)] : List _) : Multiset _)
      rw [Context.stored_scheduleAt, Multiset.cons_add, induction, ← Multiset.coe_add,
        ← Multiset.add_cons, Multiset.coe_singleton, ← Multiset.singleton_add, add_comm {_}]

/-- A tick for which nothing may be scheduled keeps its tasks. -/
theorem tasksAt_eq (schedules : Schedules allowed before after) {tick : Time}
    (excluded : ¬ allowed tick) : after.ctx.tasksAt tick = before.ctx.tasksAt tick := by
  induction schedules with
  | refl => rfl
  | frame _ _ _ induction => exact induction
  | @scheduleAt after timeTarget callable _ permitted induction =>
      change (after.ctx.scheduleAt timeTarget callable).tasksAt tick = _
      rw [Context.tasksAt_scheduleAt, if_neg, induction]
      rintro rfl
      exact excluded permitted

/-- Scheduling never moves the head of a non-empty heap. -/
theorem nextTick_eq (schedules : Schedules allowed before after)
    (valid : before.ctx.nextTickHeap.Valid) (occupied : before.ctx.nextTickHeap.empty = false) :
    after.ctx.nextTickHeap.empty = false ∧ after.ctx.nextTick = before.ctx.nextTick := by
  induction schedules with
  | refl => exact ⟨occupied, rfl⟩
  | frame _ _ _ induction => exact induction
  | @scheduleAt after timeTarget callable earlier _ induction =>
      obtain ⟨still, head⟩ := induction
      have heap := Context.nextTickHeap_scheduleAt after.ctx timeTarget callable
      change (after.ctx.scheduleAt timeTarget callable).nextTickHeap.empty = false ∧
        Time.mk (after.ctx.scheduleAt timeTarget callable).nextTickHeap.peek = _
      rw [heap]
      split_ifs
      · refine ⟨RadixHeap.empty_push _ _, ?_⟩
        rw [RadixHeap.peek_push_of_nonempty (earlier.valid valid)]
        · exact head
        · simpa [RadixHeap.empty, Nat.pos_iff_ne_zero] using still
      · exact ⟨still, head⟩

/-- What scheduling adds to the heap are ticks that it may name. -/
theorem contents (schedules : Schedules allowed before after) :
    ∃ added : Multiset UInt64, after.ctx.nextTickHeap.contents =
        before.ctx.nextTickHeap.contents + added ∧ ∀ val ∈ added, allowed ⟨val⟩ := by
  induction schedules with
  | refl => exact ⟨0, (add_zero _).symm, by simp⟩
  | frame _ _ _ induction => exact induction
  | @scheduleAt after timeTarget callable _ permitted induction =>
      obtain ⟨added, contents, named⟩ := induction
      change ∃ added, (after.ctx.scheduleAt timeTarget callable).nextTickHeap.contents = _ ∧ _
      rw [Context.nextTickHeap_scheduleAt]
      split_ifs
      · refine ⟨timeTarget.picoseconds ::ₘ added, ?_, ?_⟩
        · rw [RadixHeap.contents_push, contents, Multiset.add_cons]
        · intro val member
          rcases Multiset.mem_cons.mp member with rfl | earlier
          · exact permitted
          · exact named val earlier
      · exact ⟨added, contents, named⟩

end Schedules

/-! ## Requests, modules and tasks as schedule calls -/

theorem request_eq (session : Session Task ModuleRef Params World) (request : Request Task) :
    session.request request =
      session.scheduleAt (request.target session.ctx.currentTime) request.callable := by
  cases request <;> rfl

theorem schedules_requests {allowed : Time → Prop} {session : Session Task ModuleRef Params World}
    {requests : List (Request Task)}
    (permitted : ∀ request ∈ requests, allowed (request.target session.ctx.currentTime)) :
    Schedules allowed session (requests.foldl request session) := by
  induction requests generalizing session with
  | nil => exact .refl
  | cons first rest induction =>
      rw [List.foldl_cons]
      have one : Schedules allowed session (session.request first) := by
        rw [request_eq]
        exact .scheduleAt _ .refl (permitted first List.mem_cons_self)
      refine one.trans (induction fun request member => ?_)
      rw [one.currentTime_eq]
      exact permitted request (List.mem_cons_of_mem first member)

@[simp]
theorem executed_requests (session : Session Task ModuleRef Params World)
    (requests : List (Request Task)) :
    (requests.foldl request session).executed = session.executed := by
  induction requests generalizing session with
  | nil => rfl
  | cons first rest induction =>
      rw [List.foldl_cons, induction, request_eq]
      rfl

@[simp]
theorem world_requests (session : Session Task ModuleRef Params World)
    (requests : List (Request Task)) :
    (requests.foldl request session).world = session.world := by
  induction requests generalizing session with
  | nil => rfl
  | cons first rest induction =>
      rw [List.foldl_cons, induction, request_eq]
      rfl

theorem schedules_callTask {behaviour : Behaviour Task ModuleRef Params World} {tick : Time}
    {task : Task} {session : Session Task ModuleRef Params World}
    (now : session.ctx.currentTime = tick)
    (later : ∀ request ∈ (behaviour.call task tick session.world).2, tick < request.target tick) :
    Schedules (tick < ·) session (session.callTask behaviour tick task) := by
  refine (Schedules.frame _ _ .refl).trans (schedules_requests ?_)
  rw [now]
  exact later

theorem schedules_callTasks {behaviour : Behaviour Task ModuleRef Params World} {tick : Time}
    {tasks : List Task} {session : Session Task ModuleRef Params World}
    (now : session.ctx.currentTime = tick)
    (asserted : behaviour.MeetsAssertion tick tasks session.world) :
    Schedules (tick < ·) session (tasks.foldl (callTask behaviour tick) session) := by
  induction tasks generalizing session with
  | nil => exact .refl
  | cons task tasks induction =>
      rw [List.foldl_cons]
      have one := schedules_callTask now asserted.1
      refine one.trans (induction (one.currentTime_eq.trans now) ?_)
      rw [callTask, world_requests]
      exact asserted.2

/-- Whatever tasks schedule for, they only schedule. -/
theorem schedules_calls (behaviour : Behaviour Task ModuleRef Params World) (tick : Time)
    (tasks : List Task) (session : Session Task ModuleRef Params World) :
    Schedules (fun _ => True) session (tasks.foldl (callTask behaviour tick) session) := by
  induction tasks generalizing session with
  | nil => exact .refl
  | cons task tasks induction =>
      have one : Schedules (fun _ => True) session (session.callTask behaviour tick task) :=
        (Schedules.frame _ _ .refl).trans (schedules_requests fun _ _ => trivial)
      exact one.trans (induction _)

@[simp]
theorem executed_callTasks (behaviour : Behaviour Task ModuleRef Params World) (tick : Time)
    (tasks : List Task) (session : Session Task ModuleRef Params World) :
    (tasks.foldl (callTask behaviour tick) session).executed =
      session.executed ++ tasks.map (Prod.mk tick) := by
  induction tasks generalizing session with
  | nil => simp
  | cons task tasks induction =>
      rw [List.foldl_cons, induction, callTask, executed_requests]
      simp

/-- The clock moved, the tasks of the tick schedule for later ticks only. -/
theorem schedules_runTick {behaviour : Behaviour Task ModuleRef Params World} {tick : Time}
    {session : Session Task ModuleRef Params World}
    (asserted : behaviour.MeetsAssertion tick (session.ctx.tasksAt tick) session.world) :
    Schedules (tick < ·) { session with ctx := { session.ctx with currentTime := tick } }
      (session.runTick behaviour tick) :=
  schedules_callTasks rfl asserted

@[simp]
theorem executed_runTick (behaviour : Behaviour Task ModuleRef Params World) (tick : Time)
    (session : Session Task ModuleRef Params World) :
    (session.runTick behaviour tick).executed =
      session.executed ++ (session.ctx.tasksAt tick).map (Prod.mk tick) := by
  rw [runTick, executed_callTasks]

/-- An initialization that is successful at the end was successful all along. -/
theorem success_of_initializeModules {behaviour : Behaviour Task ModuleRef Params World}
    {modules : List (ModuleRef × Params)}
    {progress : Session Task ModuleRef Params World × InitializationStatus ModuleRef}
    (success : (modules.foldl (initializeModule behaviour) progress).2.success = true) :
    progress.2.success = true := by
  induction modules generalizing progress with
  | nil => exact success
  | cons entry modules induction =>
      have later := induction success
      simp only [initializeModule] at later
      split at later
      next => exact later
      next => simp_all

/-- Initializing modules only schedules. -/
theorem schedules_initializeModules (behaviour : Behaviour Task ModuleRef Params World)
    (modules : List (ModuleRef × Params))
    (progress : Session Task ModuleRef Params World × InitializationStatus ModuleRef) :
    Schedules (fun _ => True) progress.1
        (modules.foldl (initializeModule behaviour) progress).1 ∧
      (modules.foldl (initializeModule behaviour) progress).1.executed = progress.1.executed := by
  induction modules generalizing progress with
  | nil => exact ⟨.refl, rfl⟩
  | cons entry modules induction =>
      obtain ⟨later, kept⟩ := induction (initializeModule behaviour progress entry)
      rw [List.foldl_cons]
      refine ⟨Schedules.trans ?_ later, kept.trans ?_⟩
      · exact (Schedules.frame _ progress.1.executed .refl).trans
          (schedules_requests fun _ _ => trivial)
      · exact executed_requests _ _

theorem currentTime_initializeContext (behaviour : Behaviour Task ModuleRef Params World)
    (session : Session Task ModuleRef Params World) :
    (session.initializeContext behaviour).1.ctx.currentTime = session.ctx.currentTime :=
  (schedules_initializeModules behaviour session.ctx.modules (session, .ok none)).1.currentTime_eq

theorem state_initializeContext (behaviour : Behaviour Task ModuleRef Params World)
    (session : Session Task ModuleRef Params World) :
    (session.initializeContext behaviour).1.ctx.state =
      if (session.initializeContext behaviour).2.success then .running else .error := rfl

theorem started_initializeContext (behaviour : Behaviour Task ModuleRef Params World)
    (session : Session Task ModuleRef Params World) :
    (session.initializeContext behaviour).1.ctx.state ≠ .initialization := by
  rw [state_initializeContext]
  split <;> simp

/-! ## What a call of `run_at` can do -/

section Run

variable {behaviour : Behaviour Task ModuleRef Params World} {finalTime : Time}
  {session next final : Session Task ModuleRef Params World} {status : RunStatus}

/-- A pass that goes on runs the head of the heap, which is within the final time. -/
theorem loopBody_inl (passes : session.loopBody behaviour finalTime = .inl next) :
    session.ctx.nextTickHeap.empty = false ∧ session.ctx.nextTick ≤ finalTime ∧
      next = { session.runTick behaviour session.ctx.nextTick with
        ctx := (session.runTick behaviour session.ctx.nextTick).ctx.finishTick
          session.ctx.nextTick } := by
  simp only [loopBody] at passes
  split_ifs at passes with vacant beyond
  refine ⟨by simpa using vacant, not_lt.mp beyond, ?_⟩
  exact (Sum.inl.inj passes).symm

theorem state_pass (passes : session.loopBody behaviour finalTime = .inl next) :
    next.ctx.state = session.ctx.state := by
  obtain ⟨-, -, rfl⟩ := loopBody_inl passes
  exact (schedules_calls behaviour _ _ _).state_eq

theorem currentTime_pass (passes : session.loopBody behaviour finalTime = .inl next) :
    next.ctx.currentTime = session.ctx.nextTick := by
  obtain ⟨-, -, rfl⟩ := loopBody_inl passes
  exact (schedules_calls behaviour _ _ _).currentTime_eq

/-- The heap stays valid, whatever the tasks of the pass schedule for. -/
theorem valid_pass (valid : session.ctx.nextTickHeap.Valid)
    (passes : session.loopBody behaviour finalTime = .inl next) :
    next.ctx.nextTickHeap.Valid := by
  obtain ⟨occupied, -, rfl⟩ := loopBody_inl passes
  have schedules : Schedules (fun _ => True)
      { session with ctx := { session.ctx with currentTime := session.ctx.nextTick } }
      (session.runTick behaviour session.ctx.nextTick) := schedules_calls behaviour _ _ _
  exact RadixHeap.valid_pop (schedules.valid valid) (schedules.nextTick_eq valid occupied).1

/-- A run within which tasks schedule for later ticks only meets the assertion. -/
theorem runAsserted_of_later
    (later : ∀ task tick world, tick ≤ finalTime →
      ∀ request ∈ (behaviour.call task tick world).2, tick < request.target tick)
    (session : Session Task ModuleRef Params World) :
    session.RunAsserted behaviour finalTime :=
  fun begun _ => Loop.Obeys.of_forall (fun _ _ passes =>
    Behaviour.meetsAssertion_of_later
      (fun task world => later task _ world (loopBody_inl passes).2.1) _ _) begun

theorem runAsserted_countdown (finite : finalTime < finalTime + ⟨1⟩)
    (session : Session ℕ Unit Unit Unit) : session.RunAsserted .countdown finalTime :=
  runAsserted_of_later (fun task _ world due =>
    Behaviour.later_countdown (Time.lt_add_one due finite) task world) session

/-- The assertion for one pass, and for the passes after it. -/
theorem LoopAsserted.here (asserted : session.LoopAsserted behaviour finalTime)
    (passes : session.loopBody behaviour finalTime = .inl next) :
    behaviour.MeetsAssertion session.ctx.nextTick (session.ctx.tasksAt session.ctx.nextTick)
      session.world := by
  have here := Loop.Obeys.here asserted passes
  exact here

theorem LoopAsserted.rest (asserted : session.LoopAsserted behaviour finalTime)
    (passes : session.loopBody behaviour finalTime = .inl next) :
    next.LoopAsserted behaviour finalTime :=
  Loop.Obeys.rest asserted passes

theorem loopBody_of_beyond (behaviour : Behaviour Task ModuleRef Params World)
    (occupied : session.ctx.nextTickHeap.empty = false)
    (beyond : finalTime < session.ctx.nextTick) :
    session.loopBody behaviour finalTime =
      .inr ({ session with ctx := { session.ctx with currentTime := finalTime } },
        .eventsInQueue) := by
  rw [loopBody, if_neg (by simp [occupied]), if_pos beyond]

theorem loopBody_of_due (behaviour : Behaviour Task ModuleRef Params World)
    (occupied : session.ctx.nextTickHeap.empty = false) (due : session.ctx.nextTick ≤ finalTime) :
    session.loopBody behaviour finalTime =
      .inl { session.runTick behaviour session.ctx.nextTick with
        ctx := (session.runTick behaviour session.ctx.nextTick).ctx.finishTick
          session.ctx.nextTick } := by
  rw [loopBody, if_neg (by simp [occupied]), if_neg (not_lt.mpr due)]

/-- A pass that returns finds no tick, or none within the final time. -/
theorem loopBody_inr (returns : session.loopBody behaviour finalTime = .inr (final, status)) :
    (session.ctx.nextTickHeap.empty = true ∧ status = .stopped ∧
        final = { session with ctx := { session.ctx with state := .stopped } }) ∨
      (session.ctx.nextTickHeap.empty = false ∧ finalTime < session.ctx.nextTick ∧
        status = .eventsInQueue ∧
        final = { session with ctx := { session.ctx with currentTime := finalTime } }) := by
  simp only [loopBody] at returns
  split_ifs at returns with vacant beyond
  · left
    obtain ⟨rfl, rfl⟩ := Prod.mk.inj (Sum.inr.inj returns)
    exact ⟨vacant, rfl, rfl⟩
  · right
    obtain ⟨rfl, rfl⟩ := Prod.mk.inj (Sum.inr.inj returns)
    exact ⟨by simpa using vacant, beyond, rfl, rfl⟩

/-- `run_at` reaches its loop with initialization behind it. -/
theorem beginRun_ok (begins : session.beginRun behaviour = .ok next) :
    (session.ctx.state = .initialization ∧
        (session.initializeContext behaviour).2.success = true ∧
        next = (session.initializeContext behaviour).1) ∨
      (session.ctx.state ≠ .initialization ∧
        next = { session with ctx := { session.ctx with state := .running } }) := by
  simp only [beginRun] at begins
  split_ifs at begins with fresh success
  · left
    refine ⟨fresh, success, ?_⟩
    rw [← Except.ok.inj begins]
    simp only [initializeContext] at success ⊢
    simp [success]
  · right
    exact ⟨fresh, (Except.ok.inj begins).symm⟩

theorem beginRun_of_waiting (waiting : session.ctx.state = .initialization)
    (success : (session.initializeContext behaviour).2.success = true) :
    session.beginRun behaviour = .ok (session.initializeContext behaviour).1 := by
  simp only [beginRun, if_pos waiting, if_pos success]
  simp only [initializeContext] at success ⊢
  simp [success]

theorem state_of_beginRun (begins : session.beginRun behaviour = .ok next) :
    next.ctx.state = .running := by
  rcases beginRun_ok begins with ⟨-, success, rfl⟩ | ⟨-, rfl⟩
  · simp [initializeContext] at success ⊢
    exact success
  · rfl

theorem currentTime_beginRun (begins : session.beginRun behaviour = .ok next) :
    next.ctx.currentTime = session.ctx.currentTime := by
  rcases beginRun_ok begins with ⟨-, -, rfl⟩ | ⟨-, rfl⟩
  · exact currentTime_initializeContext behaviour session
  · rfl

theorem beginRun_of_started (behaviour : Behaviour Task ModuleRef Params World)
    (started : session.ctx.state ≠ .initialization) :
    session.beginRun behaviour =
      .ok { session with ctx := { session.ctx with state := .running } } := by
  rw [beginRun, if_neg started]

/-- `run_at` fails only through its own initialization. -/
theorem beginRun_error {status : InitializationStatus ModuleRef}
    (begins : session.beginRun behaviour = .error (next, status)) :
    session.ctx.state = .initialization ∧ status.success = false ∧
      (next, status) = session.initializeContext behaviour := by
  simp only [beginRun] at begins
  split_ifs at begins with fresh success
  obtain ⟨rfl, rfl⟩ := Prod.mk.inj (Except.error.inj begins)
  exact ⟨fresh, by simpa using success, rfl⟩

end Run
end Session
end Simo
