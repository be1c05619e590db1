import Simo.Module.Window

/-!
# What collectors dump

A collector schedules the opening and the closing of its window when it is initialized, and nothing
else does.  If tasks come from modules, from other tasks or from calls before the initialization,
they are called in time order, and the file that the closing writes has for every statistic what the
tasks called in between have added to it.
-/

/-- The last occurrence of a member. -/
theorem List.exists_last_of_mem {α : Type*} {a : α} {l : List α} (member : a ∈ l) :
    ∃ before after, l = before ++ a :: after ∧ a ∉ after := by
  obtain ⟨after, before, reversed, absent⟩ :=
    List.eq_append_cons_of_mem (List.mem_reverse.mpr member)
  refine ⟨before.reverse, after.reverse, ?_, mt List.mem_reverse.mp absent⟩
  rw [← List.reverse_reverse l, reversed, List.reverse_append, List.reverse_cons,
    List.append_assoc]
  rfl

/-- A list up to the first occurrence of a value, if there is one. -/
theorem List.exists_append_of_first {α : Type*} (a : α) (l : List α) :
    ∃ first more, l = first ++ more ∧ a ∉ first ∧ ∀ b ∈ more.head?, b = a := by
  by_cases member : a ∈ l
  · obtain ⟨first, rest, split, absent⟩ := List.eq_append_cons_of_mem member
    exact ⟨first, a :: rest, split, absent, fun b head => (Option.some.inj head).symm⟩
  · exact ⟨l, [], (List.append_nil l).symm, member, nofun⟩

namespace Simo

open Statistics

/-- The members of a sorted list on both sides of one of them. -/
theorem Time.around_of_sorted {α : Type*} {before after : List (Time × α)} {entry : Time × α}
    (sorted : ((before ++ entry :: after).map Prod.fst).Pairwise (· ≤ ·)) :
    (∀ other ∈ before, other.1 ≤ entry.1) ∧ ∀ other ∈ after, entry.1 ≤ other.1 := by
  rw [List.pairwise_map, List.pairwise_append, List.pairwise_cons] at sorted
  obtain ⟨-, ⟨later, -⟩, across⟩ := sorted
  exact ⟨fun other member => across other member entry List.mem_cons_self, later⟩

variable {Ty ModuleRef Task User : Type*} {Val : Ty → Type} [DecidableEq ModuleRef]

/-- The task of a module of the program. -/
def ModuleTask.isUser : ModuleTask ModuleRef Task → Bool
  | user _ => true
  | openWindow _ | closeWindow _ => false

/-- Outside tasks and modules, schedule calls are made before the initialization only, and not in
place of a collector. -/
def Config.SchedulesEarly {Params World : Type*}
    (config : Config (ModuleTask ModuleRef Task) ModuleRef Params World) :
    Event (ModuleTask ModuleRef Task) ModuleRef Params → Prop
  | .request request =>
      config.session.ctx.state = .initialization ∧ request.callable.isUser = true
  | _ => True

instance Config.decidableSchedulesEarly {Params World : Type*}
    (config : Config (ModuleTask ModuleRef Task) ModuleRef Params World) :
    ∀ event : Event (ModuleTask ModuleRef Task) ModuleRef Params,
      Decidable (config.SchedulesEarly event)
  | .request _ => inferInstanceAs (Decidable (_ ∧ _))
  | .add _ _ | .remove _ | .initializes _ | .runFails _ _ | .runBegins _ | .pass | .runReturns _ =>
      .isTrue trivial

omit [DecidableEq ModuleRef] in
theorem Config.SchedulesEarly.forward {Params World : Type*}
    {config : Config (ModuleTask ModuleRef Task) ModuleRef Params World}
    {event : Event (ModuleTask ModuleRef Task) ModuleRef Params}
    (early : config.SchedulesEarly event) : config.Forward event := by
  cases event with
  | request request => exact .inl early.1
  | _ => trivial

namespace Collector

variable {collector : ModuleRef} {startTime endTime : Time}

/-- The window of a collector is scheduled as a whole. -/
structure Planned (collector : ModuleRef) (startTime endTime : Time)
    (scheduled : List (Time × ModuleTask ModuleRef Task)) : Prop where
  opens : ∀ tick, (tick, .openWindow collector) ∈ scheduled → tick = startTime
  closes : ∀ tick, (tick, .closeWindow collector) ∈ scheduled →
    tick = endTime ∧ (startTime, .openWindow collector) ∈ scheduled

omit [DecidableEq ModuleRef] in
theorem planned_append {first second : List (Time × ModuleTask ModuleRef Task)}
    (one : Planned collector startTime endTime first)
    (other : Planned collector startTime endTime second) :
    Planned collector startTime endTime (first ++ second) := by
  refine ⟨fun tick member => ?_, fun tick member => ?_⟩
  · rcases List.mem_append.mp member with here | there
    · exact one.opens tick here
    · exact other.opens tick there
  · rcases List.mem_append.mp member with here | there
    · exact (one.closes tick here).imp_right (List.mem_append_left _)
    · exact (other.closes tick there).imp_right (List.mem_append_right _)

omit [DecidableEq ModuleRef] in
/-- Lists without windows of this collector. -/
theorem planned_of_other {scheduled : List (Time × ModuleTask ModuleRef Task)}
    (opensOther : ∀ entry ∈ scheduled, entry.2 ≠ .openWindow collector)
    (closesOther : ∀ entry ∈ scheduled, entry.2 ≠ .closeWindow collector) :
    Planned collector startTime endTime scheduled :=
  ⟨fun _ member => (opensOther _ member rfl).elim, fun _ member => (closesOther _ member rfl).elim⟩

omit [DecidableEq ModuleRef] in
theorem planned_of_user {scheduled : List (Time × ModuleTask ModuleRef Task)}
    (byUser : ∀ entry ∈ scheduled, entry.2.isUser = true) :
    Planned collector startTime endTime scheduled := by
  refine planned_of_other (fun entry member opens => ?_) fun entry member closes => ?_
  · have user := byUser entry member
    rw [opens] at user
    cases user
  · have user := byUser entry member
    rw [closes] at user
    cases user

omit [DecidableEq ModuleRef] in
/-- The window of the collector. -/
theorem planned_window (collector : ModuleRef) (startTime endTime : Time) :
    Planned collector startTime endTime
      [(startTime, (.openWindow collector : ModuleTask ModuleRef Task)),
        (endTime, .closeWindow collector)] := by
  refine ⟨fun tick member => ?_, fun tick member => ?_⟩
  · rcases List.mem_cons.mp member with opens | closes
    · exact congrArg Prod.fst opens
    · cases List.mem_singleton.mp closes
  · rcases List.mem_cons.mp member with opens | closes
    · cases opens
    · exact ⟨congrArg Prod.fst (List.mem_singleton.mp closes), List.mem_cons_self⟩

omit [DecidableEq ModuleRef] in
/-- The window of another collector. -/
theorem planned_window_of_ne {other : ModuleRef} (apart : other ≠ collector)
    (opened closed : Time) :
    Planned collector startTime endTime
      [(opened, (.openWindow other : ModuleTask ModuleRef Task)),
        (closed, .closeWindow other)] := by
  refine planned_of_other (fun entry member opens => ?_) fun entry member closes => ?_
  · rcases List.mem_cons.mp member with rfl | later
    · exact apart (ModuleTask.openWindow.inj opens)
    · cases List.mem_singleton.mp later
      cases opens
  · rcases List.mem_cons.mp member with rfl | later
    · cases closes
    · cases List.mem_singleton.mp later
      exact apart (ModuleTask.closeWindow.inj closes)

end Collector

namespace StatProgram

variable [DecidableEq Ty] (program : StatProgram Ty ModuleRef Task User Val)
  {collector : ModuleRef} {parameters : Collector.Parameters Val}

omit [DecidableEq ModuleRef] [DecidableEq Ty] in
theorem isUser_of_mem {requests : List (Request Task)} {now : Time}
    {entry : Time × ModuleTask ModuleRef Task}
    (member : entry ∈ (requests.map Request.user).map fun request =>
      (request.target now, request.callable)) : entry.2.isUser = true := by
  obtain ⟨request, mapped, rfl⟩ := List.mem_map.mp member
  obtain ⟨original, -, rfl⟩ := List.mem_map.mp mapped
  cases original <;> rfl

/-- What a task schedules. -/
theorem planned_call (task : ModuleTask ModuleRef Task) (tick : Time)
    (store : ModuleStore ModuleRef (Sampling ModuleRef User)) {startTime endTime : Time} :
    Collector.Planned collector startTime endTime
      ((program.behaviour.call task tick store).2.map fun request =>
        (request.target tick, request.callable)) := by
  apply Collector.planned_of_user
  intro entry member
  cases task with
  | openWindow other => exact (List.not_mem_nil member).elim
  | closeWindow other => exact (List.not_mem_nil member).elim
  | user task => exact isUser_of_mem member

/-- A collector schedules its window, or nothing if its parameters are not valid. -/
theorem requests_initializeModule (module : ModuleRef) (params : Collector.Parameters Val)
    (ctx : Context (ModuleTask ModuleRef Task) ModuleRef (ModuleParameters Val))
    (store : ModuleStore ModuleRef (Sampling ModuleRef User)) :
    (program.behaviour.initializeModule module (.collector params) ctx store).2.1 =
        [.scheduleAt params.startTime.value_ (.openWindow module),
          .scheduleAt params.endTime.value_ (.closeWindow module)] ∨
      (program.behaviour.initializeModule module (.collector params) ctx store).2.1 = [] := by
  change (Collector.initializeModule _ module params ctx store).2.1 = _ ∨
    (Collector.initializeModule _ module params ctx store).2.1 = _
  rw [Collector.initializeModule]
  dsimp only
  split
  next => exact .inl rfl
  next => exact .inr rfl

/-- What a module schedules, if the collector has these parameters. -/
theorem planned_initializeModule (module : ModuleRef) (params : ModuleParameters Val)
    (ctx : Context (ModuleTask ModuleRef Task) ModuleRef (ModuleParameters Val))
    (store : ModuleStore ModuleRef (Sampling ModuleRef User))
    (registered : module = collector → params = .collector parameters) :
    Collector.Planned collector parameters.startTime.value_ parameters.endTime.value_
      ((program.behaviour.initializeModule module params ctx store).2.1.map fun request =>
        (request.target ctx.currentTime, request.callable)) := by
  cases params with
  | user params =>
      apply Collector.planned_of_user
      exact fun entry member => isUser_of_mem member
  | collector params =>
      rcases program.requests_initializeModule module params ctx store with both | none
      · rw [both]
        by_cases same : module = collector
        · obtain ⟨⟩ := registered same
          exact same ▸ Collector.planned_window module _ _
        · exact Collector.planned_window_of_ne same _ _
      · rw [none]
        exact ⟨nofun, nofun⟩

/-- Initialization makes collectors look up no statistic. -/
theorem unsampled_initializeModule (module : ModuleRef) (params : ModuleParameters Val)
    (ctx : Context (ModuleTask ModuleRef Task) ModuleRef (ModuleParameters Val))
    (store : ModuleStore ModuleRef (Sampling ModuleRef User))
    (unsampled : Collector.Unsampled store collector) :
    Collector.Unsampled (program.behaviour.initializeModule module params ctx store).1
      collector := by
  cases params with
  | user params => exact ⟨unsampled.searchedStatistics, unsampled.mapper⟩
  | collector params =>
      change Collector.Unsampled
        (Collector.initializeModule _ module params ctx store).1 collector
      cases check : params.check with
      | true =>
          rw [Collector.initializeModule_of_check check]
          exact ⟨unsampled.searchedStatistics, unsampled.mapper⟩
      | false =>
          rw [Collector.initializeModule_of_not_check check]
          exact ⟨unsampled.searchedStatistics, unsampled.mapper⟩

end StatProgram

/-- A window of a collector among the task calls, given those before and after its closing: what was
called before it was first opened, before it was opened, and while it was open. -/
structure Collector.Window (collector : ModuleRef) (startTime endTime tick : Time)
    (earlier later first before during : List (Time × ModuleTask ModuleRef Task)) : Prop where
  closed : tick = endTime
  opened : earlier = before ++ (startTime, .openWindow collector) :: during
  firstOpened : first ++ [(startTime, .openWindow collector)] <+: earlier
  opensFirst : ∀ entry ∈ first, entry.2 ≠ .openWindow collector
  opensLast : ∀ entry ∈ during, entry.2 ≠ .openWindow collector
  early : ∀ entry ∈ before, entry.1 ≤ startTime
  inside : ∀ entry ∈ during, startTime ≤ entry.1 ∧ entry.1 ≤ endTime
  late : ∀ entry ∈ later, endTime ≤ entry.1

omit [DecidableEq ModuleRef] in
/-- Every call strictly inside the window was made while it was open. -/
theorem Collector.Window.mem_during {collector : ModuleRef} {startTime endTime tick : Time}
    {earlier later first before during : List (Time × ModuleTask ModuleRef Task)}
    (window : Collector.Window collector startTime endTime tick earlier later first before during)
    {entry : Time × ModuleTask ModuleRef Task}
    (called : entry ∈ earlier ++ (tick, .closeWindow collector) :: later)
    (after : startTime < entry.1) (before_end : entry.1 < endTime) : entry ∈ during := by
  rw [window.opened] at called
  rcases List.mem_append.mp called with called | called
  · rcases List.mem_append.mp called with called | called
    · exact (not_lt.mpr (window.early entry called) after).elim
    · rcases List.mem_cons.mp called with rfl | called
      · exact (lt_irrefl _ after).elim
      · exact called
  · rcases List.mem_cons.mp called with rfl | called
    · exact (window.closed.not_lt before_end).elim
    · exact (not_lt.mpr (window.late entry called) before_end).elim

namespace StatProgram

variable [DecidableEq Ty] {program : StatProgram Ty ModuleRef Task User Val}
  {collector : ModuleRef} {parameters : Collector.Parameters Val}
  {config : Config (ModuleTask ModuleRef Task) ModuleRef (ModuleParameters Val)
    (ModuleStore ModuleRef (Sampling ModuleRef User))}

omit [DecidableEq ModuleRef] in
/-- Where the collector's window is scheduled as a whole, its closing is called after its
opening. -/
theorem exists_window (orderly : config.Orderly)
    (started : config.session.ctx.state ≠ .initialization) {startTime endTime : Time}
    (planned : Collector.Planned collector startTime endTime config.session.scheduled)
    (ordered : startTime < endTime) {tick : Time}
    {earlier later : List (Time × ModuleTask ModuleRef Task)}
    (closed : config.session.executed = earlier ++ (tick, .closeWindow collector) :: later) :
    ∃ first more during,
      Collector.Window collector startTime endTime tick earlier later first (first ++ more)
        during ∧
      (∀ entry ∈ more.head?, entry.2 = .openWindow collector) ∧
      ∀ entry ∈ first, entry.2 ≠ .closeWindow collector := by
  have sorted := orderly.chronological.sorted
  rw [closed] at sorted
  obtain ⟨beforeClose, late⟩ := Time.around_of_sorted sorted
  have executed : ∀ entry ∈ earlier, entry ∈ config.session.executed := by
    intro entry member
    rw [closed]
    exact List.mem_append_left _ member
  obtain ⟨rfl, scheduled⟩ := planned.closes tick (orderly.mem_scheduled (by
    rw [closed]
    exact List.mem_append_right _ List.mem_cons_self))
  -- all openings in the record are the same entry
  have opening : ∀ entry ∈ earlier, entry.2 = .openWindow collector →
      entry = (startTime, .openWindow collector) := by
    rintro ⟨opened, task⟩ member rfl
    rw [planned.opens opened (orderly.mem_scheduled (executed _ member))]
  have member := orderly.mem_of_earlier started closed scheduled ordered
  obtain ⟨before, during, rfl, notDuring⟩ := List.exists_last_of_mem member
  obtain ⟨first, more, rfl, notFirst, opens⟩ :=
    List.exists_append_of_first (startTime, ModuleTask.openWindow collector) before
  have sortedEarlier : ((first ++ more ++ (startTime, .openWindow collector) :: during).map
      Prod.fst).Pairwise (· ≤ ·) := by
    rw [List.map_append] at sorted
    exact (List.pairwise_append.mp sorted).1
  obtain ⟨early, open_le⟩ := Time.around_of_sorted sortedEarlier
  have inEarlier : ∀ entry ∈ first, entry ∈ first ++ more ++ (startTime,
      ModuleTask.openWindow collector) :: during := fun entry member =>
    List.mem_append_left _ (List.mem_append_left _ member)
  refine ⟨first, more, during, ⟨rfl, rfl, ?_, ?_, ?_, early, ?_, late⟩, ?_, ?_⟩
  · cases more with
    | nil =>
        rw [List.append_nil]
        exact ⟨during, (List.append_cons ..).symm⟩
    | cons entry mid =>
        rw [opens entry rfl, List.append_assoc, List.cons_append]
        exact ⟨_, (List.append_cons ..).symm⟩
  · exact fun entry member is => notFirst (opening entry (inEarlier entry member) is ▸ member)
  · exact fun entry member is => notDuring (opening entry
      (List.mem_append_right _ (List.mem_cons_of_mem _ member)) is ▸ member)
  · exact fun entry member => ⟨open_le entry member,
      beforeClose entry (List.mem_append_right _ (List.mem_cons_of_mem _ member))⟩
  · intro entry head
    rw [opens entry head]
  · rintro ⟨tick, task⟩ member rfl
    have closesAt := (planned.closes tick (orderly.mem_scheduled
      (executed _ (inEarlier _ member)))).1
    subst closesAt
    exact (not_lt.mpr (early _ (List.mem_append_left _ member)) ordered).elim

section History

variable {statistics : ModuleRef → List Count} {user : User}
  {steps : List (Transition
    (Config (ModuleTask ModuleRef Task) ModuleRef (ModuleParameters Val)
      (ModuleStore ModuleRef (Sampling ModuleRef User)))
    (Event (ModuleTask ModuleRef Task) ModuleRef (ModuleParameters Val)))}

/-- In such a history the window of the collector is scheduled as a whole. -/
theorem planned_of_history
    (history : History program.behaviour (.constructed (.constructed statistics user)) steps config)
    (asserted : ∀ step ∈ steps, step.source.Asserted program.behaviour step.label)
    (early : ∀ step ∈ steps, step.source.SchedulesEarly step.label)
    (registered : ∀ step ∈ steps, ∀ params, step.label = .add collector params →
      params = .collector parameters) :
    Collector.Planned collector parameters.startTime.value_ parameters.endTime.value_
      config.session.scheduled := by
  refine Config.scheduled_invariant
    (R := fun module params => module = collector → params = .collector parameters)
    ⟨nofun, nofun⟩ (fun _ _ => Collector.planned_append)
    (fun module params ctx store => program.planned_initializeModule module params ctx store)
    (fun task tick store => program.planned_call task tick store) history asserted ?_ ?_
  · intro step member request label
    have user := early step member
    rw [label] at user
    apply Collector.planned_of_user
    intro entry only
    rw [List.mem_singleton.mp only]
    exact user.2
  · rintro step member module params label rfl
    exact registered step member params label

/-- A collector dumps what has been counted inside its window.  In a history whose events are
scheduled before the initialization or from tasks, each for a later tick, every closing of the
window of a collector with valid times is called at the end time, after an opening at the start
time.  The file that it writes has for each statistic that a sampled module held when the window was
first opened the sum of the increments and decrements by the tasks called in between.  These are all
tasks at ticks strictly inside the window, and none at a tick outside. -/
theorem dumps_what_was_counted
    (history : History program.behaviour (.constructed (.constructed statistics user)) steps config)
    (asserted : ∀ step ∈ steps, step.source.Asserted program.behaviour step.label)
    (runsLater : ∀ step ∈ steps, step.source.RunsLater step.label)
    (early : ∀ step ∈ steps, step.source.SchedulesEarly step.label)
    (registered : ∀ step ∈ steps, ∀ params, step.label = .add collector params →
      params = .collector parameters)
    (ordered : parameters.startTime.value_ < parameters.endTime.value_) {tick : Time}
    {earlier later : List (Time × ModuleTask ModuleRef Task)}
    (closed : config.session.executed = earlier ++ (tick, .closeWindow collector) :: later) :
    ∃ initialized ∈ steps, ∃ start, start = initialized.target.session.world ∧
      initialized.source.session.ctx.state = .initialization ∧
      initialized.target.session.ctx.state ≠ .initialization ∧
      config.session.world = program.behaviour.replay start config.session.executed ∧
      ∃ first before during,
        Collector.Window collector parameters.startTime.value_ parameters.endTime.value_ tick
          earlier later first before during ∧
        (∀ entry ∈ config.session.executed, parameters.startTime.value_ < entry.1 →
          entry.1 < parameters.endTime.value_ → entry ∈ during) ∧
        (program.behaviour.replay start
            (earlier ++ [(tick, .closeWindow collector)])).rest.files (start.dumpPath collector) =
          some ((start.collected collector).flatMap fun module =>
            ((program.behaviour.replay start first).rest.statistics module).zipIdx.map
              fun entry => ⟨start.name_ module ++ '/' :: entry.1.name_, "count",
                program.counted ⟨module, entry.2⟩
                  (program.behaviour.replay start
                    (before ++ [(parameters.startTime.value_, .openWindow collector)]))
                  during⟩) := by
  have orderly : config.Orderly := (history.invariant (Config.orderly_new _)
    fun step member before => (Config.orderly_step before (asserted step member)
      (runsLater step member) (early step member).forward (history.step_of_mem member)).1).1
  have planned := planned_of_history history asserted early registered
  rcases Config.exists_start history asserted with idle | ⟨step, member, idle, initialized, replays⟩
  · rw [idle.executed] at closed
    exact (List.cons_ne_nil _ _ (List.append_eq_nil_iff.mp closed.symm).2).elim
  have unsampled : Collector.Unsampled step.target.session.world collector := by
    rw [initialized]
    refine Session.initializeContext_invariant
      (P := fun store => Collector.Unsampled store collector) ?_ ?_
    · exact fun module params ctx store =>
        program.unsampled_initializeModule module params ctx store
    · rw [idle.world]
      exact ⟨rfl, rfl⟩
  have started : step.target.session.ctx.state ≠ .initialization := by
    rw [initialized]
    exact Session.started_initializeContext _ _
  obtain ⟨first, more, during, window, opens, closesOther⟩ :=
    exists_window orderly replays.started planned ordered closed
  refine ⟨step, member, _, rfl, idle.waiting, started, replays.world, first, first ++ more, during,
    window, ?_, ?_⟩
  · intro entry called
    rw [closed] at called
    exact window.mem_during called
  · rw [Behaviour.replay_append, window.opened]
    exact files_closeWindow unsampled window.opensFirst closesOther opens window.opensLast _

end History

/-- The module `cpu` counts by the amounts that are its tasks; the task 10 schedules the task 5. -/
def countingProgram : StatProgram Empty ℕ ℕ Unit Empty.elim where
  regexMatch pattern text := pattern = ['.', '*'] || pattern = text
  initializeUser module _ _ _ status :=
    ([.emplace module ⟨['n'], 0⟩], (), [.scheduleAt ⟨1⟩ 100, .scheduleAt ⟨3⟩ 10,
      .scheduleAt ⟨6⟩ 1000], status)
  callUser task _ _ :=
    ([.perform ⟨1, 0⟩ (.addAssign task)], (), if task = 10 then [.scheduleIn ⟨1⟩ 5] else [])

/-- Module 0 is a collector with the window from 2 to 5, module 1 is `cpu`.  Two runs. -/
def countingCommands :
    List (Command (ModuleTask ℕ ℕ) ℕ (ModuleParameters (Empty.elim : Empty → Type))) :=
  [.add 0 (.collector (Collector.configured ['c'] ⟨2⟩ ⟨5⟩ ['.', '*'])),
    .add 1 (.user { trie := .empty, name_ := ['c', 'p', 'u'] }),
    .runAt ⟨3⟩, .pass, .pass, .pass, .pass, .runAt ⟨9⟩, .pass, .pass, .pass, .pass]

theorem dumps_what_was_counted_split :
    ∃ steps config, History countingProgram.behaviour
        (.constructed (.constructed (fun _ => []) ())) steps config ∧
      config.session.world.rest.files "statistics.yaml".toList =
        some [⟨['c', 'p', 'u', '/', 'n'], "count", 15⟩] ∧
      ∃ first before during, Collector.Window 0 ⟨2⟩ ⟨5⟩ ⟨5⟩
        [(⟨1⟩, .user 100), (⟨2⟩, .openWindow 0), (⟨3⟩, .user 10), (⟨4⟩, .user 5)]
        [(⟨6⟩, .user 1000)] first before during := by
  obtain ⟨steps, config, executed, asserted, runsLater, early, calls, file⟩ :=
    Config.exists_execute countingProgram.behaviour
      ⟨Session.new (.constructed (.constructed (fun _ => []) ())), none⟩ countingCommands
      (fun result =>
        (∀ step ∈ result.1, step.source.Asserted countingProgram.behaviour step.label) ∧
        (∀ step ∈ result.1, step.source.RunsLater step.label) ∧
        (∀ step ∈ result.1, step.source.SchedulesEarly step.label) ∧
        result.2.session.executed =
          [(⟨1⟩, .user 100), (⟨2⟩, .openWindow 0), (⟨3⟩, .user 10), (⟨4⟩, .user 5)] ++
            (⟨5⟩, .closeWindow 0) :: [(⟨6⟩, .user 1000)] ∧
        result.2.session.world.rest.files "statistics.yaml".toList =
          some [⟨['c', 'p', 'u', '/', 'n'], "count", 15⟩]) (by decide +kernel)
  have history := Config.path_of_execute executed
  have registered : ∀ step ∈ steps, ∀ params, step.label = .add 0 params →
      params = .collector (Collector.configured ['c'] ⟨2⟩ ⟨5⟩ ['.', '*']) := by
    intro step member params adds
    have listed := Config.add_mem_of_execute executed member adds
    simpa [countingCommands] using listed
  obtain ⟨-, -, -, -, -, -, -, first, before, during, window, -⟩ :=
    dumps_what_was_counted history asserted runsLater early registered (by decide) calls
  exact ⟨steps, config, history, file, first, before, during, window⟩

end StatProgram

end Simo
