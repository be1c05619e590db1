import Simo.Core.Replay
import Simo.Module.Collector
import Simo.Statistics.StatMapper

/-!
# Windows of collectors

When its window opens, a collector looks up the statistics of the modules that it samples, which it
does only once, and copies them.  When the window closes it writes a file with what each of them has
gained since.  The modules of a program may change any statistic whenever they are initialized or
one of their tasks is called.
-/

namespace Simo

open Statistics

/-! ## Statistics of a program -/

/-- The attributes that have to do with statistics, and what the modules of a program add. -/
structure Sampling (ModuleRef User : Type*) where
  /-- `Module::statistics`. -/
  statistics : ModuleRef → List Count
  /-- `Collector::searched_statistics`. -/
  searchedStatistics : ModuleRef → Bool
  /-- `Collector::mapper`. -/
  mapper : ModuleRef → List (ModuleStatMapper ModuleRef)
  /-- What has been written to files. -/
  files : List Char → Option (List CountRepresentation)
  /-- Everything else. -/
  user : User

/-- Collectors that have not looked up any statistic. -/
def Sampling.constructed {ModuleRef User : Type*} (statistics : ModuleRef → List Count)
    (user : User) : Sampling ModuleRef User where
  statistics := statistics
  searchedStatistics _ := false
  mapper _ := []
  files _ := none
  user := user

variable {Ty ModuleRef Task User : Type*} {Val : Ty → Type} [DecidableEq ModuleRef]

namespace Collector

variable (collector : ModuleRef) (store : ModuleStore ModuleRef (Sampling ModuleRef User))

def collect : ModuleStore ModuleRef (Sampling ModuleRef User) :=
  if store.rest.searchedStatistics collector then store
  else
    let mapper := store.rest.mapper collector ++
      (store.collected collector).map (ModuleStatMapper.new store.rest.statistics)
    { store with rest := { store.rest with
        mapper := Function.update store.rest.mapper collector mapper
        searchedStatistics := Function.update store.rest.searchedStatistics collector true } }

def openWindow : ModuleStore ModuleRef (Sampling ModuleRef User) :=
  let store := collect collector store
  let mapper := (store.rest.mapper collector).map fun modMapper =>
    modMapper.assign store.rest.statistics
  { store with rest := { store.rest with
      mapper := Function.update store.rest.mapper collector mapper } }

/-- Close the window and write the file, which is taken to succeed. -/
def closeWindow : ModuleStore ModuleRef (Sampling ModuleRef User) :=
  let store := collect collector store
  let array := (store.rest.mapper collector).flatMap fun modMapper =>
    (modMapper.computeDiff store.rest.statistics store.name_).map Count.dumpRepresentation
  { store with rest := { store.rest with
      files := Function.update store.rest.files (store.dumpPath collector) (some array) } }

end Collector

/-- A request of a module of the program. -/
def Request.user : Request Task → Request (ModuleTask ModuleRef Task)
  | .scheduleAt timeTarget callable => .scheduleAt timeTarget (.user callable)
  | .scheduleIn timeDelta callable => .scheduleIn timeDelta (.user callable)

/-- A program whose modules count. -/
structure StatProgram (Ty ModuleRef Task User : Type*) (Val : Ty → Type) [DecidableEq Ty] where
  regexMatch : List Char → List Char → Bool
  /-- What a module does to statistics and to its own attributes when it is initialized. -/
  initializeUser : ModuleRef → Parameters (ParameterType.Value Val) →
    Context (ModuleTask ModuleRef Task) ModuleRef (ModuleParameters Val) →
    ModuleStore ModuleRef (Sampling ModuleRef User) → InitializationStatus ModuleRef →
    List (StatUpdate ModuleRef) × User × List (Request Task) × InitializationStatus ModuleRef
  /-- The same for a task. -/
  callUser : Task → Time → ModuleStore ModuleRef (Sampling ModuleRef User) →
    List (StatUpdate ModuleRef) × User × List (Request Task)

namespace StatProgram

variable [DecidableEq Ty] (program : StatProgram Ty ModuleRef Task User Val)

/-- Carry out updates and replace the attributes of the modules of the program. -/
def update (store : ModuleStore ModuleRef (Sampling ModuleRef User))
    (updates : List (StatUpdate ModuleRef)) (user : User) :
    ModuleStore ModuleRef (Sampling ModuleRef User) :=
  { store with rest := { store.rest with
      statistics := updates.foldl StatUpdate.apply store.rest.statistics
      user := user } }

/-- The program with the tasks of the collectors. -/
def toProgram : Program Ty ModuleRef Task (Sampling ModuleRef User) Val where
  regexMatch := program.regexMatch
  initializeUser module parameters ctx store status :=
    let (updates, user, requests, status) :=
      program.initializeUser module parameters ctx store status
    ((update store updates user).rest, requests.map Request.user, status)
  call task tick store :=
    match task with
    | .openWindow collector => (Collector.openWindow collector store, [])
    | .closeWindow collector => (Collector.closeWindow collector store, [])
    | .user task =>
        let (updates, user, requests) := program.callUser task tick store
        (update store updates user, requests.map Request.user)

/-- The program as the code that a context calls back into. -/
abbrev behaviour : Behaviour (ModuleTask ModuleRef Task) ModuleRef (ModuleParameters Val)
    (ModuleStore ModuleRef (Sampling ModuleRef User)) :=
  program.toProgram.behaviour

/-- What a task does to statistics. -/
def updates (store : ModuleStore ModuleRef (Sampling ModuleRef User)) (tick : Time) :
    ModuleTask ModuleRef Task → List (StatUpdate ModuleRef)
  | .user task => (program.callUser task tick store).1
  | .openWindow _ | .closeWindow _ => []

/-- The sum of the increments and decrements of a statistic by task calls. -/
def counted (ref : StatisticRef ModuleRef) :
    ModuleStore ModuleRef (Sampling ModuleRef User) → List (Time × ModuleTask ModuleRef Task) → ℤ
  | _, [] => 0
  | store, (tick, task) :: executed =>
      ((program.updates store tick task).map (StatUpdate.amount ref)).sum +
        counted ref (program.behaviour.call task tick store).1 executed

end StatProgram

/-! ## One task -/

namespace Collector

variable {collector : ModuleRef} {store : ModuleStore ModuleRef (Sampling ModuleRef User)}
  {held : ModuleRef → List Count} {copy : StatisticRef ModuleRef → Count}

/-- The collector has not looked up any statistic. -/
structure Unsampled (store : ModuleStore ModuleRef (Sampling ModuleRef User))
    (collector : ModuleRef) : Prop where
  searchedStatistics : store.rest.searchedStatistics collector = false
  mapper : store.rest.mapper collector = []

/-- The collector has looked up the statistics that its modules held, and has some copies. -/
structure Tracks (store : ModuleStore ModuleRef (Sampling ModuleRef User)) (collector : ModuleRef)
    (held : ModuleRef → List Count) (copy : StatisticRef ModuleRef → Count) : Prop where
  searchedStatistics : store.rest.searchedStatistics collector = true
  mapper : store.rest.mapper collector =
    (store.collected collector).map (ModuleStatMapper.tracking held copy)

/-- Looking up statistics changes the mappers of the collector alone. -/
theorem collect_eq (collector : ModuleRef)
    (store : ModuleStore ModuleRef (Sampling ModuleRef User)) :
    ∃ mappers, collect collector store = { store with rest := { store.rest with
      mapper := Function.update store.rest.mapper collector mappers
      searchedStatistics :=
        Function.update store.rest.searchedStatistics collector true } } := by
  rw [collect]
  split
  next searched =>
    refine ⟨store.rest.mapper collector, ?_⟩
    rw [Function.update_eq_self, ← searched, Function.update_eq_self]
  next => exact ⟨_, rfl⟩

theorem Unsampled.collect (unsampled : Unsampled store collector) :
    Tracks (collect collector store) collector store.rest.statistics
      fun ref => (deref store.rest.statistics ref).getD ⟨[], 0⟩ := by
  rw [Collector.collect, unsampled.searchedStatistics, if_neg Bool.false_ne_true,
    unsampled.mapper]
  refine ⟨Function.update_self .., ?_⟩
  dsimp only
  rw [Function.update_self, List.nil_append]
  exact List.map_congr_left fun module _ =>
    ModuleStatMapper.new_eq_tracking store.rest.statistics module

theorem Tracks.collect (tracks : Tracks store collector held copy) :
    collect collector store = store := by
  rw [Collector.collect, if_pos tracks.searchedStatistics]

/-- Opening the window renews the copies. -/
theorem Tracks.assign (tracks : Tracks (Collector.collect collector store) collector held copy) :
    Tracks (openWindow collector store) collector held fun ref =>
      (deref (Collector.collect collector store).rest.statistics ref).getD (copy ref) := by
  refine ⟨tracks.searchedStatistics, ?_⟩
  rw [openWindow]
  dsimp only
  rw [Function.update_self, tracks.mapper, List.map_map]
  exact List.map_congr_left fun module _ =>
    ModuleStatMapper.assign_tracking _ held copy module

theorem openWindow_eq (collector : ModuleRef)
    (store : ModuleStore ModuleRef (Sampling ModuleRef User)) :
    ∃ mappers, openWindow collector store = { store with rest := { store.rest with
      mapper := Function.update store.rest.mapper collector mappers
      searchedStatistics :=
        Function.update store.rest.searchedStatistics collector true } } := by
  obtain ⟨mappers, looked⟩ := collect_eq collector store
  rw [openWindow, looked]
  dsimp only
  rw [Function.update_idem]
  exact ⟨_, rfl⟩

theorem closeWindow_eq (collector : ModuleRef)
    (store : ModuleStore ModuleRef (Sampling ModuleRef User)) :
    ∃ mappers files, closeWindow collector store = { store with rest := { store.rest with
      mapper := Function.update store.rest.mapper collector mappers
      searchedStatistics := Function.update store.rest.searchedStatistics collector true
      files := files } } := by
  obtain ⟨mappers, looked⟩ := collect_eq collector store
  rw [closeWindow, looked]
  exact ⟨_, _, rfl⟩

/-- Closing the window writes what the statistics have gained since they were copied. -/
theorem Tracks.closeWindow {gained : StatisticRef ModuleRef → ℤ}
    (tracks : Tracks store collector held copy)
    (since : ∀ ref count, deref held ref = some count →
      deref store.rest.statistics ref = some ⟨count.name_, (copy ref).val + gained ref⟩) :
    Collector.closeWindow collector store = { store with rest := { store.rest with
      files := Function.update store.rest.files (store.dumpPath collector)
        (some ((store.collected collector).flatMap fun module =>
          (held module).zipIdx.map fun entry => ⟨store.name_ module ++ '/' :: entry.1.name_,
            "count", gained ⟨module, entry.2⟩⟩)) } } := by
  rw [Collector.closeWindow, tracks.collect]
  dsimp only
  rw [tracks.mapper, List.flatMap_map]
  congr 5
  funext module
  rw [ModuleStatMapper.computeDiff_tracking store.rest.statistics store.name_
    fun index count present => since ⟨module, index⟩ count present, List.map_map]
  rfl

end Collector

namespace StatProgram

variable [DecidableEq Ty] {program : StatProgram Ty ModuleRef Task User Val}
  {store : ModuleStore ModuleRef (Sampling ModuleRef User)} {collector : ModuleRef}
  {held : ModuleRef → List Count} {copy : StatisticRef ModuleRef → Count} {tick : Time}
  {task : ModuleTask ModuleRef Task}

/-- A task leaves the names, the samples and the paths alone, and changes statistics by its
updates. -/
theorem call_eq (program : StatProgram Ty ModuleRef Task User Val)
    (task : ModuleTask ModuleRef Task) (tick : Time)
    (store : ModuleStore ModuleRef (Sampling ModuleRef User)) :
    ∃ rest, (program.behaviour.call task tick store).1 = { store with rest := rest } ∧
      rest.statistics =
        (program.updates store tick task).foldl StatUpdate.apply store.rest.statistics := by
  cases task with
  | openWindow collector =>
      obtain ⟨mappers, opened⟩ := Collector.openWindow_eq collector store
      exact ⟨_, opened, rfl⟩
  | closeWindow collector =>
      obtain ⟨mappers, files, closed⟩ := Collector.closeWindow_eq collector store
      exact ⟨_, closed, rfl⟩
  | user task => exact ⟨_, rfl, rfl⟩

theorem statistics_call (program : StatProgram Ty ModuleRef Task User Val)
    (task : ModuleTask ModuleRef Task) (tick : Time)
    (store : ModuleStore ModuleRef (Sampling ModuleRef User)) :
    (program.behaviour.call task tick store).1.rest.statistics =
      (program.updates store tick task).foldl StatUpdate.apply store.rest.statistics := by
  obtain ⟨rest, called, statistics⟩ := program.call_eq task tick store
  rw [called]
  exact statistics

/-- Only its own windows change the mappers of a collector. -/
theorem mapper_call (program : StatProgram Ty ModuleRef Task User Val) (tick : Time)
    (store : ModuleStore ModuleRef (Sampling ModuleRef User))
    (opensOther : task ≠ .openWindow collector) (closesOther : task ≠ .closeWindow collector) :
    (program.behaviour.call task tick store).1.rest.searchedStatistics collector =
        store.rest.searchedStatistics collector ∧
      (program.behaviour.call task tick store).1.rest.mapper collector =
        store.rest.mapper collector := by
  cases task with
  | openWindow other =>
      have apart : collector ≠ other := fun same => opensOther (same ▸ rfl)
      obtain ⟨mappers, opened⟩ := Collector.openWindow_eq other store
      have called : (program.behaviour.call (.openWindow other) tick store).1 = _ := opened
      rw [called]
      exact ⟨Function.update_of_ne apart .., Function.update_of_ne apart ..⟩
  | closeWindow other =>
      have apart : collector ≠ other := fun same => closesOther (same ▸ rfl)
      obtain ⟨mappers, files, closed⟩ := Collector.closeWindow_eq other store
      have called : (program.behaviour.call (.closeWindow other) tick store).1 = _ := closed
      rw [called]
      exact ⟨Function.update_of_ne apart .., Function.update_of_ne apart ..⟩
  | user task => exact ⟨rfl, rfl⟩

theorem unsampled_call (unsampled : Collector.Unsampled store collector)
    (opensOther : task ≠ .openWindow collector) (closesOther : task ≠ .closeWindow collector) :
    Collector.Unsampled (program.behaviour.call task tick store).1 collector := by
  obtain ⟨searched, mapper⟩ := program.mapper_call tick store opensOther closesOther
  exact ⟨searched.trans unsampled.searchedStatistics, mapper.trans unsampled.mapper⟩

/-- Between two openings of its window the copies of a collector stay. -/
theorem tracks_call (tracks : Collector.Tracks store collector held copy)
    (opensOther : task ≠ .openWindow collector) :
    Collector.Tracks (program.behaviour.call task tick store).1 collector held copy := by
  by_cases closes : task = .closeWindow collector
  · subst closes
    change Collector.Tracks (Collector.closeWindow collector store) collector held copy
    rw [Collector.closeWindow, tracks.collect]
    exact ⟨tracks.searchedStatistics, tracks.mapper⟩
  · obtain ⟨searched, mapper⟩ := program.mapper_call tick store opensOther closes
    obtain ⟨rest, called, -⟩ := program.call_eq task tick store
    refine ⟨searched.trans tracks.searchedStatistics, ?_⟩
    rw [mapper, tracks.mapper, called]

theorem exists_tracks_call (task : ModuleTask ModuleRef Task) (tick : Time)
    (tracks : ∃ copy, Collector.Tracks store collector held copy) :
    ∃ copy, Collector.Tracks (program.behaviour.call task tick store).1 collector held copy := by
  obtain ⟨copy, tracks⟩ := tracks
  by_cases opens : task = .openWindow collector
  · subst opens
    have collected := tracks
    rw [← tracks.collect] at collected
    exact ⟨_, collected.assign⟩
  · exact ⟨copy, tracks_call tracks opens⟩

/-- Opening the window copies every statistic that the collector looks up, or has looked up. -/
theorem tracks_openWindow (looked : Collector.Unsampled store collector ∧
      held = store.rest.statistics ∨ ∃ copy, Collector.Tracks store collector held copy)
    (live : ∀ ref count, deref held ref = some count →
      ∃ val, deref store.rest.statistics ref = some ⟨count.name_, val⟩) :
    ∃ copy, Collector.Tracks (Collector.openWindow collector store) collector held copy ∧
      ∀ ref count, deref held ref = some count →
        deref (Collector.openWindow collector store).rest.statistics ref =
          some ⟨count.name_, (copy ref).val⟩ := by
  have collected : ∃ copy, Collector.Tracks (Collector.collect collector store) collector held
      copy := by
    rcases looked with ⟨unsampled, rfl⟩ | ⟨copy, tracks⟩
    · exact ⟨_, unsampled.collect⟩
    · rw [tracks.collect]
      exact ⟨copy, tracks⟩
  obtain ⟨copy, tracks⟩ := collected
  obtain ⟨mappers, looked⟩ := Collector.collect_eq collector store
  obtain ⟨mappers', opened⟩ := Collector.openWindow_eq collector store
  refine ⟨_, tracks.assign, fun ref count present => ?_⟩
  obtain ⟨val, here⟩ := live ref count present
  rw [opened, looked]
  dsimp only
  rw [here, Option.getD_some]

/-! ## Task calls one after the other -/

section Replay

variable {executed : List (Time × ModuleTask ModuleRef Task)}

/-- Along task calls the names, the samples and the paths stay. -/
theorem replay_eq (program : StatProgram Ty ModuleRef Task User Val)
    (store : ModuleStore ModuleRef (Sampling ModuleRef User))
    (executed : List (Time × ModuleTask ModuleRef Task)) :
    ∃ rest, program.behaviour.replay store executed = { store with rest := rest } := by
  refine program.behaviour.replay_invariant
    (P := fun after => ∃ rest, after = { store with rest := rest }) ⟨store.rest, rfl⟩ ?_
  rintro entry - _ ⟨rest, rfl⟩
  obtain ⟨rest, called, -⟩ := program.call_eq entry.2 entry.1 { store with rest := rest }
  exact ⟨rest, called⟩

/-- A statistic stays and changes by what the task calls count. -/
theorem deref_replay {ref : StatisticRef ModuleRef} {count : Count}
    (present : deref store.rest.statistics ref = some count)
    (executed : List (Time × ModuleTask ModuleRef Task)) :
    deref (program.behaviour.replay store executed).rest.statistics ref =
      some { count with val := count.val + program.counted ref store executed } := by
  induction executed generalizing store count with
  | nil =>
      rw [counted, add_zero]
      exact present
  | cons entry executed induction =>
      obtain ⟨tick, task⟩ := entry
      have after := StatUpdate.deref_foldl_apply present (program.updates store tick task)
      rw [← program.statistics_call] at after
      rw [Behaviour.replay_cons, induction after, counted, add_assoc]

theorem unsampled_replay (unsampled : Collector.Unsampled store collector)
    (opensOther : ∀ entry ∈ executed, entry.2 ≠ .openWindow collector)
    (closesOther : ∀ entry ∈ executed, entry.2 ≠ .closeWindow collector) :
    Collector.Unsampled (program.behaviour.replay store executed) collector :=
  program.behaviour.replay_invariant (P := fun after => Collector.Unsampled after collector)
    unsampled fun entry member _ before =>
      unsampled_call before (opensOther entry member) (closesOther entry member)

theorem tracks_replay (program : StatProgram Ty ModuleRef Task User Val)
    (tracks : Collector.Tracks store collector held copy)
    (opensOther : ∀ entry ∈ executed, entry.2 ≠ .openWindow collector) :
    Collector.Tracks (program.behaviour.replay store executed) collector held copy :=
  program.behaviour.replay_invariant
    (P := fun after => Collector.Tracks after collector held copy) tracks
    fun entry member _ before => tracks_call before (opensOther entry member)

variable {first more during : List (Time × ModuleTask ModuleRef Task)}

/-- When its window has been opened, the collector has copied the statistics that its modules held
when it was opened for the first time. -/
theorem exists_copy (program : StatProgram Ty ModuleRef Task User Val)
    (unsampled : Collector.Unsampled store collector)
    (opensOther : ∀ entry ∈ first, entry.2 ≠ .openWindow collector)
    (closesOther : ∀ entry ∈ first, entry.2 ≠ .closeWindow collector)
    (opens : ∀ entry ∈ more.head?, entry.2 = .openWindow collector) (tick : Time) :
    ∃ copy, Collector.Tracks
        (program.behaviour.replay store (first ++ more ++ [(tick, .openWindow collector)]))
        collector (program.behaviour.replay store first).rest.statistics copy ∧
      ∀ ref count, deref (program.behaviour.replay store first).rest.statistics ref = some count →
        deref (program.behaviour.replay store
            (first ++ more ++ [(tick, .openWindow collector)])).rest.statistics ref =
          some ⟨count.name_, (copy ref).val⟩ := by
  rw [Behaviour.replay_append, Behaviour.replay_append]
  have fresh : Collector.Unsampled (program.behaviour.replay store first) collector :=
    unsampled_replay unsampled opensOther closesOther
  refine tracks_openWindow ?_ fun ref count present => ⟨_, deref_replay present more⟩
  cases more with
  | nil => exact .inl ⟨fresh, rfl⟩
  | cons entry mid =>
      obtain ⟨opened, task⟩ := entry
      obtain rfl : task = .openWindow collector := opens _ rfl
      refine .inr ?_
      rw [Behaviour.replay_cons]
      exact program.behaviour.replay_invariant
        (P := fun after => ∃ copy, Collector.Tracks after collector
          (program.behaviour.replay store first).rest.statistics copy)
        ⟨_, fresh.collect.assign⟩ fun entry _ _ before => exists_tracks_call entry.2 entry.1 before

/-- What a window writes when it closes: what the task calls since it was opened have counted. -/
theorem files_closeWindow (unsampled : Collector.Unsampled store collector)
    (opensOther : ∀ entry ∈ first, entry.2 ≠ .openWindow collector)
    (closesOther : ∀ entry ∈ first, entry.2 ≠ .closeWindow collector)
    (opens : ∀ entry ∈ more.head?, entry.2 = .openWindow collector)
    (during_opens : ∀ entry ∈ during, entry.2 ≠ .openWindow collector) (tick : Time) :
    (Collector.closeWindow collector (program.behaviour.replay store
        (first ++ more ++ (tick, .openWindow collector) :: during))).rest.files
        (store.dumpPath collector) =
      some ((store.collected collector).flatMap fun module =>
        ((program.behaviour.replay store first).rest.statistics module).zipIdx.map fun entry =>
          ⟨store.name_ module ++ '/' :: entry.1.name_, "count",
            program.counted ⟨module, entry.2⟩
              (program.behaviour.replay store (first ++ more ++ [(tick, .openWindow collector)]))
              during⟩) := by
  obtain ⟨copy, tracks, copied⟩ :=
    program.exists_copy unsampled opensOther closesOther opens tick
  rw [List.append_cons, Behaviour.replay_append]
  have closing := program.tracks_replay tracks during_opens
  rw [closing.closeWindow fun ref count present => deref_replay (copied ref count present) during]
  obtain ⟨rest, atClose⟩ := program.replay_eq store
    (first ++ more ++ (tick, .openWindow collector) :: during)
  rw [List.append_cons, Behaviour.replay_append] at atClose
  rw [atClose]
  exact Function.update_self ..

end Replay

end StatProgram

end Simo
