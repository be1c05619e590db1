import Mathlib.Algebra.Order.Ring.Int
import Simo.Core.InitializationStatus
import Simo.Support.Census
import Simo.Support.Transition

/-!
# Loggers and their sinks

Loggers share the files they write to.  A process-wide table holds one open stream for each path
with a count of its users; a logger remembers the path that it was initialized with last, whether or
not the file could be opened, and a pointer to the stream.  The destructor gives a reference back by
the path.  Loggers have the copy operations of the compiler, which take part in no counting.

`Process` is the table together with the live loggers.  Two of its fields are records that no
function reads: what happened to the streams, and for every logger the path that its last
initialization succeeded for, which a copy inherits.
-/

namespace Simo

/-- A file stream; the number stands for its address. -/
structure Sink where
  address : ℕ
  isOpen : Bool
deriving DecidableEq

/-- A stream with the number of its users. -/
structure SinkTracker where
  sink : Sink
  refCount : ℤ
deriving DecidableEq

/-- What the table does with a stream at the end. -/
inductive SinkAction where
  | flush
  | close
  | erase
deriving DecidableEq

/-- The table of open streams. -/
structure SinkTable (Path : Type*) where
  /-- `sink_tracker`. -/
  sinkTracker : AList fun _ : Path => SinkTracker
  /-- The address of the next stream. -/
  nextAddress : ℕ
  /-- What has been done with streams so far. -/
  performed : List (Path × SinkAction)

/-- The table before any logger is initialized. -/
def SinkTable.new {Path : Type*} : SinkTable Path where
  sinkTracker := ∅
  nextAddress := 0
  performed := []

/-- A logger.  The default path is the empty one. -/
structure Logger (Path : Type*) where
  sinkPath : Path
  /-- The address of the stream, if the pointer is not null. -/
  sink : Option ℕ
  isEnabled : Bool
deriving DecidableEq

/-- A default constructed logger. -/
instance Logger.instInhabited {Path : Type*} [Inhabited Path] : Inhabited (Logger Path) :=
  ⟨default, none, false⟩

/-- What an initialization leaves: the logger, the table and the status. -/
abbrev Initialized (Path ModuleRef : Type*) :=
  Logger Path × SinkTable Path × InitializationStatus ModuleRef

section Functions

variable {Path ModuleRef : Type*} [DecidableEq Path]

/-- `Logger::initialize`, where `opens` says whether the file can be opened. -/
def Logger.initializeLogger [ToString Path] (logger : Logger Path) (table : SinkTable Path)
    (sinkPathV : Path) (opens : Bool) : Initialized Path ModuleRef :=
  let logger := { logger with sinkPath := sinkPathV }
  match table.sinkTracker.lookup sinkPathV with
  | some tracker =>
      ({ logger with sink := some tracker.sink.address, isEnabled := true },
        { table with
          sinkTracker :=
            table.sinkTracker.insert sinkPathV { tracker with refCount := tracker.refCount + 1 } },
        .ok none)
  | none =>
      if opens then
        ({ logger with sink := some table.nextAddress, isEnabled := true },
          { table with
            sinkTracker := table.sinkTracker.insert sinkPathV ⟨⟨table.nextAddress, true⟩, 1⟩
            nextAddress := table.nextAddress + 1 },
          .ok none)
      else (logger, table, .ofErrors none ["Failed to open log file: " ++ toString sinkPathV])

/-- The destructor. -/
def Logger.destroy (logger : Logger Path) (table : SinkTable Path) : SinkTable Path :=
  match table.sinkTracker.lookup logger.sinkPath with
  | none => table
  | some tracker =>
      let tracker := { tracker with refCount := tracker.refCount - 1 }
      if tracker.refCount ≤ 0 then
        { table with
          sinkTracker := table.sinkTracker.erase logger.sinkPath
          performed := table.performed ++
            [(logger.sinkPath, .flush), (logger.sinkPath, .close), (logger.sinkPath, .erase)] }
      else { table with sinkTracker := table.sinkTracker.insert logger.sinkPath tracker }

/-- `Module::log_setup`: assign a new logger, which is destroyed after the assignment, and
initialize. -/
def Module.logSetup [Inhabited Path] [ToString Path] (table : SinkTable Path) (outFile : Path)
    (opens : Bool) : Initialized Path ModuleRef :=
  let logger : Logger Path := default
  logger.initializeLogger ((default : Logger Path).destroy table) outFile opens

end Functions

/-! ## What the functions do to the table -/

section Specifications

variable {Path ModuleRef : Type*} [DecidableEq Path]

/-- The stream that is in the table for a path. -/
def SinkTable.tracked (table : SinkTable Path) (path : Path) : Option SinkTracker :=
  table.sinkTracker.lookup path

theorem tracked_insert (table : SinkTable Path) (path other : Path) (tracker : SinkTracker)
    (nextAddress : ℕ) :
    SinkTable.tracked { table with
        sinkTracker := table.sinkTracker.insert path tracker, nextAddress := nextAddress } other =
      if other = path then some tracker else table.tracked other := by
  split
  next here => rw [here]; exact AList.lookup_insert _
  next apart => exact AList.lookup_insert_ne apart

/-- The destructor takes one reference back, and the stream with the last one. -/
theorem tracked_destroy (logger : Logger Path) (table : SinkTable Path) (path : Path) :
    (logger.destroy table).tracked path =
      if path = logger.sinkPath then
        (table.tracked path).bind fun tracker =>
          if tracker.refCount ≤ 1 then none
          else some { tracker with refCount := tracker.refCount - 1 }
      else table.tracked path := by
  rw [Logger.destroy]
  split
  next absent =>
    split
    next here => rw [here, SinkTable.tracked, absent]; rfl
    next => rfl
  next tracker present =>
    dsimp only
    split
    next last =>
      split
      next here =>
        rw [here, SinkTable.tracked, SinkTable.tracked, present, AList.lookup_erase,
          Option.bind_some, if_pos (by omega)]
      next apart => exact AList.lookup_erase_ne apart
    next more =>
      rw [tracked_insert]
      split
      next here =>
        rw [here, SinkTable.tracked, present, Option.bind_some, if_neg (by omega)]
      next => rfl

/-- Streams in the table are open, and none has the empty path. -/
structure SinkTable.Sound [Inhabited Path] (table : SinkTable Path) : Prop where
  isOpen : ∀ path tracker, table.tracked path = some tracker → tracker.sink.isOpen = true
  named : table.tracked default = none

theorem sound_new [Inhabited Path] : (.new : SinkTable Path).Sound := ⟨nofun, rfl⟩

theorem SinkTable.Sound.destroy [Inhabited Path] {table : SinkTable Path} (sound : table.Sound)
    (logger : Logger Path) : (logger.destroy table).Sound := by
  constructor
  · intro path tracker present
    rw [tracked_destroy] at present
    split at present
    next here =>
      obtain ⟨old, tracked, kept⟩ := Option.bind_eq_some_iff.mp present
      split at kept
      next => cases kept
      next =>
        rw [← Option.some.inj kept]
        exact sound.isOpen path old tracked
    next => exact sound.isOpen path tracker present
  · rw [tracked_destroy, sound.named]
    split <;> rfl

/-- Destroying a new logger does nothing. -/
theorem destroy_default [Inhabited Path] {table : SinkTable Path}
    (untracked : table.tracked default = none) :
    (default : Logger Path).destroy table = table := by
  rw [Logger.destroy]
  rw [show table.sinkTracker.lookup (default : Logger Path).sinkPath = none from untracked]

variable [ToString Path] {logger : Logger Path} {table : SinkTable Path} {path : Path}
  {opens : Bool}

/-- Initialization adds a reference, and the stream with the first one. -/
theorem tracked_initializeLogger (logger : Logger Path) (table : SinkTable Path) (path : Path)
    (opens : Bool) (other : Path) :
    (logger.initializeLogger table path opens : Initialized Path ModuleRef).2.1.tracked other =
      if other = path then
        match table.tracked path with
        | some tracker => some { tracker with refCount := tracker.refCount + 1 }
        | none => if opens then some ⟨⟨table.nextAddress, true⟩, 1⟩ else none
      else table.tracked other := by
  rw [Logger.initializeLogger]
  dsimp only
  split
  next tracker present =>
    dsimp only
    rw [tracked_insert]
    rw [show table.tracked path = some tracker from present]
  next absent =>
    rw [show table.tracked path = none from absent]
    split
    next => exact tracked_insert _ _ _ _ _
    next =>
      split
      next here => rw [here]; exact absent
      next => rfl

theorem success_initializeLogger (logger : Logger Path) (table : SinkTable Path) (path : Path)
    (opens : Bool) :
    (logger.initializeLogger table path opens : Initialized Path ModuleRef).2.2.success =
      ((table.tracked path).isSome || opens) := by
  rw [Logger.initializeLogger]
  dsimp only
  split
  next tracker present =>
    rw [show table.tracked path = some tracker from present]
    rfl
  next absent =>
    rw [show table.tracked path = none from absent]
    split
    next => simp_all
    next => simp_all

theorem sinkPath_initializeLogger (logger : Logger Path) (table : SinkTable Path) (path : Path)
    (opens : Bool) :
    (logger.initializeLogger table path opens : Initialized Path ModuleRef).1.sinkPath = path := by
  rw [Logger.initializeLogger]
  dsimp only
  split
  next => rfl
  next => split <;> rfl

/-- After a successful initialization the logger points to the stream in the table. -/
theorem sink_initializeLogger
    (success :
      (logger.initializeLogger table path opens : Initialized Path ModuleRef).2.2.success) :
    ∃ tracker,
      (logger.initializeLogger table path opens : Initialized Path ModuleRef).2.1.tracked path =
        some tracker ∧
      (logger.initializeLogger table path opens : Initialized Path ModuleRef).1.sink =
        some tracker.sink.address := by
  rw [success_initializeLogger] at success
  rw [tracked_initializeLogger, if_pos rfl, Logger.initializeLogger]
  cases present : table.tracked path with
  | some tracker =>
      rw [show table.sinkTracker.lookup path = some tracker from present]
      exact ⟨_, rfl, rfl⟩
  | none =>
      rw [present, Option.isSome_none, Bool.false_or] at success
      rw [show table.sinkTracker.lookup path = none from present, success]
      exact ⟨_, rfl, rfl⟩

theorem SinkTable.Sound.initializeLogger [Inhabited Path] (sound : table.Sound)
    (logger : Logger Path) (named : opens = true → path ≠ default) :
    (logger.initializeLogger table path opens : Initialized Path ModuleRef).2.1.Sound := by
  constructor
  · intro other tracker present
    rw [tracked_initializeLogger] at present
    split at present
    next here =>
      split at present
      next old tracked =>
        rw [← Option.some.inj present]
        exact sound.isOpen path old tracked
      next =>
        split at present
        next => rw [← Option.some.inj present]
        next => cases present
    next => exact sound.isOpen other tracker present
  · rw [tracked_initializeLogger]
    split
    next here =>
      rw [← here, sound.named]
      exact if_neg fun opened => named opened here.symm
    next => exact sound.named

end Specifications

/-- A logger with the path that its last initialization succeeded for, if it did. -/
structure LiveLogger (Path : Type*) where
  logger : Logger Path
  initializedFor : Option Path
deriving DecidableEq

namespace LiveLogger

variable {Path ModuleRef : Type*} [DecidableEq Path] {table : SinkTable Path}
  {live : LiveLogger Path}

/-- If the last initialization succeeded, the stream for its path is in the table and open, and the
logger points to it. -/
def HasSink (live : LiveLogger Path) (table : SinkTable Path) : Prop :=
  ∀ path, live.initializedFor = some path → ∃ tracker, table.tracked path = some tracker ∧
    tracker.sink.isOpen = true ∧ live.logger.sink = some tracker.sink.address

/-- Initializing another logger takes no stream away. -/
theorem HasSink.initializeLogger [ToString Path] (has : live.HasSink table) (logger : Logger Path)
    (path : Path) (opens : Bool) :
    live.HasSink (logger.initializeLogger table path opens : Initialized Path ModuleRef).2.1 := by
  intro own initialized
  obtain ⟨tracker, present, isOpen, points⟩ := has own initialized
  rw [tracked_initializeLogger]
  split
  next here =>
    rw [here] at present
    rw [present]
    exact ⟨_, rfl, isOpen, points⟩
  next => exact ⟨tracker, present, isOpen, points⟩

end LiveLogger

/-- The table of streams and the live loggers. -/
structure Process (Id Path : Type*) where
  table : SinkTable Path
  loggers : AList fun _ : Id => LiveLogger Path

/-- What can happen to loggers. -/
inductive LogEvent (Id Path : Type*) where
  | construct (id : Id)
  | copyConstruct (id source : Id)
  | copyAssign (id source : Id)
  | initializes (id : Id) (path : Path) (opens : Bool)
  | logSetup (id : Id) (path : Path) (opens : Bool)
  | destroy (id : Id)
deriving DecidableEq

namespace Process

variable {Id Path : Type*} [DecidableEq Id]

/-- A process without loggers. -/
def new : Process Id Path where
  table := .new
  loggers := ∅

/-- Store what an initialization returns. -/
def store (process : Process Id Path) (id : Id) (path : Path)
    (result : Initialized Path Id) : Process Id Path where
  table := result.2.1
  loggers := process.loggers.insert id
    ⟨result.1, if result.2.2.success then some path else none⟩

section Steps

variable [DecidableEq Path] [Inhabited Path] [ToString Path]

/-- One event.  A file with the empty path cannot be opened. -/
inductive Step : Process Id Path → LogEvent Id Path → Process Id Path → Prop
  | construct {process : Process Id Path} {id : Id} (unused : process.loggers.lookup id = none) :
      Step process (.construct id)
        { process with loggers := process.loggers.insert id ⟨default, none⟩ }
  | copyConstruct {process : Process Id Path} {id source : Id} {copied : LiveLogger Path}
      (unused : process.loggers.lookup id = none)
      (live : process.loggers.lookup source = some copied) :
      Step process (.copyConstruct id source)
        { process with loggers := process.loggers.insert id copied }
  | copyAssign {process : Process Id Path} {id source : Id} {old copied : LiveLogger Path}
      (target : process.loggers.lookup id = some old)
      (live : process.loggers.lookup source = some copied) :
      Step process (.copyAssign id source)
        { process with loggers := process.loggers.insert id copied }
  | initializes {process : Process Id Path} {id : Id} {live : LiveLogger Path} {path : Path}
      {opens : Bool} (target : process.loggers.lookup id = some live)
      (named : opens = true → path ≠ default) :
      Step process (.initializes id path opens)
        (process.store id path (live.logger.initializeLogger process.table path opens))
  | logSetup {process : Process Id Path} {id : Id} {live : LiveLogger Path} {path : Path}
      {opens : Bool} (target : process.loggers.lookup id = some live)
      (named : opens = true → path ≠ default) :
      Step process (.logSetup id path opens)
        (process.store id path (Module.logSetup process.table path opens))
  | destroy {process : Process Id Path} {id : Id} {live : LiveLogger Path}
      (target : process.loggers.lookup id = some live) :
      Step process (.destroy id)
        { table := live.logger.destroy process.table, loggers := process.loggers.erase id }

/-- Carry out an event, if it is possible. -/
def perform (process : Process Id Path) : LogEvent Id Path → Option (Process Id Path)
  | .construct id =>
      match process.loggers.lookup id with
      | none => some { process with loggers := process.loggers.insert id ⟨default, none⟩ }
      | some _ => none
  | .copyConstruct id source =>
      match process.loggers.lookup id, process.loggers.lookup source with
      | none, some copied => some { process with loggers := process.loggers.insert id copied }
      | _, _ => none
  | .copyAssign id source =>
      match process.loggers.lookup id, process.loggers.lookup source with
      | some _, some copied => some { process with loggers := process.loggers.insert id copied }
      | _, _ => none
  | .initializes id path opens =>
      match process.loggers.lookup id with
      | some live =>
          if opens = true → path ≠ default then
            some (process.store id path (live.logger.initializeLogger process.table path opens))
          else none
      | none => none
  | .logSetup id path opens =>
      match process.loggers.lookup id with
      | some _ =>
          if opens = true → path ≠ default then
            some (process.store id path (Module.logSetup process.table path opens))
          else none
      | none => none
  | .destroy id =>
      match process.loggers.lookup id with
      | some live =>
          some { table := live.logger.destroy process.table, loggers := process.loggers.erase id }
      | none => none

theorem step_of_perform (before : Process Id Path) (event : LogEvent Id Path)
    (after : Process Id Path) (performed : before.perform event = some after) :
    Step before event after := by
  cases event <;> simp only [perform] at performed
  case construct id =>
    split at performed
    next unused => exact Option.some.inj performed ▸ .construct unused
    next => cases performed
  case copyConstruct id source =>
    split at performed
    next unused live => exact Option.some.inj performed ▸ .copyConstruct unused live
    next => cases performed
  case copyAssign id source =>
    split at performed
    next target live => exact Option.some.inj performed ▸ .copyAssign target live
    next => cases performed
  case initializes id path opens =>
    split at performed
    next target =>
      split at performed
      next named => exact Option.some.inj performed ▸ .initializes target named
      next => cases performed
    next => cases performed
  case logSetup id path opens =>
    split at performed
    next target =>
      split at performed
      next named => exact Option.some.inj performed ▸ .logSetup target named
      next => cases performed
    next => cases performed
  case destroy id =>
    split at performed
    next target => exact Option.some.inj performed ▸ .destroy target
    next => cases performed

theorem sound_step {before after : Process Id Path} {event : LogEvent Id Path}
    (sound : before.table.Sound) (step : Step before event after) : after.table.Sound := by
  cases step with
  | construct | copyConstruct | copyAssign => exact sound
  | initializes _ named => exact sound.initializeLogger _ named
  | logSetup _ named =>
      rw [Module.logSetup, destroy_default sound.named]
      exact sound.initializeLogger _ named
  | destroy _ => exact sound.destroy _

end Steps

/-! ## Loggers keep their sinks -/

section KeepsSinks

variable [DecidableEq Path] {process : Process Id Path}

/-- Every live logger has its sink. -/
def KeepsSinks (process : Process Id Path) : Prop :=
  ∀ id live, process.loggers.lookup id = some live → live.HasSink process.table

/-- A logger that is destroyed does not take the last reference to a path that another logger is
initialized for. -/
def LeavesUsers (step : Transition (Process Id Path) (LogEvent Id Path)) : Prop :=
  ∀ id live tracker, step.label = .destroy id → step.source.loggers.lookup id = some live →
    step.source.table.tracked live.logger.sinkPath = some tracker → tracker.refCount ≤ 1 →
    ∀ other user, other ≠ id → step.source.loggers.lookup other = some user →
      user.initializedFor ≠ some live.logger.sinkPath

theorem keepsSinks_insert (keeps : KeepsSinks process) {id : Id} {live : LiveLogger Path}
    (has : live.HasSink process.table) :
    KeepsSinks { process with loggers := process.loggers.insert id live } :=
  AList.forall_lookup_insert keeps has

variable [Inhabited Path] [ToString Path]

theorem keepsSinks_store (sound : process.table.Sound) (keeps : KeepsSinks process) (id : Id)
    (logger : Logger Path) {path : Path} {opens : Bool} (named : opens = true → path ≠ default) :
    KeepsSinks (process.store id path (logger.initializeLogger process.table path opens)) := by
  have others : KeepsSinks ⟨(logger.initializeLogger process.table path opens :
      Initialized Path Id).2.1, process.loggers⟩ := fun other user found =>
    (keeps other user found).initializeLogger logger path opens
  refine keepsSinks_insert others fun own initialized => ?_
  split at initialized
  next success =>
    obtain rfl := Option.some.inj initialized
    obtain ⟨tracker, present, points⟩ := sink_initializeLogger success
    exact ⟨tracker, present, (sound.initializeLogger logger named).isOpen _ _ present, points⟩
  next => cases initialized

/-- A step leaves every live logger its sink if and only if it does not take the last reference away
from one. -/
theorem keepsSinks_step_iff {before after : Process Id Path} {event : LogEvent Id Path}
    (sound : before.table.Sound) (step : Step before event after)
    (keeps : KeepsSinks before) :
    KeepsSinks after ↔ LeavesUsers ⟨before, event, after⟩ := by
  cases step with
  | construct => exact iff_of_true (keepsSinks_insert keeps nofun) nofun
  | copyConstruct _ live | copyAssign _ live =>
      exact iff_of_true (keepsSinks_insert keeps (keeps _ _ live)) nofun
  | initializes _ named => exact iff_of_true (keepsSinks_store sound keeps _ _ named) nofun
  | logSetup _ named =>
      rw [Module.logSetup, destroy_default sound.named]
      exact iff_of_true (keepsSinks_store sound keeps _ _ named) nofun
  | @destroy id live target =>
      constructor
      · rintro still _ _ tracker ⟨⟩ again present last other user apart found initialized
        obtain rfl := Option.some.inj (target.symm.trans again)
        obtain ⟨left, remaining, -⟩ := still other user
          ((AList.lookup_erase_ne apart).trans found) _ initialized
        rw [tracked_destroy, if_pos rfl, present, Option.bind_some, if_pos last] at remaining
        cases remaining
      · intro leaves other user remaining path initialized
        obtain ⟨apart, found⟩ := AList.lookup_of_lookup_erase remaining
        obtain ⟨tracker, present, isOpen, points⟩ := keeps other user found path initialized
        rw [tracked_destroy]
        split
        next here =>
          subst here
          rw [present, Option.bind_some, if_neg]
          · exact ⟨_, rfl, isOpen, points⟩
          · exact fun last => leaves id live tracker rfl target present last other user apart found
              initialized
        next => exact ⟨tracker, present, isOpen, points⟩

/-- In a history of loggers every live logger whose last initialization succeeded keeps its open
sink, after each event, if and only if no logger that is destroyed takes the last reference to a
path that another one is initialized for. -/
theorem keeps_sinks_throughout_iff
    {steps : List (Transition (Process Id Path) (LogEvent Id Path))}
    (history : StepPath Step .new steps process) :
    (∀ step ∈ steps, KeepsSinks step.target) ↔ ∀ step ∈ steps, LeavesUsers step :=
  history.forall_target_iff sound_new nofun
    (fun _ _ _ sound step => sound_step sound step) fun _ _ _ => keepsSinks_step_iff

end KeepsSinks

/-- Two loggers share a file, and one of them is destroyed. -/
theorem keeps_sinks_throughout_iff_shared :
    ∃ steps, ∃ process : Process ℕ ℕ, StepPath Step .new steps process ∧
      steps.map Transition.label = [.construct 0, .construct 1, .initializes 0 7 true,
        .initializes 1 7 false, .destroy 0] ∧
      ((∀ step ∈ steps, KeepsSinks step.target) ↔ ∀ step ∈ steps, LeavesUsers step) := by
  obtain ⟨steps, process, history, labels, -⟩ := StepPath.exists_of_checked step_of_perform
    (new : Process ℕ ℕ) [.construct 0, .construct 1, .initializes 0 7 true,
      .initializes 1 7 false, .destroy 0] (fun _ => True) (by decide)
  exact ⟨steps, process, history, labels, keeps_sinks_throughout_iff history⟩

/-- A logger that could not open a file takes the sink away from one that has opened it since. -/
theorem not_keepsSinks_stale :
    ∃ steps, ∃ process : Process ℕ ℕ, StepPath Step .new steps process ∧
      steps.map Transition.label = [.construct 0, .construct 1, .initializes 0 7 false,
        .initializes 1 7 true, .destroy 0] ∧
      (∃ live, process.loggers.lookup 1 = some live ∧ live.initializedFor = some 7) ∧
      process.table.tracked 7 = none ∧ ¬ KeepsSinks process := by
  obtain ⟨steps, process, history, labels, user, lost⟩ :=
    StepPath.exists_of_checked step_of_perform (new : Process ℕ ℕ) [.construct 0, .construct 1,
      .initializes 0 7 false, .initializes 1 7 true, .destroy 0]
      (fun process => (process.loggers.lookup 1).map LiveLogger.initializedFor = some (some 7) ∧
        process.table.tracked 7 = none) (by decide)
  obtain ⟨live, found, initialized⟩ := Option.map_eq_some_iff.mp user
  refine ⟨steps, process, history, labels, ⟨live, found, initialized⟩, lost, fun keeps => ?_⟩
  obtain ⟨tracker, present, -⟩ := keeps 1 live found 7 initialized
  cases lost.symm.trans present

end Process
end Simo
