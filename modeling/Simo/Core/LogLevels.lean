import Mathlib.Tactic.IntervalCases
import Simo.Core.Log

/-!
# Levels and messages

Besides its sink a logger has a threshold and a table of level names.  The threshold can be set by a
number or by a registered name, and a message is written if logging is enabled and the level of the
message is not below the threshold.  The number that a module is given is cut to eight bits on its
way to the logger.  Neither the sink nor the table is looked at before a message is written.
-/

namespace Simo

/-- A logger with its threshold and the names of the levels. -/
structure LeveledLogger (Path : Type*) extends Logger Path where
  currentLogLevel : UInt64
  levelMap : List String
deriving DecidableEq

/-- A default constructed logger. -/
instance LeveledLogger.instInhabited {Path : Type*} [Inhabited Path] :
    Inhabited (LeveledLogger Path) :=
  ⟨⟨default, 0, []⟩⟩

/-- The values of `LogLevel` with their names. -/
def logLevelEntries : List (ℕ × String) :=
  [(0, "VERBOSE"), (1, "DEBUG"), (2, "INFO"), (3, "WARNING")]

/-- What goes wrong in a call that logs. -/
inductive LogFault where
  | nullSink
  | levelOutOfRange
deriving DecidableEq

namespace LeveledLogger

variable {Path ModuleRef : Type*}

section Setters

variable (logger : LeveledLogger Path)

/-- `Logger::initialize`, for the table of sinks at the time of the call. -/
def initializeLogger [DecidableEq Path] [ToString Path] (table : SinkTable Path) (sinkPathV : Path)
    (opens : Bool) : LeveledLogger Path × SinkTable Path × InitializationStatus ModuleRef :=
  let result := logger.toLogger.initializeLogger table sinkPathV opens
  ({ logger with toLogger := result.1 }, result.2)

/-- `std::vector::resize` of the table to a size that is not smaller. -/
def resize (size : ℕ) : LeveledLogger Path :=
  { logger with
    levelMap := logger.levelMap ++ List.replicate (size - logger.levelMap.length) "" }

/-- `add_log_level`; `none` when the name is written outside of the table. -/
def addLogLevel (level : UInt64) (name : String) : Option (LeveledLogger Path) :=
  let logger := logger.resize (max logger.levelMap.length (level + 1).toNat)
  if level.toNat < logger.levelMap.length then
    some { logger with levelMap := logger.levelMap.set level.toNat name }
  else none

/-- `log_level` for a value of `LogLevel`. -/
def logLevelEnum (level : UInt8) : LeveledLogger Path :=
  { logger with currentLogLevel := level.toUInt64 }

/-- `log_level` for a number. -/
def logLevelNumber (level : UInt8) : LeveledLogger Path :=
  { logger with currentLogLevel := level.toUInt64 }

/-- `log_level` for a name. -/
def logLevelName (levelName : String) : LeveledLogger Path :=
  match logger.levelMap.findIdx? (· == levelName) with
  | none => logger
  | some i => { logger with currentLogLevel := UInt64.ofNat i }

def populateDefaultLogLevels : LeveledLogger Path :=
  let levelMap := logLevelEntries.foldl (fun levelMap (idx, name) => levelMap.set idx name)
    (List.replicate logLevelEntries.length "")
  { logger with levelMap }.logLevelEnum (UInt8.ofNat (levelMap.length - 1))

/-- `log_level` without an argument. -/
def logLevel : UInt64 := logger.currentLogLevel

/-- `enabled` with an argument. -/
def enabled (newEnabledValue : Bool) : LeveledLogger Path :=
  { logger with isEnabled := newEnabledValue }

/-- `log_callable`: the address of the sink and what is written to it, if anything is.  The text is
what the callable returns. -/
def logCallable (level : UInt64) (printLevel : Bool) (text : String) :
    Except LogFault (Option (ℕ × String)) :=
  if !logger.isEnabled || level < logger.logLevel then .ok none
  else
    match logger.sink with
    | none => .error .nullSink
    | some sink =>
        if printLevel then
          match logger.levelMap[level.toNat]? with
          | none => .error .levelOutOfRange
          | some name => .ok (some (sink, "[" ++ name ++ "] " ++ text))
        else .ok (some (sink, text))

/-- `log_format`, where the text is what `std::format` makes of the arguments. -/
def logFormat (level : UInt64) (printLevel : Bool) (text : String) :
    Except LogFault (Option (ℕ × String)) :=
  logger.logCallable level printLevel text

end Setters

end LeveledLogger

namespace Module

variable {Path ModuleRef : Type*} (logger : LeveledLogger Path)

/-- `Module::log_setup` with the whole logger. -/
def levelLogSetup [DecidableEq Path] [Inhabited Path] [ToString Path] (table : SinkTable Path)
    (outFile : Path) (opens : Bool) :
    LeveledLogger Path × SinkTable Path × InitializationStatus ModuleRef :=
  let logger : LeveledLogger Path := default
  logger.initializeLogger ((default : Logger Path).destroy table) outFile opens

def logEnable (newValue : Bool) : LeveledLogger Path := logger.enabled newValue

/-- `Module::log_level` for a number: the overload of the logger that takes one takes eight bits. -/
def logLevel (level : UInt64) : LeveledLogger Path := logger.logLevelNumber level.toUInt8

/-- `Module::log_level` for a name. -/
def logLevelName (levelName : String) : LeveledLogger Path := logger.logLevelName levelName

def populateDefaultLogLevels : LeveledLogger Path := logger.populateDefaultLogLevels

def logRawCallable (level : UInt64) (printLevel : Bool) (text : String) :
    Except LogFault (Option (ℕ × String)) :=
  logger.logCallable level printLevel text

/-- `Module::log`, with the time and the name of the module in front of the text. -/
def log (currentTime name : String) (level : UInt64) (text : String) :
    Except LogFault (Option (ℕ × String)) :=
  logRawCallable logger level true
    ("[" ++ currentTime ++ "] [" ++ name ++ "] " ++ text ++ "\n")

end Module

/-- The calls that change a logger, directly or through its module.  The table of sinks is shared
with other loggers, and is what it is at the time of a call. -/
inductive LevelEvent (Path : Type*) where
  | initializes (table : SinkTable Path) (path : Path) (opens : Bool)
  | logSetup (table : SinkTable Path) (path : Path) (opens : Bool)
  | enabled (newEnabledValue : Bool)
  | logEnable (newValue : Bool)
  | logLevelEnum (level : UInt8)
  | logLevelNumber (level : UInt8)
  | logLevelName (levelName : String)
  | moduleLogLevel (level : UInt64)
  | moduleLogLevelName (levelName : String)
  | addLogLevel (level : UInt64) (name : String)
  | populateDefaultLogLevels
  | modulePopulateDefaultLogLevels

namespace LeveledLogger

variable {Path : Type*} [DecidableEq Path] [Inhabited Path] [ToString Path]

/-- Carry out a call; `none` when it writes outside of the table of names. -/
def perform (logger : LeveledLogger Path) : LevelEvent Path → Option (LeveledLogger Path)
  | .initializes table path opens =>
      some (logger.initializeLogger table path opens : _ × _ × InitializationStatus Unit).1
  | .logSetup table path opens =>
      some (Module.levelLogSetup table path opens : _ × _ × InitializationStatus Unit).1
  | .enabled newEnabledValue => some (logger.enabled newEnabledValue)
  | .logEnable newValue => some (Module.logEnable logger newValue)
  | .logLevelEnum level => some (logger.logLevelEnum level)
  | .logLevelNumber level => some (logger.logLevelNumber level)
  | .logLevelName levelName => some (logger.logLevelName levelName)
  | .moduleLogLevel level => some (Module.logLevel logger level)
  | .moduleLogLevelName levelName => some (Module.logLevelName logger levelName)
  | .addLogLevel level name => logger.addLogLevel level name
  | .populateDefaultLogLevels => some logger.populateDefaultLogLevels
  | .modulePopulateDefaultLogLevels => some (Module.populateDefaultLogLevels logger)

/-- One call. -/
def Step (before : LeveledLogger Path) (event : LevelEvent Path) (after : LeveledLogger Path) :
    Prop :=
  before.perform event = some after

end LeveledLogger

/-! ## What the calls have registered -/

namespace LevelEvent

variable {Path : Type*}

/-- The name that is registered for a level, from the one before a call. -/
def nameAfter (level : UInt64) (name : Option String) : LevelEvent Path → Option String
  | addLogLevel other newName => if other = level then some newName else name
  | populateDefaultLogLevels | modulePopulateDefaultLogLevels =>
      logLevelEntries.lookup level.toNat
  | logSetup _ _ _ => none
  | _ => name

/-- The name that the calls have registered for a level. -/
def registered (level : UInt64) (events : List (LevelEvent Path)) : Option String :=
  events.foldl (nameAfter level) none

/-- Whether a level or a higher one is registered, from whether it was before a call. -/
def coveredAfter (level : UInt64) (covered : Bool) : LevelEvent Path → Bool
  | addLogLevel other _ => covered || level ≤ other
  | populateDefaultLogLevels | modulePopulateDefaultLogLevels => level ≤ 3
  | logSetup _ _ _ => false
  | _ => covered

/-- Whether the calls have registered a level or a higher one. -/
def covered (level : UInt64) (events : List (LevelEvent Path)) : Bool :=
  events.foldl (coveredAfter level) false

variable [DecidableEq Path] [Inhabited Path] [ToString Path]

/-- Whether an initialization has reported success since the logger was set up, from whether it had
before a call.  What is reported does not depend on the logger. -/
def openedAfter (opened : Bool) : LevelEvent Path → Bool
  | initializes table path opens =>
      opened || ((default : LeveledLogger Path).initializeLogger table path opens :
        _ × _ × InitializationStatus Unit).2.2.success
  | logSetup table path opens =>
      (Module.levelLogSetup table path opens : _ × _ × InitializationStatus Unit).2.2.success
  | _ => opened

/-- Whether an initialization has reported success since the logger was set up. -/
def opened (events : List (LevelEvent Path)) : Bool := events.foldl openedAfter false

end LevelEvent

namespace LeveledLogger

open LevelEvent

variable {Path : Type*} {before after logger : LeveledLogger Path} {level : UInt64}
  {events : List (LevelEvent Path)} {event : LevelEvent Path}

/-! ## The table of names -/

theorem length_resize (logger : LeveledLogger Path) (size : ℕ) :
    (logger.resize (max logger.levelMap.length size)).levelMap.length =
      max logger.levelMap.length size := by
  rw [resize, List.length_append, List.length_replicate]
  omega

/-- Every level but the last number can be added. -/
theorem exists_addLogLevel (logger : LeveledLogger Path) (name : String)
    (next : level.toNat + 1 < 2 ^ 64) : ∃ after, logger.addLogLevel level name = some after := by
  refine ⟨_, if_pos ?_⟩
  rw [length_resize, UInt64.toNat_add, UInt64.toNat_one]
  omega

/-- What is added is the name at the level, and empty names up to it. -/
theorem addLogLevel_eq_some {name : String} (small : before.levelMap.length < 2 ^ 64)
    (added : before.addLogLevel level name = some after) :
    after.toLogger = before.toLogger ∧
      after.levelMap.length = max before.levelMap.length (level.toNat + 1) ∧
      after.levelMap.length < 2 ^ 64 ∧
      ∀ index, after.levelMap[index]? =
        if index = level.toNat then some name
        else if index < after.levelMap.length then some (before.levelMap[index]?.getD "")
        else none := by
  rw [addLogLevel, Option.ite_none_right_eq_some] at added
  obtain ⟨inside, same⟩ := added
  obtain rfl := Option.some.inj same
  rw [length_resize] at inside
  have noWrap : (level + 1).toNat = level.toNat + 1 := by
    have bound := level.toNat_lt
    rw [UInt64.toNat_add, UInt64.toNat_one] at inside ⊢
    omega
  refine ⟨rfl, ?_, ?_, fun index => ?_⟩
  · rw [List.length_set, length_resize, noWrap]
  · have bound := (level + 1).toNat_lt
    rw [List.length_set, length_resize]
    omega
  · rw [List.getElem?_set, List.length_set, length_resize]
    by_cases here : level.toNat = index
    · rw [if_pos here, if_pos (here ▸ inside), if_pos here.symm]
    · rw [if_neg here, if_neg (Ne.symm here), resize, List.getElem?_append,
        List.getElem?_replicate]
      split
      next old => rw [if_pos (by omega), List.getElem?_eq_getElem old, Option.getD_some]
      next new =>
        rw [List.getElem?_eq_none (by omega), Option.getD_none]
        split_ifs <;> first | rfl | omega

theorem levelMap_logLevelName (logger : LeveledLogger Path) (levelName : String) :
    (logger.logLevelName levelName).levelMap = logger.levelMap ∧
      (logger.logLevelName levelName).toLogger = logger.toLogger := by
  rw [logLevelName]
  split
  next => exact ⟨rfl, rfl⟩
  next => exact ⟨rfl, rfl⟩

theorem levelMap_populateDefaultLogLevels (logger : LeveledLogger Path) :
    logger.populateDefaultLogLevels.levelMap = logLevelEntries.map Prod.snd := rfl

theorem lookup_logLevelEntries (level : UInt64) :
    (logLevelEntries.map Prod.snd)[level.toNat]? =
      if decide (level ≤ 3) = true then some ((logLevelEntries.lookup level.toNat).getD "")
      else none := by
  have three : level ≤ 3 ↔ level.toNat ≤ 3 := UInt64.le_iff_toNat_le
  simp only [decide_eq_true_eq, three]
  split
  next small => interval_cases level.toNat <;> rfl
  next large =>
    refine List.getElem?_eq_none ?_
    change 4 ≤ level.toNat
    omega

section Initialization

variable [DecidableEq Path] [ToString Path] {table : SinkTable Path} {path : Path} {opens : Bool}

/-- An initialization leaves a sink if there was one or it reports success; the levels stay. -/
theorem isSome_sink_initializeLogger (logger other : LeveledLogger Path) :
    (logger.initializeLogger table path opens :
        _ × _ × InitializationStatus Unit).1.sink.isSome =
      (logger.sink.isSome || (other.initializeLogger table path opens :
        _ × _ × InitializationStatus Unit).2.2.success) := by
  simp only [LeveledLogger.initializeLogger, success_initializeLogger]
  rw [Logger.initializeLogger]
  dsimp only
  split
  next tracker present =>
    rw [show table.tracked path = some tracker from present]
    simp
  next absent =>
    rw [show table.tracked path = none from absent]
    split
    next opened => simp [opened]
    next failed => simp [failed]

end Initialization

/-! ## What the state is after any calls -/

/-- The table has these names, and is as long as the levels that are covered need it; there is a
sink if one has been opened. -/
structure Registers (names : UInt64 → Option String) (covers : UInt64 → Bool) (opened : Bool)
    (logger : LeveledLogger Path) : Prop where
  length : logger.levelMap.length < 2 ^ 64
  table : ∀ level : UInt64, logger.levelMap[level.toNat]? =
    if covers level = true then some ((names level).getD "") else none
  named : ∀ level name, names level = some name → covers level = true
  sink : logger.sink.isSome = opened

variable {names : UInt64 → Option String} {covers : UInt64 → Bool} {given : Bool}

theorem registers_new [Inhabited Path] :
    Registers (fun _ => none) (fun _ => false) false (default : LeveledLogger Path) :=
  ⟨Nat.two_pow_pos 64, fun _ => rfl, nofun, rfl⟩

namespace Registers

theorem populate (registers : Registers names covers given before) :
    Registers (fun level => logLevelEntries.lookup level.toNat) (fun level => level ≤ 3) given
      before.populateDefaultLogLevels where
  length := by
    rw [levelMap_populateDefaultLogLevels]
    decide
  table := lookup_logLevelEntries
  named level name found := by
    by_contra large
    have absent : logLevelEntries.lookup level.toNat = none := by
      have beyond : ¬ level.toNat ≤ 3 := fun small =>
        large (decide_eq_true (UInt64.le_iff_toNat_le.mpr small))
      rw [List.lookup_eq_none_iff]
      intro entry member
      simp only [logLevelEntries, List.mem_cons, List.not_mem_nil, or_false] at member
      rw [bne_iff_ne]
      rcases member with rfl | rfl | rfl | rfl <;> (dsimp only; omega)
    cases absent.symm.trans found
  sink := registers.sink

theorem lt_length_iff (registers : Registers names covers given logger) (level : UInt64) :
    level.toNat < logger.levelMap.length ↔ covers level = true := by
  have entry := registers.table level
  split at entry
  next yes => exact iff_of_true (List.getElem?_eq_some_iff.mp entry).1 yes
  next no => exact iff_of_false (Nat.not_lt.mpr (List.getElem?_eq_none_iff.mp entry)) no

/-- The entry at a level is its name, and the empty text if there is none. -/
theorem getD_table (registers : Registers names covers given logger) (level : UInt64) :
    logger.levelMap[level.toNat]?.getD "" = (names level).getD "" := by
  rw [registers.table level]
  split
  next => rfl
  next no =>
    have unnamed : names level = none :=
      Option.eq_none_iff_forall_ne_some.mpr fun name found => no (registers.named level name found)
    rw [unnamed]

theorem addLogLevel (registers : Registers names covers given before) {name : String}
    (added : before.addLogLevel level name = some after) :
    Registers (fun other => if level = other then some name else names other)
      (fun other => covers other || other ≤ level) given after := by
  obtain ⟨logger, length, small, table⟩ := addLogLevel_eq_some registers.length added
  have inside (other : UInt64) : other.toNat < after.levelMap.length ↔
      (covers other || decide (other ≤ level)) = true := by
    rw [length, lt_max_iff, registers.lt_length_iff, Nat.lt_succ_iff, Bool.or_eq_true,
      decide_eq_true_eq, UInt64.le_iff_toNat_le]
  refine ⟨small, fun other => ?_, fun other newName found => ?_, ?_⟩
  · rw [table, registers.getD_table]
    by_cases here : level = other
    · subst here
      simp
    · have apart : other.toNat ≠ level.toNat := fun same => here (UInt64.toNat_inj.mp same).symm
      simp only [if_neg apart, if_neg here, inside]
  · split at found
    next here => simp [here]
    next => simp [registers.named other newName found]
  · rw [logger]
    exact registers.sink

theorem initializeLogger [DecidableEq Path] [Inhabited Path] [ToString Path]
    (registers : Registers names covers given before) (table : SinkTable Path) (path : Path)
    (opens : Bool) :
    Registers names covers
      (given || ((default : LeveledLogger Path).initializeLogger table path opens :
        _ × _ × InitializationStatus Unit).2.2.success)
      (before.initializeLogger table path opens : _ × _ × InitializationStatus Unit).1 where
  length := registers.length
  table := registers.table
  named := registers.named
  sink := by rw [isSome_sink_initializeLogger before default, registers.sink]

end Registers

section Calls

variable [DecidableEq Path] [Inhabited Path] [ToString Path]

/-- One call changes what is registered as its arguments say. -/
theorem Registers.step (registers : Registers names covers given before)
    (taken : Step before event after) :
    Registers (fun level => nameAfter level (names level) event)
      (fun level => coveredAfter level (covers level) event) (openedAfter given event) after := by
  cases event with
  | initializes table path opens =>
      obtain rfl := Option.some.inj taken
      exact registers.initializeLogger table path opens
  | logSetup table path opens =>
      obtain rfl := Option.some.inj taken
      exact registers_new.initializeLogger _ path opens
  | addLogLevel level name => exact registers.addLogLevel taken
  | populateDefaultLogLevels | modulePopulateDefaultLogLevels =>
      obtain rfl := Option.some.inj taken
      exact registers.populate
  | logLevelName levelName | moduleLogLevelName levelName =>
      obtain rfl := Option.some.inj taken
      obtain ⟨levelMap, logger⟩ := levelMap_logLevelName before levelName
      refine ⟨levelMap ▸ registers.length, ?_, registers.named, logger ▸ registers.sink⟩
      exact levelMap ▸ registers.table
  | enabled | logEnable | logLevelEnum | logLevelNumber | moduleLogLevel =>
      obtain rfl := Option.some.inj taken
      exact ⟨registers.length, registers.table, registers.named, registers.sink⟩

/-- After any calls the table has what they have registered. -/
theorem registers_of_history {steps : List (Transition (LeveledLogger Path) (LevelEvent Path))}
    (history : StepPath Step default steps logger) :
    Registers (registered · (steps.map Transition.label))
      (covered · (steps.map Transition.label)) (opened (steps.map Transition.label)) logger := by
  induction history with
  | nil => exact registers_new
  | snoc _ taken induction =>
      simp only [List.map_append, List.map_singleton, registered, covered, opened,
        List.foldl_concat]
      exact induction.step taken

end Calls

/-! ## Messages -/

section Messages

variable {message : UInt64} {printLevel : Bool} {text : String}

theorem logCallable_of_filtered (filtered : logger.isEnabled = true → message < logger.logLevel) :
    logger.logCallable message printLevel text = .ok none := by
  rw [logCallable, if_pos]
  cases isEnabled : logger.isEnabled with
  | false => rfl
  | true => exact decide_eq_true (filtered isEnabled)

theorem logCallable_of_reached (isEnabled : logger.isEnabled = true)
    (reached : logger.logLevel ≤ message) :
    logger.logCallable message printLevel text =
      match logger.sink with
      | none => .error .nullSink
      | some sink =>
          if printLevel then
            match logger.levelMap[message.toNat]? with
            | none => .error .levelOutOfRange
            | some name => .ok (some (sink, "[" ++ name ++ "] " ++ text))
          else .ok (some (sink, text)) := by
  have notBelow : decide (message < logger.logLevel) = false :=
    decide_eq_false (UInt64.not_lt.mpr reached)
  rw [logCallable, isEnabled, notBelow]
  rfl

/-- A message that is not filtered out is written to the sink, if there is one and the level need
not be printed or has an entry in the table. -/
theorem logCallable_eq_ok_some_iff (isEnabled : logger.isEnabled = true)
    (reached : logger.logLevel ≤ message) {address : ℕ} :
    (∃ written, logger.logCallable message printLevel text = .ok (some (address, written))) ↔
      logger.sink = some address ∧
        (printLevel = true → message.toNat < logger.levelMap.length) := by
  rw [logCallable_of_reached isEnabled reached]
  cases logger.sink with
  | none => simp
  | some sink =>
      cases printLevel with
      | false => simp
      | true =>
          cases entry : logger.levelMap[message.toNat]? with
          | none => simpa using fun _ => List.getElem?_eq_none_iff.mp entry
          | some name => simpa using fun _ => (List.getElem?_eq_some_iff.mp entry).1

theorem logCallable_ne_ok_none (isEnabled : logger.isEnabled = true)
    (reached : logger.logLevel ≤ message) :
    logger.logCallable message printLevel text ≠ .ok none := by
  rw [logCallable_of_reached isEnabled reached]
  split
  next => simp
  next =>
    split
    next => split <;> simp
    next => simp

/-- With logging enabled and a sink, a message is written unless it is below the threshold, if its
level need not be printed or has an entry in the table. -/
theorem messages_of_enabled {address : ℕ} (sink : logger.sink = some address) (message : UInt64)
    (printLevel : Bool) (text : String) :
    ((logger.enabled true).logCallable message printLevel text = .ok none ↔
        message < logger.logLevel) ∧
      ((printLevel = true → message.toNat < logger.levelMap.length) →
        ((∃ written, (logger.enabled true).logCallable message printLevel text =
          .ok (some (address, written))) ↔ logger.logLevel ≤ message)) := by
  rcases UInt64.lt_or_le message logger.logLevel with below | reached
  · have filtered : (logger.enabled true).logCallable message printLevel text = .ok none :=
      logCallable_of_filtered fun _ => below
    rw [filtered]
    refine ⟨iff_of_true rfl below, fun _ => iff_of_false ?_ (UInt64.not_le.mpr below)⟩
    simp
  · have isEnabled : (logger.enabled true).isEnabled = true := rfl
    refine ⟨iff_of_false (logCallable_ne_ok_none isEnabled reached) (UInt64.not_lt.mpr reached),
      fun printable => iff_of_true ?_ reached⟩
    exact (logCallable_eq_ok_some_iff isEnabled reached).mpr ⟨sink, printable⟩

end Messages

/-! ## Selecting a level -/

/-- The first entry with a name that is registered for one level only is that of the level. -/
theorem Registers.findIdx?_name (registers : Registers names covers given logger) {name : String}
    (found : names level = some name) (nonempty : name ≠ "")
    (single : ∀ other, names other = some name → other = level) :
    logger.levelMap.findIdx? (· == name) = some level.toNat := by
  have inside := (registers.lt_length_iff level).mpr (registers.named level name found)
  have entry {other : UInt64} (bound : other.toNat < logger.levelMap.length) :
      logger.levelMap[other.toNat] = (names other).getD "" := by
    rw [← registers.getD_table, List.getElem?_eq_getElem bound, Option.getD_some]
  rw [List.findIdx?_eq_some_iff_getElem]
  refine ⟨inside, ?_, fun index earlier same => ?_⟩
  · rw [entry inside, found, Option.getD_some, beq_self_eq_true]
  · have small := registers.length
    have value : (UInt64.ofNat index).toNat = index := by
      rw [UInt64.toNat_ofNat']
      omega
    have here : (names (UInt64.ofNat index)).getD "" = name := by
      rw [← entry (by omega)]
      simpa only [value, beq_iff_eq] using same
    cases named : names (UInt64.ofNat index) with
    | none =>
        rw [named] at here
        exact nonempty here.symm
    | some other =>
        rw [named, Option.getD_some] at here
        subst here
        have := congrArg UInt64.toNat (single _ named)
        omega

/-- Selecting a level by its number, through a module, and by its name leaves the number as the
threshold; with logging enabled a message is then written unless it is below the number. -/
structure Agrees (logger : LeveledLogger Path) (level : UInt64) (name : String) : Prop where
  byNumber : (Module.logLevel logger level).logLevel = level
  byName : (logger.logLevelName name).logLevel = level
  messages : ∀ selected ∈ [Module.logLevel logger level, logger.logLevelName name],
    ∀ address message printLevel text, selected.sink = some address →
      ((selected.enabled true).logCallable message printLevel text = .ok none ↔
          message < level) ∧
        ((printLevel = true → message.toNat < selected.levelMap.length) →
          ((∃ written, (selected.enabled true).logCallable message printLevel text =
            .ok (some (address, written))) ↔ level ≤ message))

section History

variable [DecidableEq Path] [Inhabited Path] [ToString Path]
  {steps : List (Transition (LeveledLogger Path) (LevelEvent Path))} {name : String}

/-- After any calls that have registered non-empty names, each for one level only: selecting a level
by its number, through a module, agrees with selecting it by its name if and only if the number fits
into eight bits. -/
theorem agrees_iff (history : StepPath Step default steps logger)
    (nonempty : ∀ level name, registered level (steps.map Transition.label) = some name →
      name ≠ "")
    (different : ∀ level other name, registered level (steps.map Transition.label) = some name →
      registered other (steps.map Transition.label) = some name → other = level)
    (present : registered level (steps.map Transition.label) = some name) :
    Agrees logger level name ↔ level < 256 := by
  have byName : (logger.logLevelName name).logLevel = level := by
    have first := (registers_of_history history).findIdx?_name present
      (nonempty level name present) fun other => different level other name present
    rw [logLevelName, first]
    exact UInt64.ofNat_toNat
  have byNumber : (Module.logLevel logger level).logLevel = level ↔ level < 256 := by
    change level.toUInt8.toUInt64 = level ↔ _
    rw [← UInt64.toNat_inj, UInt64.lt_iff_toNat_lt]
    simp
  constructor
  · exact fun agrees => byNumber.mp agrees.byNumber
  · intro small
    refine ⟨byNumber.mpr small, byName, ?_⟩
    intro selected among address message printLevel text sink
    have threshold : selected.logLevel = level := by
      simp only [List.mem_cons, List.not_mem_nil, or_false] at among
      rcases among with rfl | rfl
      · exact byNumber.mpr small
      · exact byName
    rw [← threshold]
    exact messages_of_enabled sink message printLevel text

/-! ## Messages in any state -/

/-- The calls that log a message write nothing, or to a sink, and with an index inside the table if
the level is printed. -/
def LogsSafely (logger : LeveledLogger Path) (level : UInt64) (printLevel : Bool) : Prop :=
  ∀ text, ∀ result ∈ [logger.logCallable level printLevel text,
      logger.logFormat level printLevel text, Module.logRawCallable logger level printLevel text],
    result = .ok none ∨
      ∃ address written, logger.sink = some address ∧ result = .ok (some (address, written)) ∧
        (printLevel = true → level.toNat < logger.levelMap.length)

omit [DecidableEq Path] [Inhabited Path] [ToString Path] in
theorem logsSafely_iff_state {printLevel : Bool} :
    LogsSafely logger level printLevel ↔ (logger.isEnabled = true → logger.logLevel ≤ level →
      logger.sink.isSome = true ∧ (printLevel = true → level.toNat < logger.levelMap.length)) := by
  constructor
  · intro safe isEnabled reached
    rcases safe "" _ List.mem_cons_self with nothing | ⟨address, written, sink, -, inside⟩
    · exact (logCallable_ne_ok_none isEnabled reached nothing).elim
    · exact ⟨Option.isSome_iff_exists.mpr ⟨address, sink⟩, inside⟩
  · intro state text result among
    obtain rfl : result = logger.logCallable level printLevel text := by
      simpa only [logFormat, Module.logRawCallable, List.mem_cons, List.not_mem_nil, or_false,
        or_self] using among
    by_cases filtered : logger.isEnabled = true → level < logger.logLevel
    · exact .inl (logCallable_of_filtered filtered)
    · obtain ⟨isEnabled, notBelow⟩ := Classical.not_imp.mp filtered
      have reached := UInt64.not_lt.mp notBelow
      obtain ⟨given, inside⟩ := state isEnabled reached
      obtain ⟨address, sink⟩ := Option.isSome_iff_exists.mp given
      obtain ⟨written, result⟩ :=
        (logCallable_eq_ok_some_iff isEnabled reached).mpr ⟨sink, inside⟩
      exact .inr ⟨address, written, sink, result, inside⟩

/-- After any calls: a message is logged safely if and only if it is filtered out, or an
initialization has reported success and, if the level is printed, the level or a higher one has been
registered. -/
theorem logsSafely_iff (history : StepPath Step default steps logger) (level : UInt64)
    (printLevel : Bool) :
    LogsSafely logger level printLevel ↔ (logger.isEnabled = true → logger.logLevel ≤ level →
      opened (steps.map Transition.label) = true ∧
        (printLevel = true → covered level (steps.map Transition.label) = true)) := by
  have registers := registers_of_history history
  rw [logsSafely_iff_state, registers.sink, registers.lt_length_iff]

end History

theorem registered_single {other : UInt64} {name found : String} :
    registered other [(.addLogLevel level name : LevelEvent Path)] = some found ↔
      level = other ∧ name = found := by
  rw [registered, List.foldl_cons, nameAfter, List.foldl_nil, Option.ite_none_right_eq_some,
    Option.some_inj]

theorem step_of_perform [DecidableEq Path] [Inhabited Path] [ToString Path]
    (before : LeveledLogger Path) (event : LevelEvent Path) (after : LeveledLogger Path)
    (performed : before.perform event = some after) : Step before event after := performed

/-- A file, the default levels and two more. -/
def sixLevels : List (LevelEvent ℕ) :=
  [.initializes .new 1 true, .populateDefaultLogLevels, .addLogLevel 7 "TRACE",
    .addLogLevel 9 "AUDIT"]

/-- The levels with their names after these calls. -/
def sixNames : List (ℕ × String) := (9, "AUDIT") :: (7, "TRACE") :: logLevelEntries

theorem mem_sixNames {name : String} (found : registered level sixLevels = some name) :
    (level.toNat, name) ∈ sixNames := by
  have last : registered level sixLevels = if 9 = level then some "AUDIT"
      else if 7 = level then some "TRACE" else logLevelEntries.lookup level.toNat := rfl
  rw [last] at found
  split_ifs at found with audit trace
  · obtain rfl := Option.some.inj found
    exact audit ▸ List.mem_cons_self
  · obtain rfl := Option.some.inj found
    exact trace ▸ List.mem_cons_of_mem _ List.mem_cons_self
  · obtain ⟨earlier, later, listed, -⟩ := List.lookup_eq_some_iff.mp found
    exact List.mem_cons_of_mem _ (List.mem_cons_of_mem _ (listed ▸ List.mem_append_cons_self))

theorem agrees_iff_six :
    ∃ steps, ∃ logger : LeveledLogger ℕ, StepPath Step default steps logger ∧
      steps.map Transition.label = sixLevels ∧ logger.sink = some 0 ∧
      (Agrees logger 7 "TRACE" ↔ (7 : UInt64) < 256) ∧
      (Agrees logger 2 "INFO" ↔ (2 : UInt64) < 256) := by
  obtain ⟨steps, logger, history, labels, sink⟩ :=
    StepPath.exists_of_checked step_of_perform (default : LeveledLogger ℕ) sixLevels
      (fun logger => logger.sink = some 0) (by decide)
  have nonempty : ∀ entry ∈ sixNames, entry.2 ≠ "" := by decide
  have different : ∀ entry ∈ sixNames, ∀ other ∈ sixNames, entry.2 = other.2 →
      other.1 = entry.1 := by decide
  have named (level : UInt64) (name : String)
      (found : registered level (steps.map Transition.label) = some name) :
      (level.toNat, name) ∈ sixNames := mem_sixNames (labels ▸ found)
  have decided {level : UInt64} {name : String} (present : registered level sixLevels = some name) :
      Agrees logger level name ↔ level < 256 :=
    agrees_iff history (fun level name found => nonempty _ (named level name found))
      (fun level other name found again => UInt64.toNat_inj.mp
        (different _ (named level name found) _ (named other name again) rfl)) (labels ▸ present)
  exact ⟨steps, logger, history, labels, sink, decided rfl, decided rfl⟩

/-- The level 256 is selected by its name; by its number the level 0 is. -/
theorem not_agrees_wide :
    ∃ steps, ∃ logger : LeveledLogger ℕ, StepPath Step default steps logger ∧
      steps.map Transition.label = [.addLogLevel 256 "TRACE"] ∧
      registered 256 (steps.map Transition.label) = some "TRACE" ∧
      (Module.logLevel logger 256).logLevel = 0 ∧
      (logger.logLevelName "TRACE").logLevel = 256 ∧ ¬ Agrees logger 256 "TRACE" := by
  obtain ⟨logger, added⟩ :=
    exists_addLogLevel (default : LeveledLogger ℕ) "TRACE"
      (by decide : (256 : UInt64).toNat + 1 < _)
  have history : StepPath Step default [⟨default, .addLogLevel 256 "TRACE", logger⟩] logger :=
    .snoc .nil added
  have first := (registers_of_history history).findIdx?_name (registered_single.mpr ⟨rfl, rfl⟩)
    (by decide) fun other found => (registered_single.mp found).1.symm
  have zero : (Module.logLevel logger 256).logLevel = 0 := rfl
  refine ⟨_, logger, history, rfl, registered_single.mpr ⟨rfl, rfl⟩, zero, ?_, fun agrees => ?_⟩
  · rw [logLevelName, first]
    rfl
  · exact absurd (zero.symm.trans agrees.byNumber) (by decide)

/-- A logger with the default levels and a file that has been opened. -/
theorem logsSafely_iff_opened :
    ∃ steps, ∃ logger : LeveledLogger ℕ, StepPath Step default steps logger ∧
      steps.map Transition.label = [.populateDefaultLogLevels, .initializes .new 1 true] ∧
      (LogsSafely logger 3 true ↔ (logger.isEnabled = true → logger.logLevel ≤ 3 →
        opened (steps.map Transition.label) = true ∧
          (true = true → covered 3 (steps.map Transition.label) = true))) := by
  have populated : StepPath Step (default : LeveledLogger ℕ)
      [⟨_, .populateDefaultLogLevels, _⟩] _ := .snoc .nil rfl
  have history := populated.snoc (rfl : Step _ (.initializes .new 1 true) _)
  exact ⟨_, _, history, rfl, logsSafely_iff history 3 true⟩

/-- Logging is enabled without a sink; and a level is printed where none has been registered. -/
theorem not_logsSafely_unchecked :
    (∃ steps, ∃ logger : LeveledLogger ℕ, StepPath Step default steps logger ∧
      steps.map Transition.label = [.logEnable true] ∧
      logger.logCallable 0 false "lost" = .error .nullSink ∧ ¬ LogsSafely logger 0 false) ∧
    ∃ steps, ∃ logger : LeveledLogger ℕ, StepPath Step default steps logger ∧
      steps.map Transition.label = [.initializes .new 1 true] ∧
      logger.logCallable 0 true "lost" = .error .levelOutOfRange ∧ ¬ LogsSafely logger 0 true := by
  have faults {logger : LeveledLogger ℕ} {printLevel : Bool} {fault : LogFault}
      (fails : logger.logCallable 0 printLevel "lost" = .error fault) :
      ¬ LogsSafely logger 0 printLevel := by
    intro safe
    rcases safe "lost" _ List.mem_cons_self with nothing | ⟨_, _, -, something, -⟩
    · cases fails.symm.trans nothing
    · cases fails.symm.trans something
  have enabled : StepPath Step (default : LeveledLogger ℕ) [⟨_, .logEnable true, _⟩] _ :=
    .snoc .nil rfl
  have opened : StepPath Step (default : LeveledLogger ℕ) [⟨_, .initializes .new 1 true, _⟩] _ :=
    .snoc .nil rfl
  exact ⟨⟨_, _, enabled, rfl, rfl, faults rfl⟩, _, _, opened, rfl, rfl, faults rfl⟩

end LeveledLogger

end Simo
