import Simo.Core.Log

/-!
# Which streams are open

A path that is not in the table gets a new stream, with an address of its own.  The stream is closed
with its last reference, and until then it stays where it is.  So an event of the loggers opens one
stream, closes one or leaves all of them alone.
-/

namespace Simo

namespace Process

variable {Id Path : Type*} [DecidableEq Path]

/-- The path for which an event opens a stream. -/
def opened (process : Process Id Path) : LogEvent Id Path → Option Path
  | .initializes _ path opens | .logSetup _ path opens =>
      match process.table.tracked path with
      | none => if opens then some path else none
      | some _ => none
  | _ => none

/-- The path and the address of the stream that an event closes. -/
def released [DecidableEq Id] (process : Process Id Path) : LogEvent Id Path → Option (Path × ℕ)
  | .destroy id =>
      match process.loggers.lookup id with
      | none => none
      | some live =>
          match process.table.tracked live.logger.sinkPath with
          | none => none
          | some tracker =>
              if tracker.refCount - 1 ≤ 0 then some (live.logger.sinkPath, tracker.sink.address)
              else none
  | _ => none

end Process

/-! ## The addresses of the streams -/

namespace SinkTable

variable {Path : Type*} [DecidableEq Path] {table : SinkTable Path}

/-- The address of the stream that is in the table for a path. -/
def addressOf (table : SinkTable Path) (path : Path) : Option ℕ :=
  (table.tracked path).map fun tracker => tracker.sink.address

/-- The streams in the table are different from each other and from the next one. -/
structure Separate (table : SinkTable Path) : Prop where
  below : ∀ path address, table.addressOf path = some address → address < table.nextAddress
  unique : ∀ path other address, table.addressOf path = some address →
    table.addressOf other = some address → path = other

theorem separate_new : Separate (.new : SinkTable Path) := ⟨nofun, nofun⟩

/-- A new stream is different from those in the table. -/
theorem Separate.opened (separate : table.Separate) {after : SinkTable Path} {path : Path}
    (next : after.nextAddress = table.nextAddress + 1)
    (addresses : after.addressOf =
      Function.update table.addressOf path (some table.nextAddress)) : after.Separate := by
  constructor
  · intro other address present
    rw [addresses, Function.update_apply] at present
    split at present
    next => rw [next, ← Option.some.inj present]; exact Nat.lt_succ_self _
    next => exact next ▸ (separate.below other address present).trans (Nat.lt_succ_self _)
  · intro first second address one other
    rw [addresses, Function.update_apply] at one other
    split at one
    next here =>
      obtain rfl := Option.some.inj one
      split at other
      next there => exact here.trans there.symm
      next => exact (lt_irrefl _ (separate.below second _ other)).elim
    next =>
      split at other
      next =>
        obtain rfl := Option.some.inj other
        exact (lt_irrefl _ (separate.below first _ one)).elim
      next => exact separate.unique first second address one other

theorem Separate.released (separate : table.Separate) {after : SinkTable Path} {path : Path}
    (next : after.nextAddress = table.nextAddress)
    (addresses : after.addressOf = Function.update table.addressOf path none) :
    after.Separate := by
  have kept : ∀ other address, after.addressOf other = some address →
      table.addressOf other = some address := by
    intro other address present
    rw [addresses, Function.update_apply] at present
    split at present
    next => cases present
    next => exact present
  exact ⟨fun other address present => next ▸ separate.below other address (kept _ _ present),
    fun first second address one other =>
      separate.unique first second address (kept _ _ one) (kept _ _ other)⟩

theorem Separate.same (separate : table.Separate) {after : SinkTable Path}
    (next : after.nextAddress = table.nextAddress)
    (addresses : after.addressOf = table.addressOf) : after.Separate :=
  ⟨fun path address => addresses ▸ next ▸ separate.below path address,
    fun first second address => addresses ▸ separate.unique first second address⟩

/-- An initialization opens a stream for its path, or adds a user to a stream that is open. -/
theorem addressOf_initializeLogger (ModuleRef : Type*) [ToString Path] (logger : Logger Path)
    (table : SinkTable Path) (path : Path) (opens : Bool) :
    (logger.initializeLogger table path opens : Initialized Path ModuleRef).2.1.addressOf =
        (if table.tracked path = none ∧ opens = true then
          Function.update table.addressOf path (some table.nextAddress)
        else table.addressOf) ∧
      (logger.initializeLogger table path opens : Initialized Path ModuleRef).2.1.nextAddress =
        if table.tracked path = none ∧ opens = true then table.nextAddress + 1
        else table.nextAddress := by
  cases present : table.tracked path with
  | some tracker =>
      have shared : ¬ ((some tracker : Option SinkTracker) = none ∧ opens = true) :=
        fun new => nomatch new.1
      rw [if_neg shared, if_neg shared]
      constructor
      · funext other
        rw [addressOf, tracked_initializeLogger, present]
        by_cases here : other = path
        · rw [if_pos here, here, addressOf, present]
          rfl
        · rw [if_neg here]
          rfl
      · rw [Logger.initializeLogger]
        dsimp only
        rw [show table.sinkTracker.lookup path = some tracker from present]
  | none =>
      constructor
      · funext other
        rw [addressOf, tracked_initializeLogger, present]
        by_cases here : other = path
        · cases opens <;> simp [here, addressOf, present]
        · rw [if_neg here]
          cases opens <;> simp [here, addressOf]
      · rw [Logger.initializeLogger]
        dsimp only
        rw [show table.sinkTracker.lookup path = none from present]
        cases opens <;> simp

/-- A destructor closes the stream with the last reference, or leaves it open. -/
theorem addressOf_destroy (logger : Logger Path) (table : SinkTable Path) :
    (logger.destroy table).nextAddress = table.nextAddress ∧
      (logger.destroy table).addressOf =
        match table.tracked logger.sinkPath with
        | none => table.addressOf
        | some tracker =>
            if tracker.refCount - 1 ≤ 0 then Function.update table.addressOf logger.sinkPath none
            else table.addressOf := by
  constructor
  · rw [Logger.destroy]
    split
    next => rfl
    next => dsimp only; split <;> rfl
  · funext path
    rw [addressOf, tracked_destroy]
    by_cases here : path = logger.sinkPath
    · subst here
      cases present : table.tracked logger.sinkPath with
      | none =>
          change _ = (table.tracked logger.sinkPath).map _
          rw [present, if_pos rfl]
          rfl
      | some tracker =>
          rw [if_pos rfl, Option.bind_some]
          dsimp only
          by_cases last : tracker.refCount ≤ 1
          · rw [if_pos last, if_pos (by omega), Function.update_self]
            rfl
          · rw [if_neg last, if_neg (by omega), addressOf, present]
            rfl
    · rw [if_neg here]
      cases table.tracked logger.sinkPath with
      | none => rfl
      | some tracker =>
          dsimp only
          split
          next => rw [Function.update_of_ne here]; rfl
          next => rfl

end SinkTable

namespace Process

variable {Id Path : Type*} [DecidableEq Id] [DecidableEq Path]

/-- What an event does to the streams in the table. -/
inductive ChangesStreams (before : Process Id Path) (event : LogEvent Id Path)
    (after : SinkTable Path) : Prop
  | opens (path : Path) (opened : before.opened event = some path)
      (absent : before.table.addressOf path = none)
      (next : after.nextAddress = before.table.nextAddress + 1)
      (addresses : after.addressOf =
        Function.update before.table.addressOf path (some before.table.nextAddress))
  | closes (path : Path) (address : ℕ) (opened : before.opened event = none)
      (released : before.released event = some (path, address))
      (present : before.table.addressOf path = some address)
      (next : after.nextAddress = before.table.nextAddress)
      (addresses : after.addressOf = Function.update before.table.addressOf path none)
  | keeps (opened : before.opened event = none) (released : before.released event = none)
      (next : after.nextAddress = before.table.nextAddress)
      (addresses : after.addressOf = before.table.addressOf)

variable {before after : Process Id Path} {event : LogEvent Id Path}

omit [DecidableEq Id] in
theorem opened_eq_some_iff {id : Id} {path other : Path} {opens : Bool}
    (names : event = .initializes id path opens ∨ event = .logSetup id path opens) :
    before.opened event = some other ↔
      (before.table.tracked path = none ∧ opens = true) ∧ path = other := by
  have unfolded : before.opened event = match before.table.tracked path with
      | none => if opens then some path else none
      | some _ => none := by
    rcases names with rfl | rfl <;> rfl
  rw [unfolded]
  cases before.table.tracked path with
  | some tracker => simp
  | none => cases opens <;> simp

theorem changesStreams_initialize [ToString Path] {id : Id} {path : Path} {opens : Bool}
    (logger : Logger Path)
    (names : event = .initializes id path opens ∨ event = .logSetup id path opens) :
    ChangesStreams before event
      (logger.initializeLogger before.table path opens : Initialized Path Id).2.1 := by
  have opened : ∀ other, before.opened event = some other ↔
      (before.table.tracked path = none ∧ opens = true) ∧ path = other :=
    fun other => opened_eq_some_iff names
  obtain ⟨addresses, next⟩ :=
    SinkTable.addressOf_initializeLogger Id logger before.table path opens
  by_cases new : before.table.tracked path = none ∧ opens = true
  · rw [if_pos new] at addresses next
    refine .opens path ((opened path).mpr ⟨new, rfl⟩) ?_ next addresses
    rw [SinkTable.addressOf, new.1]
    rfl
  · rw [if_neg new] at addresses next
    refine .keeps ?_ ?_ next addresses
    · exact Option.eq_none_iff_forall_not_mem.mpr fun other names => new ((opened other).mp names).1
    · rcases names with rfl | rfl <;> rfl

theorem changesStreams_destroy {id : Id} {live : LiveLogger Path}
    (target : before.loggers.lookup id = some live) :
    ChangesStreams before (.destroy id) (live.logger.destroy before.table) := by
  obtain ⟨next, addresses⟩ := SinkTable.addressOf_destroy live.logger before.table
  have released : before.released (.destroy id) =
      match before.table.tracked live.logger.sinkPath with
      | none => none
      | some tracker =>
          if tracker.refCount - 1 ≤ 0 then some (live.logger.sinkPath, tracker.sink.address)
          else none := by
    rw [Process.released, target]
  cases present : before.table.tracked live.logger.sinkPath with
  | none =>
      rw [present] at addresses released
      exact .keeps rfl released next addresses
  | some tracker =>
      rw [present] at addresses released
      dsimp only at addresses released
      by_cases last : tracker.refCount - 1 ≤ 0
      · rw [if_pos last] at addresses released
        refine .closes _ _ rfl released ?_ next addresses
        rw [SinkTable.addressOf, present]
        rfl
      · rw [if_neg last] at addresses released
        exact .keeps rfl released next addresses

/-- An event opens one stream, closes one, or leaves the streams alone. -/
theorem Step.changesStreams [Inhabited Path] [ToString Path] (sound : before.table.Sound)
    (taken : Step before event after) : ChangesStreams before event after.table := by
  cases taken with
  | construct | copyConstruct | copyAssign => exact .keeps rfl rfl rfl rfl
  | initializes => exact changesStreams_initialize _ (.inl rfl)
  | logSetup =>
      rw [Module.logSetup, destroy_default sound.named]
      exact changesStreams_initialize _ (.inr rfl)
  | destroy target => exact changesStreams_destroy target

theorem ChangesStreams.separate {table : SinkTable Path}
    (changes : ChangesStreams before event table) (separate : before.table.Separate) :
    table.Separate := by
  cases changes with
  | opens path _ _ next addresses => exact separate.opened next addresses
  | closes path _ _ _ _ next addresses => exact separate.released next addresses
  | keeps _ _ next addresses => exact separate.same next addresses

end Process

end Simo
