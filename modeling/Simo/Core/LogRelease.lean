import Simo.Core.Log

/-!
# Sinks are released with their last user

The reference count of a path counts initializations and destructions, not users.  It is the number
of loggers initialized for the path as long as a logger is initialized at most once and is destroyed
while it is initialized, or while nobody uses the path that it remembers.
-/

namespace Simo

namespace Process

variable {Id Path : Type*}

section Remembers

variable [DecidableEq Id] {process : Process Id Path} {id : Id} {live : LiveLogger Path}

/-- Every logger remembers the path that it is initialized for. -/
def Remembers (process : Process Id Path) : Prop :=
  ∀ id live, process.loggers.lookup id = some live → ∀ path, live.initializedFor = some path →
    live.logger.sinkPath = path

theorem remembers_insert (remembers : process.Remembers)
    (own : ∀ path, live.initializedFor = some path → live.logger.sinkPath = path)
    (table : SinkTable Path) : Remembers ⟨table, process.loggers.insert id live⟩ :=
  AList.forall_lookup_insert remembers own

end Remembers

variable [DecidableEq Path]

/-- The live loggers attached to a path: their last initialization succeeded for it. -/
def users (process : Process Id Path) (path : Path) : ℕ :=
  process.loggers.census fun live => live.initializedFor = some path

/-- The reference count of every path is the number of its users, and it has an entry as long as
there is one. -/
structure CountsUsers (process : Process Id Path) : Prop where
  tracked : ∀ path tracker, process.table.tracked path = some tracker →
    tracker.refCount = process.users path ∧ 0 < process.users path
  untracked : ∀ path, process.table.tracked path = none → process.users path = 0

/-- An entry of the table counts a number of users. -/
def EntryCounts (users : ℕ) : Option SinkTracker → Prop
  | some tracker => tracker.refCount = users ∧ 0 < users
  | none => users = 0

/-- An entry with one more reference, if there is one or the file opens. -/
def addReference (sink : Sink) (opens : Bool) : Option SinkTracker → Option SinkTracker
  | some tracker => some { tracker with refCount := tracker.refCount + 1 }
  | none => if opens then some ⟨sink, 1⟩ else none

/-- An entry with one reference less, if any are left. -/
def dropReference (entry : Option SinkTracker) : Option SinkTracker :=
  entry.bind fun tracker =>
    if tracker.refCount ≤ 1 then none
    else some { tracker with refCount := tracker.refCount - 1 }

theorem countsUsers_iff {process : Process Id Path} :
    CountsUsers process ↔
      ∀ path, EntryCounts (process.users path) (process.table.tracked path) := by
  constructor
  · intro counts path
    cases present : process.table.tracked path with
    | some tracker => exact counts.tracked path tracker present
    | none => exact counts.untracked path present
  · intro each
    refine ⟨fun path tracker present => ?_, fun path absent => ?_⟩
    · have here := each path
      rw [present] at here
      exact here
    · have here := each path
      rw [absent] at here
      exact here

theorem EntryCounts.unique {entry : Option SinkTracker} {users others : ℕ}
    (one : EntryCounts users entry) (other : EntryCounts others entry) : users = others := by
  cases entry with
  | some tracker => exact Int.ofNat.inj (one.1.symm.trans other.1)
  | none => exact one.trans other.symm

/-- A reference is added for a user. -/
theorem EntryCounts.add {entry : Option SinkTracker} {users : ℕ} (counts : EntryCounts users entry)
    (sink : Sink) (opens : Bool) :
    EntryCounts (users + if (entry.isSome || opens) = true then 1 else 0)
      (addReference sink opens entry) := by
  cases entry with
  | some tracker =>
      refine ⟨?_, Nat.succ_pos _⟩
      rw [Option.isSome_some, Bool.true_or, if_pos rfl, Nat.cast_succ, ← counts.1]
  | none =>
      obtain rfl : users = 0 := counts
      cases opens with
      | true => exact ⟨rfl, Nat.one_pos⟩
      | false => rfl

/-- Too many references are one for every further user. -/
theorem EntryCounts.not_add {entry : Option SinkTracker} {users : ℕ}
    (counts : EntryCounts (users + 1) entry) (sink : Sink) (opens : Bool) :
    ¬ EntryCounts (users + 1) (addReference sink opens entry) := by
  cases entry with
  | some tracker =>
      intro still
      have before := counts.1
      have after := still.1
      dsimp only at after
      omega
  | none => exact (Nat.succ_ne_zero _ counts).elim

/-- A reference is given back for a user. -/
theorem EntryCounts.remove {entry : Option SinkTracker} {users : ℕ}
    (counts : EntryCounts (users + 1) entry) :
    EntryCounts users (dropReference entry) := by
  cases entry with
  | some tracker =>
      have before := counts.1
      rw [dropReference, Option.bind_some]
      split
      next last =>
        rw [EntryCounts]
        omega
      next more =>
        refine ⟨?_, ?_⟩
        · dsimp only
          omega
        · omega
  | none => exact (Nat.succ_ne_zero _ counts).elim

/-- Without a user to give it back for, there must have been no entry. -/
theorem EntryCounts.eq_none_of_remove {entry : Option SinkTracker} {users : ℕ}
    (counts : EntryCounts users entry)
    (still : EntryCounts users (dropReference entry)) : entry = none := by
  cases entry with
  | none => rfl
  | some tracker =>
      obtain ⟨before, someone⟩ := counts
      rw [dropReference, Option.bind_some] at still
      split at still
      next => exact (someone.ne' still).elim
      next =>
        have after := still.1
        dsimp only at after
        omega

/-- What a step does to streams: a path's stream is flushed, closed and erased if the path loses its
last user, and nothing is done to it otherwise. -/
def ReleasesAtZero (step : Transition (Process Id Path) (LogEvent Id Path)) : Prop :=
  ∃ actions, step.target.table.performed = step.source.table.performed ++ actions ∧
    ∀ path, (actions.filter fun action => action.1 = path).map Prod.snd =
      if 0 < step.source.users path ∧ step.target.users path = 0 then [.flush, .close, .erase]
      else []

section Counting

variable [DecidableEq Id] {process : Process Id Path} {id : Id} {live : LiveLogger Path}

/-- Users of a path besides one logger. -/
def otherUsers (process : Process Id Path) (id : Id) (path : Path) : ℕ :=
  (process.loggers.erase id).census fun live => live.initializedFor = some path

theorem users_of_lookup (target : process.loggers.lookup id = some live) (path : Path) :
    process.users path =
      process.otherUsers id path + if live.initializedFor = some path then 1 else 0 :=
  AList.census_of_lookup target

theorem users_insert (table : SinkTable Path) (path : Path) :
    users ⟨table, process.loggers.insert id live⟩ path =
      process.otherUsers id path + if live.initializedFor = some path then 1 else 0 :=
  AList.census_insert _ _

/-- A new logger is no user. -/
theorem users_construct (unused : process.loggers.lookup id = none) (logger : Logger Path)
    (path : Path) :
    users ⟨process.table, process.loggers.insert id ⟨logger, none⟩⟩ path =
      process.users path := by
  exact (AList.census_insert_of_absent unused _).trans (by simp [users])

/-- A path with a user is tracked, with the number of its users. -/
theorem CountsUsers.of_lookup (counts : CountsUsers process)
    (target : process.loggers.lookup id = some live) {path : Path}
    (attached : live.initializedFor = some path) :
    ∃ tracker, process.table.tracked path = some tracker ∧
      tracker.refCount = process.otherUsers id path + 1 := by
  have number := users_of_lookup target path
  rw [if_pos attached] at number
  cases present : process.table.tracked path with
  | none =>
      have nobody := counts.untracked path present
      omega
  | some tracker =>
      refine ⟨tracker, rfl, ?_⟩
      rw [(counts.tracked path tracker present).1, number]
      rfl

end Counting

section Initialize

variable [DecidableEq Id] [ToString Path] {process : Process Id Path} {id : Id}
  {live : LiveLogger Path}

theorem users_store (id : Id) (logger : Logger Path) (path : Path) (opens : Bool) (other : Path) :
    (process.store id path (logger.initializeLogger process.table path opens)).users other =
      process.otherUsers id other +
        if ((process.table.tracked path).isSome || opens) = true ∧ path = other then 1 else 0 := by
  rw [store, users_insert, success_initializeLogger]
  split <;> simp_all

theorem performed_initializeLogger {ModuleRef : Type*} (logger : Logger Path)
    (table : SinkTable Path) (path : Path) (opens : Bool) :
    (logger.initializeLogger table path opens : Initialized Path ModuleRef).2.1.performed =
      table.performed := by
  rw [Logger.initializeLogger]
  dsimp only
  split
  next => rfl
  next => split <;> rfl

/-- Initializing a logger keeps the counts right if and only if it is not attached yet. -/
theorem countsUsers_store_iff (counts : CountsUsers process)
    (target : process.loggers.lookup id = some live) (logger : Logger Path) (path : Path)
    (opens : Bool) :
    CountsUsers (process.store id path (logger.initializeLogger process.table path opens)) ↔
      live.initializedFor = none := by
  have table : (process.store id path (logger.initializeLogger process.table path opens)).table =
    (logger.initializeLogger process.table path opens : Initialized Path Id).2.1 := rfl
  rw [countsUsers_iff] at counts ⊢
  constructor
  · intro still
    cases attached : live.initializedFor with
    | none => rfl
    | some own =>
        -- the reference of the old attachment is never given back
        have before := counts own
        have after := still own
        rw [users_of_lookup target, if_pos attached] at before
        rw [table, tracked_initializeLogger, users_store] at after
        rcases eq_or_ne own path with rfl | apart
        · obtain ⟨tracker, present, -⟩ := (countsUsers_iff.mpr counts).of_lookup target attached
          rw [if_pos rfl, present, Option.isSome_some, Bool.true_or, if_pos ⟨rfl, rfl⟩] at after
          rw [present] at before
          exact (before.not_add ⟨process.table.nextAddress, true⟩ opens after).elim
        · rw [if_neg apart, if_neg fun both => apart both.2.symm] at after
          exact (Nat.succ_ne_self _ (before.unique after)).elim
  · intro unattached other
    have before := counts other
    rw [users_of_lookup target, unattached, if_neg nofun, Nat.add_zero] at before
    rw [table, tracked_initializeLogger, users_store]
    rcases eq_or_ne other path with rfl | apart
    · rw [if_pos rfl]
      simp only [and_true]
      exact before.add ⟨process.table.nextAddress, true⟩ opens
    · rw [if_neg apart, if_neg fun both => apart both.2.symm]
      exact before

/-- Initializing a logger that is not attached takes the last user from no path. -/
theorem releases_store (target : process.loggers.lookup id = some live) (logger : Logger Path)
    (path : Path) (opens : Bool) (unattached : live.initializedFor = none)
    (event : LogEvent Id Path) :
    ReleasesAtZero ⟨process, event,
      process.store id path (logger.initializeLogger process.table path opens)⟩ := by
  refine ⟨[], ?_, fun other => ?_⟩
  · rw [List.append_nil]
    exact performed_initializeLogger logger process.table path opens
  · rw [if_neg]
    · rfl
    · rintro ⟨some, none⟩
      rw [users_of_lookup target, if_neg (by simp [unattached])] at some
      rw [users_store] at none
      omega

/-- Both together. -/
theorem counts_store_iff (counts : CountsUsers process)
    (target : process.loggers.lookup id = some live) (logger : Logger Path) (path : Path)
    (opens : Bool) (event : LogEvent Id Path) :
    CountsUsers (process.store id path (logger.initializeLogger process.table path opens)) ∧
        ReleasesAtZero ⟨process, event,
          process.store id path (logger.initializeLogger process.table path opens)⟩ ↔
      ∀ other, process.loggers.lookup id = some other → other.initializedFor = none := by
  have single : (∀ other, process.loggers.lookup id = some other → other.initializedFor = none) ↔
      live.initializedFor = none := by
    rw [target]
    exact ⟨fun each => each live rfl, fun unattached other same =>
      Option.some.inj same ▸ unattached⟩
  rw [single, countsUsers_store_iff counts target]
  exact and_iff_left_of_imp fun unattached => releases_store target _ _ _ unattached _

end Initialize

section Destroy

variable [DecidableEq Id] {process : Process Id Path} {id : Id} {live : LiveLogger Path}

/-- The process after the destruction of a logger. -/
theorem users_erase (table : SinkTable Path) (path : Path) :
    users ⟨table, process.loggers.erase id⟩ path = process.otherUsers id path := rfl

theorem performed_destroy (logger : Logger Path) (table : SinkTable Path) :
    (logger.destroy table).performed = table.performed ++
      (table.tracked logger.sinkPath).elim [] fun tracker =>
        if tracker.refCount ≤ 1 then
          [(logger.sinkPath, .flush), (logger.sinkPath, .close), (logger.sinkPath, .erase)]
        else [] := by
  rw [Logger.destroy]
  split
  next absent =>
    rw [show table.tracked logger.sinkPath = none from absent]
    exact (List.append_nil _).symm
  next tracker present =>
    rw [show table.tracked logger.sinkPath = some tracker from present, Option.elim_some]
    dsimp only
    split
    next last => rw [if_pos (by omega)]
    next more =>
      rw [if_neg (by omega)]
      exact (List.append_nil _).symm

/-- Destroying a logger keeps the counts right if and only if it is attached or the path that it
remembers is not tracked. -/
theorem countsUsers_destroy_iff (counts : CountsUsers process)
    (target : process.loggers.lookup id = some live)
    (remembers : ∀ path, live.initializedFor = some path → live.logger.sinkPath = path) :
    CountsUsers ⟨live.logger.destroy process.table, process.loggers.erase id⟩ ↔
      (live.initializedFor = none → process.table.tracked live.logger.sinkPath = none) := by
  rw [countsUsers_iff] at counts ⊢
  constructor
  · intro still unattached
    have before := counts live.logger.sinkPath
    have after := still live.logger.sinkPath
    rw [users_of_lookup target, unattached, if_neg nofun, Nat.add_zero] at before
    rw [users_erase, tracked_destroy, if_pos rfl] at after
    exact before.eq_none_of_remove after
  · intro disciplined path
    have before := counts path
    rw [users_of_lookup target] at before
    rw [users_erase, tracked_destroy]
    by_cases attached : live.initializedFor = some path
    · rw [if_pos attached] at before
      rw [remembers path attached, if_pos rfl]
      exact before.remove
    · rw [if_neg attached, Nat.add_zero] at before
      split
      next here =>
        -- the logger is attached nowhere, so nothing is tracked here
        have unattached : live.initializedFor = none := by
          rw [Option.eq_none_iff_forall_ne_some]
          intro own elsewhere
          exact attached (elsewhere.trans (congrArg some ((remembers own elsewhere).symm.trans
            here.symm)))
        have untracked := disciplined unattached
        rw [← here] at untracked
        rw [untracked] at before ⊢
        exact before
      next => exact before

/-- Then the stream goes with its last user. -/
theorem releases_destroy (counts : CountsUsers process)
    (target : process.loggers.lookup id = some live)
    (remembers : ∀ path, live.initializedFor = some path → live.logger.sinkPath = path)
    (disciplined : live.initializedFor = none →
      process.table.tracked live.logger.sinkPath = none) (event : LogEvent Id Path) :
    ReleasesAtZero ⟨process, event,
      ⟨live.logger.destroy process.table, process.loggers.erase id⟩⟩ := by
  have number := users_of_lookup target
  refine ⟨_, performed_destroy live.logger process.table, fun path => ?_⟩
  dsimp only
  rw [users_erase, number]
  cases attached : live.initializedFor with
  | none =>
      rw [disciplined attached, if_neg]
      · rfl
      · rintro ⟨some, none⟩
        rw [if_neg (by simp), Nat.add_zero] at some
        exact some.ne' none
  | some own =>
      obtain ⟨tracker, present, count⟩ := counts.of_lookup target attached
      rw [remembers own attached, present, Option.elim_some]
      rcases eq_or_ne path own with rfl | apart
      · by_cases last : tracker.refCount ≤ 1
        · have none : process.otherUsers id path = 0 := by omega
          simp [last, none]
        · have some : process.otherUsers id path ≠ 0 := by omega
          simp [last, some]
      · rw [if_neg (fun same => apart (Option.some.inj same).symm)]
        split <;> simp [Ne.symm apart] <;> omega

/-- Both together. -/
theorem counts_destroy_iff (counts : CountsUsers process) (remembers : process.Remembers)
    (target : process.loggers.lookup id = some live) (event : LogEvent Id Path) :
    CountsUsers ⟨live.logger.destroy process.table, process.loggers.erase id⟩ ∧
        ReleasesAtZero ⟨process, event,
          ⟨live.logger.destroy process.table, process.loggers.erase id⟩⟩ ↔
      ∀ other, process.loggers.lookup id = some other → other.initializedFor = none →
        process.table.tracked other.logger.sinkPath = none := by
  have own := remembers id live target
  have disciplined : (∀ other, process.loggers.lookup id = some other →
      other.initializedFor = none → process.table.tracked other.logger.sinkPath = none) ↔
      (live.initializedFor = none → process.table.tracked live.logger.sinkPath = none) := by
    rw [target]
    exact ⟨fun each => each live rfl, fun law other same => Option.some.inj same ▸ law⟩
  rw [disciplined, countsUsers_destroy_iff counts target own]
  exact and_iff_left_of_imp fun law => releases_destroy counts target own law event

end Destroy

/-! ## Histories without copies -/

section History

variable [DecidableEq Id]

/-- Events without copies, whose explicit initializations succeed. -/
def WithoutCopies (before : Process Id Path) : LogEvent Id Path → Prop
  | .copyConstruct _ _ | .copyAssign _ _ => False
  | .initializes _ path opens => (before.table.tracked path).isSome = true ∨ opens = true
  | .construct _ | .logSetup _ _ _ | .destroy _ => True

/-- A logger is initialized or set up only while it is not attached, and it is destroyed only while
it is attached or the path that it remembers is not tracked. -/
def SingleUse (step : Transition (Process Id Path) (LogEvent Id Path)) : Prop :=
  match step.label with
  | .initializes id _ _ | .logSetup id _ _ =>
      ∀ live, step.source.loggers.lookup id = some live → live.initializedFor = none
  | .destroy id =>
      ∀ live, step.source.loggers.lookup id = some live → live.initializedFor = none →
        step.source.table.tracked live.logger.sinkPath = none
  | _ => True

instance decidableWithoutCopies (before : Process Id Path) :
    DecidablePred before.WithoutCopies
  | .copyConstruct _ _ | .copyAssign _ _ => .isFalse id
  | .initializes _ path opens =>
      inferInstanceAs (Decidable ((before.table.tracked path).isSome = true ∨ opens = true))
  | .construct _ | .logSetup _ _ _ | .destroy _ => .isTrue trivial

theorem remembers_store [ToString Path] {process : Process Id Path}
    (remembers : process.Remembers) (id : Id) (logger : Logger Path) (table : SinkTable Path)
    (path : Path) (opens : Bool) :
    (process.store id path (logger.initializeLogger table path opens)).Remembers := by
  refine remembers_insert remembers (fun own attached => ?_) _
  dsimp only at attached
  split at attached
  next => rw [sinkPath_initializeLogger, Option.some.inj attached]
  next => cases attached

variable [Inhabited Path]

theorem remembers_step [ToString Path] {before after : Process Id Path} {event : LogEvent Id Path}
    (remembers : before.Remembers) (step : Step before event after) : after.Remembers := by
  cases step with
  | construct => exact remembers_insert remembers (fun _ attached => by cases attached) _
  | copyConstruct _ live | copyAssign _ live =>
      exact remembers_insert remembers (remembers _ _ live) _
  | initializes => exact remembers_store remembers _ _ _ _ _
  | logSetup => exact remembers_store remembers _ _ _ _ _
  | destroy _ =>
      intro other live remaining
      exact remembers other live (AList.lookup_of_lookup_erase remaining).2

/-- What holds in every history of loggers. -/
structure Coherent (process : Process Id Path) : Prop where
  sound : process.table.Sound
  remembers : process.Remembers

theorem coherent_new : Coherent (new : Process Id Path) := ⟨sound_new, nofun⟩

variable [ToString Path]

theorem coherent_step {before after : Process Id Path} {event : LogEvent Id Path}
    (coherent : before.Coherent) (step : Step before event after) : after.Coherent :=
  ⟨sound_step coherent.sound step, remembers_step coherent.remembers step⟩

/-- An event without copies keeps the counts right and releases what loses its last user, if and
only if it uses a logger once. -/
theorem counts_step_iff {before after : Process Id Path} {event : LogEvent Id Path}
    (coherent : before.Coherent) (step : Step before event after)
    (uncopied : before.WithoutCopies event) (counts : CountsUsers before) :
    CountsUsers after ∧ ReleasesAtZero ⟨before, event, after⟩ ↔
      SingleUse ⟨before, event, after⟩ := by
  cases step with
  | copyConstruct | copyAssign => exact uncopied.elim
  | construct unused =>
      have same := users_construct unused (default : Logger Path)
      refine iff_of_true ⟨⟨?_, ?_⟩, [], (List.append_nil _).symm, fun path => ?_⟩ trivial
      · intro path tracker present
        rw [same]
        exact counts.tracked path tracker present
      · intro path absent
        rw [same]
        exact counts.untracked path absent
      · rw [same, if_neg fun both => both.1.ne' both.2]
        rfl
  | initializes target => exact counts_store_iff counts target _ _ _ _
  | logSetup target =>
      rw [Module.logSetup, destroy_default coherent.sound.named]
      exact counts_store_iff counts target _ _ _ _
  | destroy target => exact counts_destroy_iff counts coherent.remembers target _

/-- In a history of loggers without copies, whose explicit initializations succeed, the reference
count of every path is the number of live loggers attached to it and its stream is flushed, closed
and erased exactly when that number drops to zero, after each event, if and only if a logger is
initialized or set up only while it is not attached, and destroyed only while it is attached or the
path that it remembers is not tracked. -/
theorem counts_users_throughout_iff {process : Process Id Path}
    {steps : List (Transition (Process Id Path) (LogEvent Id Path))}
    (history : StepPath (fun before event after =>
      Step before event after ∧ before.WithoutCopies event) .new steps process) :
    (∀ step ∈ steps, CountsUsers step.target ∧ ReleasesAtZero step) ↔
      ∀ step ∈ steps, SingleUse step := by
  have initially : CountsUsers (new : Process Id Path) := ⟨nofun, fun _ _ => rfl⟩
  exact history.forall_step_iff coherent_new initially
    (fun _ _ _ coherent one => coherent_step coherent one.1) (fun _ _ _ _ _ _ => And.left)
    fun _ _ _ coherent one => counts_step_iff coherent one.1 one.2

omit [ToString Path] in
/-- Who uses a logger once leaves the other users of its path their sink. -/
theorem leavesUsers_of_singleUse {step : Transition (Process Id Path) (LogEvent Id Path)}
    (coherent : step.source.Coherent) (counts : CountsUsers step.source) (single : SingleUse step) :
    LeavesUsers step := by
  intro id live tracker label target present last other user apart found attached
  rw [SingleUse, label] at single
  have someone : 0 < step.source.otherUsers id live.logger.sinkPath :=
    AList.census_pos ((AList.lookup_erase_ne apart).trans found) attached
  cases own : live.initializedFor with
  | none => cases (single live target own).symm.trans present
  | some path =>
      obtain rfl := coherent.remembers id live target path own
      obtain ⟨tracker', present', count⟩ := counts.of_lookup target own
      obtain rfl := Option.some.inj (present.symm.trans present')
      omega

/-- Under the same discipline every logger keeps its sink. -/
theorem keepsSinks_of_singleUse {process : Process Id Path}
    {steps : List (Transition (Process Id Path) (LogEvent Id Path))}
    (history : StepPath (fun before event after =>
      Step before event after ∧ before.WithoutCopies event) .new steps process)
    (disciplined : ∀ step ∈ steps, SingleUse step) : ∀ step ∈ steps, KeepsSinks step.target := by
  let Inv (process : Process Id Path) : Prop :=
    process.Coherent ∧ CountsUsers process ∧ KeepsSinks process
  have initially : Inv new := ⟨coherent_new, ⟨nofun, fun _ _ => rfl⟩, nofun⟩
  have around := (history.invariant initially fun step member before => by
    obtain ⟨coherent, counts, keeps⟩ := before
    obtain ⟨one, uncopied⟩ := history.step_of_mem member
    have single := disciplined step member
    exact ⟨coherent_step coherent one,
      ((counts_step_iff coherent one uncopied counts).mpr single).1,
      (keepsSinks_step_iff coherent.sound one keeps).mpr
        (leavesUsers_of_singleUse coherent counts single)⟩).2
  exact fun step member => (around step member).2.2.2

end History

/-- Events without copies, carried out. -/
theorem step_of_guarded [DecidableEq Id] [Inhabited Path] [ToString Path]
    (before : Process Id Path) (event : LogEvent Id Path) (after : Process Id Path)
    (performed : StepPath.guarded WithoutCopies perform before event = some after) :
    Step before event after ∧ before.WithoutCopies event := by
  obtain ⟨uncopied, performed⟩ := StepPath.of_guarded before event after performed
  exact ⟨step_of_perform before event after performed, uncopied⟩

/-- Two loggers share a file and are destroyed one after the other. -/
theorem counts_users_throughout_iff_shared :
    ∃ steps, ∃ process : Process ℕ ℕ,
      StepPath (fun before event after =>
        Step before event after ∧ before.WithoutCopies event) .new steps process ∧
      steps.map Transition.label = [.construct 0, .construct 1, .initializes 0 7 true,
        .logSetup 1 7 true, .destroy 0, .destroy 1] ∧
      process.table.performed = [(7, .flush), (7, .close), (7, .erase)] ∧
      ((∀ step ∈ steps, CountsUsers step.target ∧ ReleasesAtZero step) ↔
        ∀ step ∈ steps, SingleUse step) := by
  obtain ⟨steps, process, history, labels, released⟩ :=
    StepPath.exists_of_checked step_of_guarded (new : Process ℕ ℕ)
      [.construct 0, .construct 1, .initializes 0 7 true, .logSetup 1 7 true, .destroy 0,
        .destroy 1]
      (fun process => process.table.performed = [(7, .flush), (7, .close), (7, .erase)])
      (by decide)
  exact ⟨steps, process, history, labels, released, counts_users_throughout_iff history⟩

/-- `log_setup` called twice on one module: the second reference is never given back, and the stream
stays after the module is gone. -/
theorem not_countsUsers_repeated :
    ∃ steps, ∃ process : Process ℕ ℕ,
      StepPath (fun before event after =>
        Step before event after ∧ before.WithoutCopies event) .new steps process ∧
      steps.map Transition.label =
        [.construct 0, .logSetup 0 7 true, .logSetup 0 7 true, .destroy 0] ∧
      (process.table.tracked 7).map SinkTracker.refCount = some 1 ∧ process.users 7 = 0 ∧
      ¬ CountsUsers process := by
  obtain ⟨steps, process, history, labels, left, nobody⟩ :=
    StepPath.exists_of_checked step_of_guarded (new : Process ℕ ℕ)
      [.construct 0, .logSetup 0 7 true, .logSetup 0 7 true, .destroy 0]
      (fun process => (process.table.tracked 7).map SinkTracker.refCount = some 1 ∧
        process.users 7 = 0) (by decide)
  obtain ⟨tracker, present, -⟩ := Option.map_eq_some_iff.mp left
  exact ⟨steps, process, history, labels, left, nobody, fun counts =>
    (counts.tracked 7 tracker present).2.ne' nobody⟩

end Process
end Simo
