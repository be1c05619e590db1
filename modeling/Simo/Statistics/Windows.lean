import Mathlib.Algebra.BigOperators.Group.List.Basic
import Mathlib.Data.List.DropRight
import Simo.Statistics.StatMapper
import Simo.Support.Transition

/-!
# Windows of a mapper

Between two calls of `assign` a mapper shows what its statistics have gained.  The copies are taken
by `assign` alone, so that a difference can be computed at any time and as often as one likes, and
the differences at the ends of consecutive windows add up to the change over all of them.
-/

namespace Simo.Statistics

variable {ModuleRef : Type*}

/-- A mapper and the statistics in memory. -/
structure Recording (ModuleRef : Type*) where
  statistics : ModuleRef → List Count
  mapper : StatMapper ModuleRef

/-- What can happen to a mapper and to the statistics; a difference comes with its result. -/
inductive RecordingEvent (ModuleRef : Type*) where
  | add (ref : StatisticRef ModuleRef)
  | update (update : StatUpdate ModuleRef)
  | assign
  | computeDiff (result : List Count)

namespace RecordingEvent

/-- The events since the last `assign`. -/
def window (events : List (RecordingEvent ModuleRef)) : List (RecordingEvent ModuleRef) :=
  events.rtakeWhile fun
    | assign => false
    | _ => true

/-- The statistics that have been added, in this order. -/
def added (events : List (RecordingEvent ModuleRef)) : List (StatisticRef ModuleRef) :=
  events.filterMap fun
    | add ref => some ref
    | _ => none

variable [DecidableEq ModuleRef]

/-- What an event adds to a statistic. -/
def amount (ref : StatisticRef ModuleRef) : RecordingEvent ModuleRef → ℤ
  | update change => change.amount ref
  | add _ | assign | computeDiff _ => 0

/-- What the events add to a statistic after the last `assign`. -/
def gained (ref : StatisticRef ModuleRef) (events : List (RecordingEvent ModuleRef)) : ℤ :=
  ((window events).map (amount ref)).sum

theorem gained_concat_assign (ref : StatisticRef ModuleRef)
    (events : List (RecordingEvent ModuleRef)) : gained ref (events ++ [assign]) = 0 := by
  rw [gained, window, List.rtakeWhile_concat, if_neg Bool.false_ne_true]
  rfl

theorem gained_concat (ref : StatisticRef ModuleRef) (events : List (RecordingEvent ModuleRef))
    (event : RecordingEvent ModuleRef) (other : event ≠ assign) :
    gained ref (events ++ [event]) = gained ref events + amount ref event := by
  rw [gained, window, List.rtakeWhile_concat, if_pos, List.map_append, List.sum_append]
  · simp [gained, window]
  · cases event with
    | assign => exact (other rfl).elim
    | add | update | computeDiff => rfl

end RecordingEvent

namespace Recording

open RecordingEvent

variable {recording before after : Recording ModuleRef} {event : RecordingEvent ModuleRef}
  {ref : StatisticRef ModuleRef} {index : ℕ} {sum : ℤ}
  {steps : List (Transition (Recording ModuleRef) (RecordingEvent ModuleRef))}

/-! ## Differences -/

/-- Every address that the mapper has is that of a statistic. -/
def Sound (recording : Recording ModuleRef) : Prop :=
  ∀ entry ∈ recording.mapper.storage, (deref recording.statistics entry.2).isSome = true

/-- The mapper has a copy of the statistic at an index, which the statistic has left behind by a
sum. -/
def Tracks (ref : StatisticRef ModuleRef) (index : ℕ) (sum : ℤ)
    (recording : Recording ModuleRef) : Prop :=
  ∃ copy, recording.mapper.storage[index]? = some (copy, ref) ∧
    deref recording.statistics ref = some { copy with val := copy.val + sum }

/-- The value that a difference has at an index. -/
def entry (index : ℕ) (recording : Recording ModuleRef) : ℤ :=
  ((recording.mapper.computeDiff recording.statistics)[index]?.map Count.val).getD 0

/-- Where every address is that of a statistic, there is one difference for each of them. -/
theorem map_some_computeDiff (sound : recording.Sound) :
    (recording.mapper.computeDiff recording.statistics).map some =
      recording.mapper.storage.map fun entry =>
        (deref recording.statistics entry.2).map (·.computeDelta entry.1) := by
  rw [StatMapper.computeDiff, List.map_filterMap_some_eq_filter_map_isSome]
  refine List.filter_eq_self.mpr fun difference member => ?_
  obtain ⟨entry, stored, rfl⟩ := List.mem_map.mp member
  rw [Option.isSome_map]
  exact sound entry stored

theorem length_computeDiff (sound : recording.Sound) :
    (recording.mapper.computeDiff recording.statistics).length =
      recording.mapper.storage.length := by
  have lengths := congrArg List.length (map_some_computeDiff sound)
  rwa [List.length_map, List.length_map] at lengths

/-- The difference of a statistic that is tracked has its name and what it has gained. -/
theorem Tracks.computeDiff (tracks : recording.Tracks ref index sum) (sound : recording.Sound) :
    ∃ stat, deref recording.statistics ref = some stat ∧
      (recording.mapper.computeDiff recording.statistics)[index]? = some ⟨stat.name_, sum⟩ := by
  obtain ⟨copy, stored, present⟩ := tracks
  refine ⟨_, present, ?_⟩
  have entries := congrArg (·[index]?) (map_some_computeDiff sound)
  simp only [List.getElem?_map, stored, Option.map_some, present] at entries
  obtain ⟨found, here, same⟩ := Option.map_eq_some_iff.mp entries
  rw [here, same, Count.computeDelta, add_sub_cancel_left]

theorem Tracks.entry_eq (tracks : recording.Tracks ref index sum) (sound : recording.Sound) :
    recording.entry index = sum := by
  obtain ⟨stat, -, found⟩ := tracks.computeDiff sound
  rw [entry, found]
  rfl

/-- The values at an index just before each `assign`. -/
def closingEntries (index : ℕ)
    (steps : List (Transition (Recording ModuleRef) (RecordingEvent ModuleRef))) : List ℤ :=
  steps.filterMap fun step =>
    match step.label with
    | .assign => some (step.source.entry index)
    | _ => none

theorem closingEntries_concat_assign (index : ℕ)
    (steps : List (Transition (Recording ModuleRef) (RecordingEvent ModuleRef)))
    (before after : Recording ModuleRef) :
    closingEntries index (steps ++ [⟨before, .assign, after⟩]) =
      closingEntries index steps ++ [before.entry index] := by
  rw [closingEntries, List.filterMap_append]
  rfl

theorem closingEntries_concat (index : ℕ)
    (steps : List (Transition (Recording ModuleRef) (RecordingEvent ModuleRef)))
    (before after : Recording ModuleRef) (other : event ≠ .assign) :
    closingEntries index (steps ++ [⟨before, event, after⟩]) = closingEntries index steps := by
  rw [closingEntries, List.filterMap_append]
  cases event with
  | assign => exact (other rfl).elim
  | add | update | computeDiff => exact List.append_nil _

/-! ## One event -/

variable [DecidableEq ModuleRef]

/-- One event. -/
inductive Step : Recording ModuleRef → RecordingEvent ModuleRef → Recording ModuleRef → Prop
  | add {recording : Recording ModuleRef} {ref : StatisticRef ModuleRef} {stat : Count}
      (present : deref recording.statistics ref = some stat) :
      Step recording (.add ref) { recording with mapper := recording.mapper.add stat ref }
  | update (recording : Recording ModuleRef) (change : StatUpdate ModuleRef) :
      Step recording (.update change)
        { recording with statistics := change.apply recording.statistics }
  | assign (recording : Recording ModuleRef) :
      Step recording .assign
        { recording with mapper := recording.mapper.assign recording.statistics }
  | computeDiff (recording : Recording ModuleRef) :
      Step recording (.computeDiff (recording.mapper.computeDiff recording.statistics)) recording

theorem Sound.step (sound : before.Sound) (taken : Step before event after) : after.Sound := by
  cases taken with
  | @add ref stat present =>
      intro entry member
      rw [StatMapper.storage_add, List.mem_append, List.mem_singleton] at member
      rcases member with old | rfl
      · exact sound entry old
      · exact Option.isSome_iff_exists.mpr ⟨stat, present⟩
  | update change =>
      intro entry member
      obtain ⟨stat, present⟩ := Option.isSome_iff_exists.mp (sound entry member)
      exact Option.isSome_iff_exists.mpr ⟨_, StatUpdate.deref_apply present change⟩
  | assign =>
      intro entry member
      obtain ⟨old, stored, rfl⟩ := List.mem_map.mp member
      exact sound old stored
  | computeDiff => exact sound

/-- A statistic that is tracked goes on being tracked: `assign` copies it, and any other event adds
its amount. -/
theorem Tracks.step {events : List (RecordingEvent ModuleRef)}
    (tracks : before.Tracks ref index (gained ref events)) (taken : Step before event after) :
    after.Tracks ref index (gained ref (events ++ [event])) := by
  obtain ⟨copy, stored, present⟩ := tracks
  cases taken with
  | add =>
      rw [gained_concat ref events (.add _) (fun same => by cases same), amount, add_zero]
      refine ⟨copy, ?_, present⟩
      rw [StatMapper.storage_add]
      exact List.getElem?_append_left (List.getElem?_eq_some_iff.mp stored).1 |>.trans stored
  | update change =>
      rw [gained_concat ref events (.update change) (fun same => by cases same), amount]
      refine ⟨copy, stored, ?_⟩
      rw [← add_assoc]
      exact StatUpdate.deref_apply present change
  | assign =>
      rw [gained_concat_assign]
      refine ⟨{ copy with val := copy.val + gained ref events }, ?_, ?_⟩
      · rw [StatMapper.assign, List.getElem?_map, stored, Option.map_some]
        dsimp only
        rw [present]
        rfl
      · rw [add_zero]
        exact present
  | computeDiff =>
      rw [gained_concat ref events (.computeDiff _) (fun same => by cases same), amount, add_zero]
      exact ⟨copy, stored, present⟩

/-- A statistic that is added is tracked at the end of the storage. -/
theorem tracks_add (taken : Step before (.add ref) after) :
    after.Tracks ref before.mapper.storage.length 0 := by
  cases taken with
  | @add _ stat present =>
      refine ⟨stat, ?_, by rw [add_zero]; exact present⟩
      rw [StatMapper.storage_add, List.getElem?_concat_length]

theorem length_storage (taken : Step before event after) :
    after.mapper.storage.length = before.mapper.storage.length + (added [event]).length := by
  cases taken with
  | add => exact List.length_append
  | update | computeDiff => rfl
  | assign => exact List.length_map _

/-! ## Series of windows -/

/-- From the beginning of a window on: the statistic is tracked with what it has gained in the
window that is open, and together with the entries at the ends of the windows before, this is
everything that it has gained. -/
theorem telescope (path : StepPath Step before steps after) (sound : before.Sound)
    (tracks : before.Tracks ref index 0) :
    after.Sound ∧ after.Tracks ref index (gained ref (steps.map Transition.label)) ∧
      (closingEntries index steps).sum + gained ref (steps.map Transition.label) =
        ((steps.map Transition.label).map (amount ref)).sum := by
  induction path with
  | nil => exact ⟨sound, tracks, rfl⟩
  | @snoc steps before after event _ taken induction =>
      obtain ⟨sound, tracks, total⟩ := induction
      rw [List.map_append, List.map_singleton]
      refine ⟨sound.step taken, tracks.step taken, ?_⟩
      rw [List.map_append, List.sum_append, ← total, List.map_singleton, List.sum_singleton]
      by_cases closing : event = .assign
      · subst closing
        rw [closingEntries_concat_assign, List.sum_append, List.sum_singleton,
          tracks.entry_eq sound, gained_concat_assign, amount]
      · rw [closingEntries_concat index steps before after closing,
          gained_concat ref _ event closing, add_assoc]

/-- The mapper has one copy for each statistic that has been added. -/
theorem length_of_path (path : StepPath Step before steps after) :
    after.mapper.storage.length =
      before.mapper.storage.length + (added (steps.map Transition.label)).length := by
  induction path with
  | nil => rfl
  | snoc _ taken induction =>
      rw [length_storage taken, induction, List.map_append, added, added, added,
        List.filterMap_append, List.length_append, Nat.add_assoc]
      rfl

/-- In every history of additions, updates, `assign` and `compute_diff` calls: a difference has one
entry for each statistic that has been added, in this order, with the name of the statistic and the
sum of its updates since the last `assign`, or since it was added; the entries just before each of a
series of `assign` calls add up to the total of the updates over the series; and `compute_diff`
leaves everything as it is. -/
theorem windows_telescope {statistics : ModuleRef → List Count}
    (history : StepPath Step ⟨statistics, .new⟩ steps recording) :
    (recording.mapper.computeDiff recording.statistics).length =
        (added (steps.map Transition.label)).length ∧
      (∀ earlier adding later ref, steps = earlier ++ adding :: later → adding.label = .add ref →
        (∃ stat, deref recording.statistics ref = some stat ∧
          (recording.mapper.computeDiff
              recording.statistics)[(added (earlier.map Transition.label)).length]? =
            some ⟨stat.name_, gained ref (later.map Transition.label)⟩) ∧
        ∀ first series rest, later = first ++ series ++ rest →
          window (first.map Transition.label) = [] → window (series.map Transition.label) = [] →
          (closingEntries (added (earlier.map Transition.label)).length series).sum =
            ((series.map Transition.label).map (amount ref)).sum) ∧
      ∀ step ∈ steps, ∀ result, step.label = .computeDiff result →
        result = step.source.mapper.computeDiff step.source.statistics ∧
          step.target = step.source := by
  have initially : (⟨statistics, .new⟩ : Recording ModuleRef).Sound := nofun
  have sound := (history.invariant initially fun step member before =>
    before.step (history.step_of_mem member)).1
  refine ⟨?_, ?_, ?_⟩
  · rw [length_computeDiff sound, length_of_path history]
    exact Nat.zero_add _
  · rintro earlier ⟨before, event, after⟩ later ref rfl adding
    obtain ⟨middle, front, adds⟩ := history.of_append
    obtain ⟨rfl, taken, back⟩ := adds.of_cons
    dsimp only at adding front taken back
    subst adding
    have index : before.mapper.storage.length =
        (added (earlier.map Transition.label)).length :=
      (length_of_path front).trans (Nat.zero_add _)
    have soundBefore := front.invariant_of_step initially fun _ _ _ => Sound.step
    have soundAfter := soundBefore.step taken
    have tracks := index ▸ tracks_add taken
    refine ⟨(telescope back soundAfter tracks).2.1.computeDiff sound, ?_⟩
    rintro first series rest rfl opened closed
    obtain ⟨_, shown, -⟩ := back.of_append
    obtain ⟨_, toSeries, inSeries⟩ := shown.of_append
    obtain ⟨soundThere, tracksThere, -⟩ := telescope toSeries soundAfter tracks
    rw [gained, opened] at tracksThere
    have total := (telescope inSeries soundThere tracksThere).2.2
    rw [gained, closed] at total
    exact (add_zero _).symm.trans total
  · rintro ⟨before, event, after⟩ member result called
    have taken := history.step_of_mem member
    dsimp only at called taken ⊢
    subst called
    cases taken with
    | computeDiff => exact ⟨rfl, rfl⟩

/-- Two counts in memory. -/
def twoCounts : Unit → List Count := fun _ => [⟨['a'], 5⟩, ⟨['b'], 0⟩]

/-- The second count is added while the window of the first is open; both are read and assigned. -/
theorem windows_telescope_twoCounts :
    ∃ steps recording, StepPath Step ⟨twoCounts, .new⟩ steps recording ∧
      steps.map Transition.label = [.add ⟨(), 0⟩, .update (.perform ⟨(), 0⟩ (.addAssign 3)),
        .add ⟨(), 1⟩, .computeDiff [⟨['a'], 3⟩, ⟨['b'], 0⟩], .assign,
        .update (.perform ⟨(), 1⟩ .preDecrement), .assign] ∧
      (recording.mapper.computeDiff recording.statistics).length =
        (added (steps.map Transition.label)).length := by
  have adds {recording : Recording Unit} (ref : StatisticRef Unit) (stat : Count)
      (present : deref recording.statistics ref = some stat) : Step recording (.add ref) _ :=
    .add present
  have begins : StepPath Step (⟨twoCounts, .new⟩ : Recording Unit) [] _ := .nil
  have history := begins.snoc (adds ⟨(), 0⟩ ⟨['a'], 5⟩ rfl)
    |>.snoc (.update _ (.perform ⟨(), 0⟩ (.addAssign 3)))
    |>.snoc (adds ⟨(), 1⟩ ⟨['b'], 0⟩ rfl) |>.snoc (.computeDiff _) |>.snoc (.assign _)
    |>.snoc (.update _ (.perform ⟨(), 1⟩ .preDecrement)) |>.snoc (.assign _)
  exact ⟨_, _, history, rfl, (windows_telescope history).1⟩

end Recording

end Simo.Statistics
