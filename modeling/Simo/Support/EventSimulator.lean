import Mathlib.Data.Prod.Lex
import Mathlib.Data.Set.Insert
import Mathlib.Logic.Function.Basic

/-!
# A reference discrete-event simulator

The simulator keeps its pending events as a set of entries (tick, number, task), where the number
counts schedule calls, and repeatedly fires the least entry by (tick, number).  `Represents` relates
such a set to one first-in first-out queue for each tick: scheduling appends to a queue, and the
least entry is the front of the queue of the least tick in use.
-/

namespace EventSimulator

variable {Tick Task World : Type*}

/-- A scheduled call of a task. -/
structure Entry (Tick Task : Type*) where
  tick : Tick
  /-- Position among all schedule calls. -/
  number : ℕ
  task : Task

/-- State of the simulator. -/
structure Simulator (Tick Task World : Type*) where
  pending : Set (Entry Tick Task)
  /-- Number of schedule calls so far. -/
  issued : ℕ
  world : World
  executed : List (Tick × Task)

namespace Simulator

/-- A simulator on which nothing has been scheduled. -/
def new (world : World) : Simulator Tick Task World where
  pending := ∅
  issued := 0
  world := world
  executed := []

def schedule (sim : Simulator Tick Task World) (event : Tick × Task) :
    Simulator Tick Task World :=
  { sim with
    pending := insert ⟨event.1, sim.issued, event.2⟩ sim.pending
    issued := sim.issued + 1 }

@[simp]
theorem world_schedule (events : List (Tick × Task)) (sim : Simulator Tick Task World) :
    (events.foldl schedule sim).world = sim.world := by
  induction events generalizing sim with
  | nil => rfl
  | cons event events induction => exact induction _

@[simp]
theorem executed_schedule (events : List (Tick × Task)) (sim : Simulator Tick Task World) :
    (events.foldl schedule sim).executed = sim.executed := by
  induction events generalizing sim with
  | nil => rfl
  | cons event events induction => exact induction _

/-- Remove an entry and call its task with its tick. -/
def fire (call : Task → Tick → World → World × List (Tick × Task))
    (sim : Simulator Tick Task World) (entry : Entry Tick Task) : Simulator Tick Task World :=
  (call entry.task entry.tick sim.world).2.foldl schedule
    { sim with
      pending := sim.pending \ {entry}
      world := (call entry.task entry.tick sim.world).1
      executed := sim.executed ++ [(entry.tick, entry.task)] }

end Simulator

section Run

variable [LinearOrder Tick]

/-- The least entry by tick and number. -/
def IsNext (pending : Set (Entry Tick Task)) (entry : Entry Tick Task) : Prop :=
  entry ∈ pending ∧ ∀ other ∈ pending, other ≠ entry →
    toLex (entry.tick, entry.number) < toLex (other.tick, other.number)

theorem IsNext.unique {pending : Set (Entry Tick Task)} {first second : Entry Tick Task}
    (one : IsNext pending first) (other : IsNext pending second) : first = second := by
  by_contra apart
  exact lt_asymm (one.2 second other.1 (Ne.symm apart)) (other.2 first one.1 apart)

/-- Fire the least entry while its tick is within the final one. -/
inductive RunTo (call : Task → Tick → World → World × List (Tick × Task)) (finalTick : Tick) :
    Simulator Tick Task World → Simulator Tick Task World → Prop
  | done {sim : Simulator Tick Task World}
      (beyond : ∀ entry ∈ sim.pending, finalTick < entry.tick) :
      RunTo call finalTick sim sim
  | fire {sim final : Simulator Tick Task World} {entry : Entry Tick Task}
      (next : IsNext sim.pending entry) (due : entry.tick ≤ finalTick)
      (rest : RunTo call finalTick (sim.fire call entry) final) : RunTo call finalTick sim final

/-- The simulator is deterministic. -/
theorem RunTo.unique {call : Task → Tick → World → World × List (Tick × Task)} {finalTick : Tick}
    {sim first second : Simulator Tick Task World} (one : RunTo call finalTick sim first)
    (other : RunTo call finalTick sim second) : first = second := by
  induction one with
  | done beyond =>
      cases other with
      | done => rfl
      | fire next due => exact absurd due (not_le.mpr (beyond _ next.1))
  | fire next due _ induction =>
      cases other with
      | done beyond => exact absurd due (not_le.mpr (beyond _ next.1))
      | fire next' _ rest =>
          rw [next'.unique next] at rest
          exact induction rest

end Run

/-! ## One queue for each tick -/

/-- `numbered` lists the pending entries of each tick in the order of their numbers, and the queues
hold their tasks. -/
structure Numbering (queues : Tick → List Task) (pending : Set (Entry Tick Task)) (issued : ℕ)
    (numbered : Tick → List (ℕ × Task)) : Prop where
  tasks : ∀ tick, (numbered tick).map Prod.snd = queues tick
  sorted : ∀ tick, (numbered tick).Pairwise fun first second => first.1 < second.1
  bounded : ∀ tick, ∀ entry ∈ numbered tick, entry.1 < issued
  mem_iff : ∀ entry, entry ∈ pending ↔ (entry.number, entry.task) ∈ numbered entry.tick

section Front

variable {queues : Tick → List Task} {pending : Set (Entry Tick Task)} {issued : ℕ}
  {numbered : Tick → List (ℕ × Task)} {tick : Tick} {number : ℕ} {task : Task}
  {tail : List (ℕ × Task)}

/-- The front of the queue of the least tick in use is the least entry. -/
theorem Numbering.isNext [LinearOrder Tick] (numbering : Numbering queues pending issued numbered)
    (listed : numbered tick = (number, task) :: tail)
    (least : ∀ lower, lower < tick → queues lower = []) : IsNext pending ⟨tick, number, task⟩ := by
  obtain ⟨tasks, sorted, -, mem_iff⟩ := numbering
  obtain ⟨first, -⟩ := List.pairwise_cons.mp (listed ▸ sorted tick)
  refine ⟨(mem_iff _).mpr (by simp [listed]), ?_⟩
  rintro ⟨other, number', task'⟩ member apart
  rw [mem_iff] at member
  rw [Prod.Lex.toLex_lt_toLex]
  rcases lt_trichotomy other tick with lower | rfl | greater
  · have vacant := tasks other
    rw [least other lower, List.map_eq_nil_iff] at vacant
    simp [vacant] at member
  · rw [listed] at member
    rcases List.mem_cons.mp member with same | behind
    · obtain ⟨rfl, rfl⟩ := Prod.mk.inj same
      exact (apart rfl).elim
    · exact .inr ⟨rfl, first _ behind⟩
  · exact .inl greater

/-- Taking an entry away takes the front off its queue. -/
theorem Numbering.dropFront [DecidableEq Tick]
    (numbering : Numbering queues pending issued numbered)
    (listed : numbered tick = (number, task) :: tail) :
    Numbering (Function.update queues tick (tail.map Prod.snd))
      (pending \ {⟨tick, number, task⟩}) issued (Function.update numbered tick tail) := by
  obtain ⟨tasks, sorted, bounded, mem_iff⟩ := numbering
  obtain ⟨first, later⟩ := List.pairwise_cons.mp (listed ▸ sorted tick)
  refine ⟨fun other => ?_, fun other => ?_, fun other entry member => ?_, fun entry => ?_⟩
  · rcases eq_or_ne other tick with rfl | apart
    · simp
    · simp [apart, tasks]
  · rcases eq_or_ne other tick with rfl | apart
    · rw [Function.update_self]
      exact later
    · rw [Function.update_of_ne apart]
      exact sorted other
  · rcases eq_or_ne other tick with rfl | apart
    · rw [Function.update_self] at member
      exact bounded other entry (listed ▸ List.mem_cons_of_mem _ member)
    · rw [Function.update_of_ne apart] at member
      exact bounded other entry member
  · obtain ⟨other, number', task'⟩ := entry
    rw [Set.mem_sdiff, mem_iff, Set.mem_singleton_iff]
    rcases eq_or_ne other tick with rfl | apart
    · simp only [listed, Function.update_self, List.mem_cons, Prod.mk.injEq, Entry.mk.injEq,
        true_and]
      constructor
      · rintro ⟨same | behind, other⟩
        · exact (other same).elim
        · exact behind
      · intro behind
        refine ⟨.inr behind, ?_⟩
        rintro ⟨rfl, rfl⟩
        exact lt_irrefl _ (first _ behind)
    · simp [apart]

end Front

/-- The queues hold the tasks of the pending entries, by tick and in scheduling order. -/
def Represents (queues : Tick → List Task) (pending : Set (Entry Tick Task)) (issued : ℕ) : Prop :=
  ∃ numbered, Numbering queues pending issued numbered

namespace Represents

variable {queues : Tick → List Task} {pending : Set (Entry Tick Task)} {issued : ℕ}

theorem empty : Represents (fun _ : Tick => ([] : List Task)) ∅ 0 :=
  ⟨fun _ => [], by simp, by simp, by simp, by simp⟩

/-- The ticks in use are those with a non-empty queue. -/
theorem exists_mem_iff (represents : Represents queues pending issued) (tick : Tick) :
    (∃ entry ∈ pending, entry.tick = tick) ↔ queues tick ≠ [] := by
  obtain ⟨numbered, tasks, -, -, mem_iff⟩ := represents
  rw [← tasks tick, Ne, List.map_eq_nil_iff]
  constructor
  · rintro ⟨entry, member, rfl⟩
    exact List.ne_nil_of_mem ((mem_iff entry).mp member)
  · intro filled
    obtain ⟨⟨number, task⟩, member⟩ := List.exists_mem_of_ne_nil _ filled
    exact ⟨⟨tick, number, task⟩, (mem_iff _).mpr member, rfl⟩

theorem pending_eq_empty (represents : Represents queues pending issued) :
    pending = ∅ ↔ ∀ tick, queues tick = [] := by
  rw [Set.eq_empty_iff_forall_notMem]
  constructor
  · intro none tick
    by_contra filled
    obtain ⟨entry, member, -⟩ := (represents.exists_mem_iff tick).mpr filled
    exact none entry member
  · intro vacant entry member
    exact (represents.exists_mem_iff entry.tick).mp ⟨entry, member, rfl⟩ (vacant entry.tick)

variable [DecidableEq Tick]

/-- Scheduling appends to the queue of its tick. -/
theorem schedule (represents : Represents queues pending issued) (tick : Tick) (task : Task) :
    Represents (Function.update queues tick (queues tick ++ [task]))
      (insert ⟨tick, issued, task⟩ pending) (issued + 1) := by
  obtain ⟨numbered, tasks, sorted, bounded, mem_iff⟩ := represents
  refine ⟨Function.update numbered tick (numbered tick ++ [(issued, task)]), fun other => ?_,
    fun other => ?_, fun other entry member => ?_, fun entry => ?_⟩
  · rcases eq_or_ne other tick with rfl | apart
    · simp [tasks]
    · simp [apart, tasks]
  · rcases eq_or_ne other tick with rfl | apart
    · rw [Function.update_self]
      refine List.pairwise_append.mpr ⟨sorted other, List.pairwise_singleton _ _, ?_⟩
      intro entry member _ last
      rw [List.mem_singleton.mp last]
      exact bounded other entry member
    · rw [Function.update_of_ne apart]
      exact sorted other
  · rcases eq_or_ne other tick with rfl | apart
    · rw [Function.update_self] at member
      rcases List.mem_append.mp member with earlier | last
      · exact Nat.lt_succ_of_lt (bounded other entry earlier)
      · rw [List.mem_singleton.mp last]
        exact Nat.lt_succ_self issued
    · rw [Function.update_of_ne apart] at member
      exact Nat.lt_succ_of_lt (bounded other entry member)
  · obtain ⟨other, number, callable⟩ := entry
    rw [Set.mem_insert_iff, mem_iff]
    rcases eq_or_ne other tick with rfl | apart
    · simp [or_comm]
    · simp [apart]

/-- The least entry is the front of the queue of the least tick in use. -/
theorem exists_isNext [LinearOrder Tick] (represents : Represents queues pending issued)
    {tick : Tick} {task : Task} {rest : List Task} (front : queues tick = task :: rest)
    (least : ∀ lower, lower < tick → queues lower = []) :
    ∃ number, IsNext pending ⟨tick, number, task⟩ ∧
      Represents (Function.update queues tick rest) (pending \ {⟨tick, number, task⟩}) issued := by
  obtain ⟨numbered, numbering⟩ := represents
  obtain ⟨⟨number, _⟩, tail, listed, rfl, rfl⟩ :=
    List.map_eq_cons_iff.mp ((numbering.tasks tick).trans front)
  exact ⟨number, numbering.isNext listed least, _, numbering.dropFront listed⟩

end Represents
end EventSimulator
