import Mathlib.Data.Multiset.AddSub
import Mathlib.Data.Multiset.DershowitzManna
import Mathlib.Data.Fintype.Order

/-!
# Multisets as priority queues

A min-priority queue over a linear order is a multiset: pushing adds one copy, popping removes one
copy of the least element.  `Run` records which multiset a sequence of operations leaves, and is
the specification that a concrete queue is compared with.  A loop that takes one element at a time
and refills the queue with greater ones drains it when the order is finite.
-/

namespace MinQueue

/-- The two operations of a priority queue. -/
inductive Op (α : Type*) where
  | push (value : α)
  | pop
deriving DecidableEq

/-- Least element of a multiset. -/
def IsMin {α : Type*} [LE α] (queue : Multiset α) (least : α) : Prop :=
  IsLeast {value | value ∈ queue} least

/-- The multiset left by a sequence of operations on the empty queue. -/
inductive Run {α : Type*} [LinearOrder α] : List (Op α) → Multiset α → Prop
  | nil : Run [] 0
  | push {ops : List (Op α)} {queue : Multiset α} (value : α) :
      Run ops queue → Run (ops ++ [.push value]) (value ::ₘ queue)
  | pop {ops : List (Op α)} {queue : Multiset α} {least : α} :
      Run ops queue → IsMin queue least → Run (ops ++ [.pop]) (queue.erase least)

/-- `after` is `before` without one element and with some greater ones added. -/
def Refills {α : Type*} [Preorder α] (after before : Multiset α) : Prop :=
  ∃ rest added least, before = least ::ₘ rest ∧ after = rest + added ∧
    ∀ value ∈ added, least < value

/-- A queue over a finite order that is only refilled with greater elements is drained. -/
theorem wellFounded_refills {α : Type*} [PartialOrder α] [Finite α] :
    WellFounded (Refills (α := α)) := by
  have below : WellFounded fun first second : Multiset αᵒᵈ => first.IsDershowitzMannaLT second :=
    Multiset.wellFounded_isDershowitzMannaLT
  refine Subrelation.wf ?_ (InvImage.wf (Multiset.map OrderDual.toDual) below)
  rintro _ _ ⟨rest, added, least, rfl, rfl, greater⟩
  refine ⟨rest.map OrderDual.toDual, added.map OrderDual.toDual, {OrderDual.toDual least},
    Multiset.singleton_ne_zero _, Multiset.map_add _ _ _, ?_, ?_⟩
  · rw [Multiset.map_cons, ← Multiset.singleton_add, add_comm]
  · intro value member
    obtain ⟨original, inAdded, rfl⟩ := Multiset.mem_map.mp member
    exact ⟨_, Multiset.mem_singleton_self _, OrderDual.toDual_lt_toDual.mpr (greater _ inAdded)⟩

end MinQueue
