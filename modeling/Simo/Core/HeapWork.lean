import Mathlib.Algebra.Order.BigOperators.Group.Multiset
import Mathlib.Algebra.Order.Group.Nat
import Simo.Core.HeapRepresentation

/-!
# What the heap costs

A `pop` that takes the last copy of the head spreads a whole bucket, which can hold every value that
there is.  But a value only ever moves to a lower bucket, so over any operations it moves at most as
often as the number of its first bucket says: all pops together move no more values than 64 for each
push.  The potential of a heap is the sum of the bucket numbers of its values.
-/

namespace Simo

namespace RadixHeap

/-- The bucket numbers of some values relative to a head, in total. -/
def distance (head : UInt64) (vals : Multiset UInt64) : ℕ :=
  (vals.map fun val => (getBucketIndex head val).val).sum

def potential (heap : RadixHeap) : ℕ := distance heap.peek heap.contents

theorem distance_zero (head : UInt64) : distance head 0 = 0 := rfl

theorem distance_add (head : UInt64) (vals more : Multiset UInt64) :
    distance head (vals + more) = distance head vals + distance head more := by
  rw [distance, Multiset.map_add, Multiset.sum_add]
  rfl

theorem distance_cons (head val : UInt64) (vals : Multiset UInt64) :
    distance head (val ::ₘ vals) = getBucketIndex head val + distance head vals := by
  rw [distance, Multiset.map_cons, Multiset.sum_cons]
  rfl

theorem distance_le {head next : UInt64} {vals : Multiset UInt64}
    (closer : ∀ val ∈ vals, getBucketIndex next val ≤ getBucketIndex head val) :
    distance next vals ≤ distance head vals :=
  Multiset.sum_map_le_sum_map _ _ closer

/-- Values that come closer to the head reduce the distance by one each. -/
theorem distance_lt {head next : UInt64} {vals : Multiset UInt64}
    (closer : ∀ val ∈ vals, getBucketIndex next val < getBucketIndex head val) :
    distance next vals + vals.card ≤ distance head vals := by
  have one : vals.card = (vals.map fun _ => 1).sum := by simp
  rw [distance, one, ← Multiset.sum_map_add]
  exact Multiset.sum_map_le_sum_map _ _ fun val member => closer val member

variable {heap final : RadixHeap}

theorem potential_push (valid : heap.Valid) (val : UInt64) :
    (heap.push val).potential = heap.potential + getBucketIndex (heap.push val).peek val := by
  rw [potential, contents_push, distance_cons, add_comm]
  rcases Nat.eq_zero_or_pos heap.sizeVal with vacant | occupied
  · have nothing : heap.contents = 0 := by
      rw [← Multiset.card_eq_zero, ← valid.size, vacant]
    rw [potential, nothing, distance_zero, distance_zero]
  · rw [peek_push_of_nonempty valid occupied]
    rfl

section Redistribute

variable {head : UInt64} {next : Fin numBuckets}

/-- Spreading a bucket takes at least one from the potential for each of its values. -/
theorem potential_redistribute (headless : Headless head heap) (isNext : heap.IsNext next) :
    (heap.redistribute next).potential + (heap.buckets.get next).length ≤
      distance head heap.contents := by
  change _ + heap.buckets[next].length ≤ _
  have exchange := contents_set heap next [] heap.bucketMins heap.sizeVal
  rw [Multiset.coe_nil, add_zero] at exchange
  have least := headless.bucket next _ (nextMin_spec headless isNext).1
  have spread : distance heap.bucketMins[next] heap.buckets[next] + heap.buckets[next].length ≤
      distance head heap.buckets[next] := distance_lt fun val member => by
    rw [headless.bucket next val member]
    exact getBucketIndex_nextMin_lt headless isNext member
  have kept : ∀ val ∈ heap.contents,
      getBucketIndex heap.bucketMins[next] val ≤ getBucketIndex head val := by
    intro val member
    obtain ⟨bucketIdx, stored⟩ := mem_contents.mp member
    have here := headless.bucket bucketIdx val stored
    rcases lt_trichotomy bucketIdx next with below | rfl | above
    · rw [isNext.lower bucketIdx below] at stored
      exact (List.not_mem_nil stored).elim
    · rw [here]
      exact (getBucketIndex_nextMin_lt headless isNext stored).le
    · refine (getBucketIndex_eq_of_lt ?_).le
      rwa [least, here]
  rw [potential, contents_redistribute headless isNext, peek_redistribute headless isNext,
    ← exchange, distance_add, distance_add]
  have rest := distance_le fun val member =>
    kept val (exchange ▸ Multiset.mem_add.mpr (.inl member))
  omega

end Redistribute

/-- A pop pays for the values that it moves with the potential. -/
theorem potential_pop (valid : heap.Valid) (nonempty : heap.empty = false) :
    heap.respread.length + heap.pop.potential ≤ heap.potential := by
  have occupied : 0 < heap.sizeVal := by simpa [empty, Nat.pos_iff_ne_zero] using nonempty
  have before : heap.potential = distance heap.peek heap.dropHead.contents := by
    rw [potential, contents_dropHead valid occupied, distance_cons,
      getBucketIndex_eq_zero.mpr rfl]
    exact Nat.zero_add _
  rw [before]
  by_cases gone : heap.dropHead.buckets[(0 : Fin numBuckets)] = []
  · have first : ¬ heap.dropHead.buckets[0] ≠ [] := not_not.mpr gone
    have headless := headless_dropHead valid occupied gone
    by_cases drained : heap.dropHead.sizeVal = 0
    · have nothing : heap.dropHead.contents = 0 := by
        rwa [headless.size, Multiset.card_eq_zero] at drained
      simp only [respread, pop]
      rw [if_neg first, if_neg first, if_pos drained, if_pos drained, potential, nothing,
        distance_zero]
      exact Nat.zero_le _
    · obtain ⟨next, found, isNext⟩ := exists_isNext headless (Nat.pos_of_ne_zero drained)
      have paid : (heap.dropHead.redistribute next).potential +
          heap.dropHead.buckets[next].length ≤ distance heap.peek heap.dropHead.contents :=
        potential_redistribute headless isNext
      simp only [respread, pop]
      rw [if_neg first, if_neg first, if_neg drained, if_neg drained, found]
      dsimp only
      omega
  · have more : heap.dropHead.buckets[0] ≠ [] := gone
    simp only [respread, pop]
    rw [if_pos more, if_pos more, potential, peek_dropHead valid gone, List.length_nil,
      Nat.zero_add]

/-- The number of values that an operation moves from one bucket to another. -/
def moved (transition : Transition RadixHeap (MinQueue.Op UInt64)) : ℕ :=
  match transition.label with
  | .push _ => 0
  | .pop => transition.source.respread.length

/-- The number of the bucket that an operation puts a new value into. -/
def enteredAt (transition : Transition RadixHeap (MinQueue.Op UInt64)) : ℕ :=
  match transition.label with
  | .push val => getBucketIndex transition.target.peek val
  | .pop => 0

/-- The number of values that are pushed. -/
def pushes (steps : List (Transition RadixHeap (MinQueue.Op UInt64))) : ℕ :=
  steps.countP fun transition =>
    match transition.label with
    | .push _ => true
    | .pop => false

theorem sum_enteredAt_le (steps : List (Transition RadixHeap (MinQueue.Op UInt64))) :
    (steps.map enteredAt).sum ≤ 64 * pushes steps := by
  induction steps with
  | nil => exact Nat.zero_le _
  | cons transition steps induction =>
      obtain ⟨before, op, after⟩ := transition
      rw [List.map_cons, List.sum_cons, pushes, List.countP_cons]
      change _ ≤ 64 * (pushes steps + _)
      cases op with
      | push val =>
          have bound : enteredAt ⟨before, .push val, after⟩ ≤ 64 :=
            Nat.lt_succ_iff.mp (getBucketIndex after.peek val).isLt
          rw [if_pos rfl]
          omega
      | pop =>
          have nothing : enteredAt ⟨before, .pop, after⟩ = 0 := rfl
          rw [if_neg Bool.false_ne_true, nothing]
          omega

theorem Valid.pays {op : MinQueue.Op UInt64} (valid : heap.Valid) (step : Step heap op final) :
    moved ⟨heap, op, final⟩ + final.potential ≤ heap.potential + enteredAt ⟨heap, op, final⟩ := by
  cases step with
  | push val =>
      rw [potential_push valid]
      exact (Nat.zero_add _).le
  | pop nonempty => exact potential_pop valid nonempty

/-- Over any operations, also with values below the head, all pops together move values at most as
often as the numbers of the buckets that the values entered add up to, and so at most 64 times for
each push. -/
theorem moved_le_pushes {steps : List (Transition RadixHeap (MinQueue.Op UInt64))}
    (path : StepPath Step new steps final) :
    (steps.map moved).sum + final.potential ≤ (steps.map enteredAt).sum ∧
      (steps.map moved).sum ≤ 64 * pushes steps := by
  obtain ⟨-, around⟩ := path.invariant valid_new fun transition member valid =>
    valid.step (path.step_of_mem member)
  have total := path.amortized potential moved enteredAt ?_
  · have empty : new.potential = 0 := by rw [potential, contents_new, distance_zero]
    rw [empty, Nat.zero_add] at total
    exact ⟨total, (Nat.le_add_right _ _).trans (total.trans (sum_enteredAt_le steps))⟩
  · exact fun transition member => (around transition member).1.pays (path.step_of_mem member)

/-- Four values are pushed, one of them below the head, and the head is popped twice: the first pop
moves one value, and the second one two. -/
theorem moved_le_pushes_below :
    ∃ steps final, StepPath Step new steps final ∧ (steps.map moved).sum = 3 ∧
      (steps.map moved).sum + final.potential ≤ (steps.map enteredAt).sum ∧
      (steps.map moved).sum ≤ 64 * pushes steps := by
  obtain ⟨steps, final, path, three⟩ : ∃ steps final, StepPath Step new steps final ∧
      (steps.map moved).sum = 3 := by
    have pushed := StepPath.snoc (.snoc (.snoc (.snoc .nil (Step.push new 5)) (Step.push _ 12))
      (Step.push _ 3)) (Step.push _ 14)
    have path := (pushed.snoc (Step.pop (by decide))).snoc (Step.pop (by decide))
    exact ⟨_, _, path, by decide⟩
  exact ⟨steps, final, path, three, moved_le_pushes path⟩

end RadixHeap

end Simo
