import Simo.Core.RadixHeap
import Simo.Support.Transition

/-!
# The representation of the heap along arbitrary operations

The heap is meant for values at or above its head.  Its representation needs no such condition: the
buckets, the cached minima and the counter agree after any pushes and pops, and what `pop` spreads
over the lower buckets never touches the bucket that it spreads.
-/

namespace Simo

namespace RadixHeap

/-- The operations that are possible: any value is pushed, and a value is popped if there is one. -/
inductive Step : RadixHeap → MinQueue.Op UInt64 → RadixHeap → Prop
  | push (heap : RadixHeap) (val : UInt64) : Step heap (.push val) (heap.push val)
  | pop {heap : RadixHeap} (nonempty : heap.empty = false) : Step heap .pop heap.pop

/-- The fields of the heap agree with each other. -/
structure Represented (heap : RadixHeap) : Prop where
  head : heap.buckets.get 0 ≠ [] ↔ 0 < heap.sizeVal
  equal : ∀ first ∈ heap.buckets.get 0, ∀ second ∈ heap.buckets.get 0, first = second
  bucket : ∀ bucketIdx, ∀ val ∈ heap.buckets.get bucketIdx,
    getBucketIndex heap.peek val = bucketIdx
  least : ∀ bucketIdx, bucketIdx ≠ 0 → heap.buckets.get bucketIdx ≠ [] →
    heap.bucketMins.get bucketIdx ∈ heap.buckets.get bucketIdx ∧
      ∀ val ∈ heap.buckets.get bucketIdx, heap.bucketMins.get bucketIdx ≤ val
  vacant : ∀ bucketIdx, bucketIdx ≠ 0 → heap.buckets.get bucketIdx = [] →
    heap.bucketMins.get bucketIdx = maxValue
  size : heap.sizeVal = (heap.buckets.toList.map List.length).sum

/-- `pop` looks for a bucket to spread: its head was the last of its value, and not the last
value. -/
structure Searches (heap : RadixHeap) : Prop where
  gone : heap.dropHead.buckets.get 0 = []
  left : heap.dropHead.sizeVal ≠ 0

/-- The search finds a bucket, its values go to lower buckets, and the bucket stays as it is until
all of them have been appended. -/
def SpreadsBelow (heap : RadixHeap) : Prop :=
  ∃ next, heap.nonEmptyBucket = some next ∧
    (∀ val ∈ heap.buckets.get next, getBucketIndex (heap.bucketMins.get next) val < next) ∧
    ∀ front, front <+: heap.buckets.get next →
      (front.foldl (place (heap.bucketMins.get next)) heap).buckets.get next =
        heap.buckets.get next

/-- An operation changes the stored values by its own value alone. -/
def Accounts (transition : Transition RadixHeap (MinQueue.Op UInt64)) : Prop :=
  match transition.label with
  | .push val => transition.target.contents = val ::ₘ transition.source.contents
  | .pop =>
      transition.source.contents = transition.source.peek ::ₘ transition.target.contents ∧
        (transition.source.Searches → transition.source.dropHead.SpreadsBelow)

variable {heap final : RadixHeap}

theorem Valid.cache (valid : heap.Valid) {bucketIdx : Fin numBuckets} (other : bucketIdx ≠ 0) :
    heap.bucketMins.get bucketIdx = (heap.buckets.get bucketIdx).foldl min maxValue :=
  valid.mins bucketIdx other

theorem Valid.represented (valid : heap.Valid) : heap.Represented where
  head := by
    refine ⟨fun nonempty => ?_, valid.head⟩
    by_contra vacant
    exact nonempty (buckets_eq_nil valid (Nat.eq_zero_of_not_pos vacant) 0)
  equal first member second member' :=
    (peek_eq_of_mem valid member).symm.trans (peek_eq_of_mem valid member')
  bucket := valid.bucket
  least bucketIdx other nonempty := by
    rw [valid.cache other]
    exact foldl_min_spec _ nonempty
  vacant bucketIdx other nothing := by
    rw [valid.cache other, nothing, List.foldl_nil]
  size := by rw [valid.size, contents, Multiset.coe_card, List.length_flatten]

/-- When `pop` searches, the bucket that it finds is spread over lower ones. -/
theorem spreadsBelow_dropHead (valid : heap.Valid) (occupied : 0 < heap.sizeVal)
    (searches : heap.Searches) : heap.dropHead.SpreadsBelow := by
  obtain ⟨gone, left⟩ := searches
  have headless := headless_dropHead valid occupied gone
  obtain ⟨next, found, isNext⟩ := exists_isNext headless (Nat.pos_of_ne_zero left)
  have below : ∀ val ∈ heap.dropHead.buckets.get next,
      getBucketIndex (heap.dropHead.bucketMins.get next) val < next :=
    fun val member => getBucketIndex_nextMin_lt headless isNext member
  refine ⟨next, found, below, fun front isPrefix => ?_⟩
  refine (buckets_foldl_place _ front heap.dropHead next).trans ?_
  rw [List.filter_eq_nil_iff.mpr, List.append_nil]
  · rfl
  · intro val member here
    exact (below val (isPrefix.subset member)).ne (of_decide_eq_true here)

theorem Valid.step {op : MinQueue.Op UInt64} (valid : heap.Valid) (step : Step heap op final) :
    final.Valid := by
  cases step with
  | push val => exact valid_push valid val
  | pop nonempty => exact valid_pop valid nonempty

theorem Valid.accounts {op : MinQueue.Op UInt64} (valid : heap.Valid) (step : Step heap op final) :
    Accounts ⟨heap, op, final⟩ := by
  cases step with
  | push val => exact contents_push heap val
  | pop nonempty =>
      have occupied : 0 < heap.sizeVal := by simpa [empty, Nat.pos_iff_ne_zero] using nonempty
      exact ⟨contents_pop valid nonempty, spreadsBelow_dropHead valid occupied⟩

/-- After every operation the representation is right, and every operation stores or removes what
it should, whatever values are pushed. -/
theorem represented_of_path {steps : List (Transition RadixHeap (MinQueue.Op UInt64))}
    (path : StepPath Step new steps final) :
    final.Represented ∧ ∀ transition ∈ steps,
      transition.source.Represented ∧ transition.target.Represented ∧ Accounts transition := by
  obtain ⟨valid, around⟩ := path.invariant valid_new fun transition member valid =>
    valid.step (path.step_of_mem member)
  refine ⟨valid.represented, fun transition member => ?_⟩
  obtain ⟨before, after⟩ := around transition member
  exact ⟨before.represented, after.represented, before.accounts (path.step_of_mem member)⟩

/-- A value below the head is pushed, and the head is popped. -/
theorem represented_of_path_below :
    ((new.push 5).push 3).pop.Represented ∧
      ∀ transition ∈ ([⟨new, .push 5, new.push 5⟩, ⟨new.push 5, .push 3, (new.push 5).push 3⟩,
          ⟨(new.push 5).push 3, .pop, ((new.push 5).push 3).pop⟩] :
            List (Transition RadixHeap (MinQueue.Op UInt64))),
        transition.source.Represented ∧ transition.target.Represented ∧ Accounts transition :=
  represented_of_path (.snoc (.snoc (.snoc .nil (.push _ _)) (.push _ _)) (.pop (by decide)))

end RadixHeap

end Simo
