import Mathlib.Algebra.Order.Group.Multiset
import Mathlib.Tactic.Abel
import Simo.Support.BitDistance
import Simo.Support.MinQueue

/-!
# The radix heap of pending ticks

The heap spreads 64-bit values over 65 buckets.  A value's bucket is the number of low bits that it
does not share with the head of the heap, and each bucket but the first caches its minimum.  The
representation invariant `Valid` survives pushes of any value; pushes that stay at or above the
head keep in addition `Ordered`, which makes the heap a min-priority queue.
-/

namespace Simo

/-- Bits of a stored value. -/
abbrev numBits : ℕ := 64

/-- One bucket for each possible bit length, zero included. -/
abbrev numBuckets : ℕ := numBits + 1

/-- The value that the cache of an empty bucket holds. -/
abbrev maxValue : UInt64 := 0xffffffffffffffff

theorem le_maxValue (val : UInt64) : val ≤ maxValue := by
  have := val.toNat_lt
  rw [UInt64.le_iff_toNat_le]
  change val.toNat ≤ 18446744073709551615
  omega

/-- Number of leading zero bits of a word, 64 for zero. -/
def countlZero (word : UInt64) : ℕ := word.toBitVec.clz.toNat

/-- Buckets of values, cached bucket minima, and the number of stored values. -/
structure RadixHeap where
  /-- The stored values, by bucket. -/
  buckets : Vector (List UInt64) numBuckets
  /-- Cached minimum of each bucket; the first entry is never read. -/
  bucketMins : Vector UInt64 numBuckets
  /-- Number of stored values. -/
  sizeVal : ℕ
deriving DecidableEq

namespace RadixHeap

/-- The empty heap. -/
def new : RadixHeap where
  buckets := Vector.replicate numBuckets []
  bucketMins := Vector.replicate numBuckets maxValue
  sizeVal := 0

/-- Bucket of `val` when the head of the heap is `minVal`. -/
def getBucketIndex (minVal val : UInt64) : Fin numBuckets :=
  let xorOp := val ^^^ minVal
  let leadingZeroes := countlZero xorOp
  ⟨numBits - leadingZeroes, Nat.lt_succ_of_le (Nat.sub_le _ _)⟩

/-- Append `val` to the bucket it has relative to `minVal` and refresh that bucket's cache. -/
def place (minVal : UInt64) (heap : RadixHeap) (val : UInt64) : RadixHeap :=
  let bucketIdx := getBucketIndex minVal val
  { heap with
    buckets := heap.buckets.set bucketIdx (heap.buckets[bucketIdx] ++ [val])
    bucketMins := heap.bucketMins.set bucketIdx (min heap.bucketMins[bucketIdx] val) }

/-- First value of the first bucket.  The source reads it of non-empty heaps only. -/
def peek (heap : RadixHeap) : UInt64 := heap.buckets[0].headD 0

def push (heap : RadixHeap) (val : UInt64) : RadixHeap :=
  let heap := { heap with sizeVal := heap.sizeVal + 1 }
  if heap.sizeVal = 1 then
    { heap with buckets := heap.buckets.set 0 (heap.buckets[0] ++ [val]) }
  else
    heap.place heap.peek val

/-- First bucket after the head's that holds a value. -/
def nonEmptyBucket (heap : RadixHeap) : Option (Fin numBuckets) :=
  (List.finRange numBuckets).find? fun bucketIdx =>
    bucketIdx ≠ 0 ∧ heap.buckets[bucketIdx] ≠ []

/-- Spread the values of one bucket relative to its own minimum, then empty it. -/
def redistribute (heap : RadixHeap) (bucketIdx : Fin numBuckets) : RadixHeap :=
  let minVal := heap.bucketMins[bucketIdx]
  let spread := heap.buckets[bucketIdx].foldl (place minVal) heap
  { spread with
    buckets := spread.buckets.set bucketIdx []
    bucketMins := spread.bucketMins.set bucketIdx maxValue }

/-- Take one copy of the head off the first bucket. -/
def dropHead (heap : RadixHeap) : RadixHeap :=
  { heap with
    buckets := heap.buckets.set 0 heap.buckets[0].dropLast
    sizeVal := heap.sizeVal - 1 }

def pop (heap : RadixHeap) : RadixHeap :=
  let heap := heap.dropHead
  if heap.buckets[0] ≠ [] then heap
  else if heap.sizeVal = 0 then heap
  else
    match heap.nonEmptyBucket with
    | some bucketIdx => heap.redistribute bucketIdx
    -- `valid_pop` shows that the search for a bucket to spread never ends here.
    | none => heap

/-- The values that `pop` appends to another bucket. -/
def respread (heap : RadixHeap) : List UInt64 :=
  let heap := heap.dropHead
  if heap.buckets[0] ≠ [] then []
  else if heap.sizeVal = 0 then []
  else
    match heap.nonEmptyBucket with
    | some bucketIdx => heap.buckets[bucketIdx]
    | none => []

def empty (heap : RadixHeap) : Bool := heap.sizeVal == 0

def size (heap : RadixHeap) : ℕ := heap.sizeVal

/-- All stored values. -/
def contents (heap : RadixHeap) : Multiset UInt64 :=
  (heap.buckets.toList.flatten : Multiset UInt64)

/-! ## Bucket numbers -/

/-- The bucket number is the bit distance from the head. -/
theorem getBucketIndex_val (minVal val : UInt64) :
    (getBucketIndex minVal val).val = Nat.bitDistance minVal.toNat val.toNat := by
  rw [Nat.bitDistance_comm, Nat.bitDistance, ← UInt64.toNat_xor, UInt64.size_toNat]
  rfl

@[simp]
theorem getBucketIndex_eq_zero {minVal val : UInt64} :
    getBucketIndex minVal val = 0 ↔ minVal = val := by
  rw [← Fin.val_inj, getBucketIndex_val, Fin.val_zero, Nat.bitDistance_eq_zero,
    UInt64.toNat_inj]

/-- Two values of one bucket other than the head's are closer to each other than to the head. -/
theorem getBucketIndex_lt {head first second : UInt64}
    (same : getBucketIndex head first = getBucketIndex head second)
    (other : getBucketIndex head first ≠ 0) :
    getBucketIndex first second < getBucketIndex head first := by
  rw [Fin.lt_def, getBucketIndex_val, getBucketIndex_val]
  apply Nat.bitDistance_lt_of_eq
  · rw [← getBucketIndex_val, ← getBucketIndex_val, same]
  · rw [← getBucketIndex_val]
    exact Nat.pos_of_ne_zero fun zero => other (Fin.val_inj.mp zero)

/-- Values beyond the new head's bucket keep their bucket number. -/
theorem getBucketIndex_eq_of_lt {head next val : UInt64}
    (beyond : getBucketIndex head next < getBucketIndex head val) :
    getBucketIndex next val = getBucketIndex head val := by
  rw [Fin.lt_def, getBucketIndex_val, getBucketIndex_val] at beyond
  rw [← Fin.val_inj, getBucketIndex_val, getBucketIndex_val]
  exact Nat.bitDistance_eq_of_lt beyond

/-- Above the head, a lower bucket number means a smaller value. -/
theorem lt_of_getBucketIndex_lt {head next val : UInt64} (above : head ≤ val)
    (beyond : getBucketIndex head next < getBucketIndex head val) : next < val := by
  rw [Fin.lt_def, getBucketIndex_val, getBucketIndex_val] at beyond
  exact UInt64.lt_iff_toNat_lt.mpr
    (Nat.lt_of_bitDistance_lt (UInt64.le_iff_toNat_le.mp above) beyond)

/-! ## One bucket at a time -/

theorem vector_getElem_set {α : Type*} {n : ℕ} (xs : Vector α n) (i j : Fin n) (x : α) :
    (xs.set i x)[j] = if i = j then x else xs[j] := by
  simp [Vector.getElem_set, Fin.ext_iff]

theorem mem_contents {heap : RadixHeap} {val : UInt64} :
    val ∈ heap.contents ↔ ∃ bucketIdx : Fin numBuckets, val ∈ heap.buckets[bucketIdx] := by
  simp only [contents, Multiset.mem_coe, List.mem_flatten, Vector.mem_toList_iff,
    Vector.mem_iff_getElem]
  constructor
  · rintro ⟨bucket, ⟨i, bound, rfl⟩, member⟩
    exact ⟨⟨i, bound⟩, member⟩
  · rintro ⟨bucketIdx, member⟩
    exact ⟨_, ⟨bucketIdx, bucketIdx.isLt, rfl⟩, member⟩

/-- Replacing one bucket exchanges its old values for the new ones. -/
theorem contents_set (heap : RadixHeap) (bucketIdx : Fin numBuckets) (bucket : List UInt64)
    (bucketMins : Vector UInt64 numBuckets) (sizeVal : ℕ) :
    (RadixHeap.mk (heap.buckets.set bucketIdx bucket) bucketMins sizeVal).contents +
        (heap.buckets[bucketIdx] : Multiset UInt64) =
      heap.contents + (bucket : Multiset UInt64) := by
  have bound : bucketIdx.val < heap.buckets.toList.length := by
    rw [Vector.length_toList]
    exact bucketIdx.isLt
  have split : heap.buckets.toList =
      heap.buckets.toList.take bucketIdx ++
        heap.buckets[bucketIdx] :: heap.buckets.toList.drop (bucketIdx + 1) := by
    have := List.take_append_drop bucketIdx heap.buckets.toList
    rw [List.drop_eq_getElem_cons bound] at this
    simpa using this.symm
  rw [contents, contents, Vector.toList_set, List.set_eq_take_append_cons_drop, if_pos bound]
  conv_rhs => rw [split]
  simp only [List.flatten_append, List.flatten_cons, ← Multiset.coe_add]
  abel

theorem contents_place (minVal : UInt64) (heap : RadixHeap) (val : UInt64) :
    (heap.place minVal val).contents = val ::ₘ heap.contents := by
  have exchange := contents_set heap (getBucketIndex minVal val)
    (heap.buckets[getBucketIndex minVal val] ++ [val])
    (heap.place minVal val).bucketMins heap.sizeVal
  rw [← Multiset.coe_add, add_comm (heap.buckets[getBucketIndex minVal val] : Multiset UInt64),
    ← add_assoc] at exchange
  rw [← Multiset.singleton_add, add_comm]
  exact add_right_cancel exchange

/-- Spreading a list appends to every bucket the values that belong there. -/
theorem buckets_foldl_place (minVal : UInt64) (vals : List UInt64) (heap : RadixHeap)
    (bucketIdx : Fin numBuckets) :
    (vals.foldl (place minVal) heap).buckets[bucketIdx] =
      heap.buckets[bucketIdx] ++ vals.filter (getBucketIndex minVal · = bucketIdx) := by
  induction vals generalizing heap with
  | nil => simp
  | cons val vals induction =>
      rw [List.foldl_cons, induction, place, vector_getElem_set]
      split
      next same =>
        subst same
        simp
      next other => simp [other]

theorem bucketMins_foldl_place (minVal : UInt64) (vals : List UInt64) (heap : RadixHeap)
    (bucketIdx : Fin numBuckets) :
    (vals.foldl (place minVal) heap).bucketMins[bucketIdx] =
      (vals.filter (getBucketIndex minVal · = bucketIdx)).foldl min heap.bucketMins[bucketIdx] := by
  induction vals generalizing heap with
  | nil => simp
  | cons val vals induction =>
      rw [List.foldl_cons, induction, place, vector_getElem_set]
      split
      next same =>
        subst same
        simp
      next other => simp [other]

theorem contents_foldl_place (minVal : UInt64) (vals : List UInt64) (heap : RadixHeap) :
    (vals.foldl (place minVal) heap).contents = heap.contents + (vals : Multiset UInt64) := by
  induction vals generalizing heap with
  | nil => simp
  | cons val vals induction =>
      rw [List.foldl_cons, induction, contents_place, ← Multiset.cons_coe, Multiset.cons_add,
        Multiset.add_cons]

@[simp]
theorem sizeVal_foldl_place (minVal : UInt64) (vals : List UInt64) (heap : RadixHeap) :
    (vals.foldl (place minVal) heap).sizeVal = heap.sizeVal := by
  induction vals generalizing heap with
  | nil => rfl
  | cons val vals induction => exact induction _

/-- The cached minimum, as the source folds it, is attained and bounds the bucket. -/
theorem foldl_min_spec (vals : List UInt64) (nonempty : vals ≠ []) :
    vals.foldl min maxValue ∈ vals ∧ ∀ val ∈ vals, vals.foldl min maxValue ≤ val := by
  induction vals using List.reverseRecOn with
  | nil => exact (nonempty rfl).elim
  | append_singleton vals last induction =>
      rw [List.foldl_append]
      simp only [List.foldl_cons, List.foldl_nil, List.mem_append, List.mem_singleton]
      by_cases initial : vals = []
      · subst initial
        have : min maxValue last = last := min_eq_right (le_maxValue last)
        simp [this]
      · obtain ⟨attained, bound⟩ := induction initial
        constructor
        · rcases min_choice (vals.foldl min maxValue) last with earlier | latest
          · exact .inl (by rwa [earlier])
          · exact .inr latest
        · rintro val (earlier | rfl)
          · exact (min_le_left _ _).trans (bound val earlier)
          · exact min_le_right _ _

/-! ## The representation invariant -/

/-- What every sequence of pushes and pops maintains, whatever values are pushed. -/
structure Valid (heap : RadixHeap) : Prop where
  /-- The counter counts the stored values. -/
  size : heap.sizeVal = heap.contents.card
  /-- A heap that stores anything has a head. -/
  head : 0 < heap.sizeVal → heap.buckets[(0 : Fin numBuckets)] ≠ []
  /-- Every value is in its bucket relative to the head. -/
  bucket : ∀ bucketIdx : Fin numBuckets, ∀ val ∈ heap.buckets[bucketIdx],
    getBucketIndex heap.peek val = bucketIdx
  /-- Every cache but the first is the minimum of its bucket. -/
  mins : ∀ bucketIdx : Fin numBuckets, bucketIdx ≠ 0 →
    heap.bucketMins[bucketIdx] = heap.buckets[bucketIdx].foldl min maxValue

/-- No stored value is below the head. -/
def Ordered (heap : RadixHeap) : Prop := ∀ val ∈ heap.contents, heap.peek ≤ val

theorem empty_iff {heap : RadixHeap} (valid : heap.Valid) :
    heap.empty = true ↔ heap.contents = 0 := by
  rw [empty, beq_iff_eq, valid.size, Multiset.card_eq_zero]

theorem peek_eq_of_mem {heap : RadixHeap} (valid : heap.Valid) {val : UInt64}
    (member : val ∈ heap.buckets[(0 : Fin numBuckets)]) : heap.peek = val :=
  getBucketIndex_eq_zero.mp (valid.bucket 0 val member)

theorem peek_mem_head {heap : RadixHeap}
    (nonempty : heap.buckets[(0 : Fin numBuckets)] ≠ []) :
    heap.peek ∈ heap.buckets[(0 : Fin numBuckets)] := by
  obtain ⟨first, rest, bucket⟩ := List.exists_cons_of_ne_nil nonempty
  have : heap.peek = first := by
    change heap.buckets[(0 : Fin numBuckets)].headD 0 = first
    rw [bucket]
    rfl
  rw [this, bucket]
  exact List.mem_cons_self

theorem peek_mem {heap : RadixHeap} (valid : heap.Valid) (nonempty : heap.empty = false) :
    heap.peek ∈ heap.contents :=
  mem_contents.mpr
    ⟨0, peek_mem_head (valid.head (by simpa [empty, Nat.pos_iff_ne_zero] using nonempty))⟩

theorem buckets_new (bucketIdx : Fin numBuckets) : new.buckets[bucketIdx] = [] := by
  simp [new]

@[simp]
theorem contents_new : new.contents = 0 := by
  rw [Multiset.eq_zero_iff_forall_notMem]
  intro val member
  obtain ⟨bucketIdx, member⟩ := mem_contents.mp member
  rw [buckets_new] at member
  exact List.not_mem_nil member

theorem valid_new : new.Valid where
  size := by rw [contents_new, Multiset.card_zero]; rfl
  head := by simp [new]
  bucket bucketIdx val member := by
    rw [buckets_new] at member
    exact (List.not_mem_nil member).elim
  mins bucketIdx _ := by simp [new]

theorem ordered_new : new.Ordered := by simp [Ordered]

/-! ## Pushing -/

theorem push_of_empty {heap : RadixHeap} (val : UInt64) (vacant : heap.sizeVal = 0) :
    heap.push val =
      { heap with buckets := heap.buckets.set 0 (heap.buckets[0] ++ [val]), sizeVal := 1 } := by
  simp [push, vacant]

theorem push_of_nonempty {heap : RadixHeap} (val : UInt64) (occupied : 0 < heap.sizeVal) :
    heap.push val = place heap.peek { heap with sizeVal := heap.sizeVal + 1 } val := by
  simp only [push]
  rw [if_neg (by omega)]
  rfl

@[simp]
theorem sizeVal_push (heap : RadixHeap) (val : UInt64) :
    (heap.push val).sizeVal = heap.sizeVal + 1 := by
  rcases Nat.eq_zero_or_pos heap.sizeVal with vacant | occupied
  · rw [push_of_empty val vacant, vacant]
  · rw [push_of_nonempty val occupied]
    rfl

@[simp]
theorem empty_push (heap : RadixHeap) (val : UInt64) : (heap.push val).empty = false := by
  simp [empty]

@[simp]
theorem contents_push (heap : RadixHeap) (val : UInt64) :
    (heap.push val).contents = val ::ₘ heap.contents := by
  rcases Nat.eq_zero_or_pos heap.sizeVal with vacant | occupied
  · rw [push_of_empty val vacant]
    have exchange := contents_set heap 0 (heap.buckets[(0 : Fin numBuckets)] ++ [val])
      heap.bucketMins 1
    rw [← Multiset.coe_add, add_comm (heap.buckets[(0 : Fin numBuckets)] : Multiset UInt64),
      ← add_assoc] at exchange
    rw [← Multiset.singleton_add, add_comm]
    exact add_right_cancel exchange
  · rw [push_of_nonempty val occupied, contents_place]
    rfl

theorem buckets_eq_nil {heap : RadixHeap} (valid : heap.Valid) (vacant : heap.sizeVal = 0)
    (bucketIdx : Fin numBuckets) : heap.buckets[bucketIdx] = [] := by
  have noContents : heap.contents = 0 := by rwa [valid.size, Multiset.card_eq_zero] at vacant
  rw [List.eq_nil_iff_forall_not_mem]
  intro val member
  have := mem_contents.mpr ⟨bucketIdx, member⟩
  simp [noContents] at this

theorem buckets_push_of_empty {heap : RadixHeap} (valid : heap.Valid) (vacant : heap.sizeVal = 0)
    (val : UInt64) (bucketIdx : Fin numBuckets) :
    (heap.push val).buckets[bucketIdx] = if bucketIdx = 0 then [val] else [] := by
  rw [push_of_empty val vacant]
  change (heap.buckets.set (0 : Fin numBuckets)
    (heap.buckets[(0 : Fin numBuckets)] ++ [val]))[bucketIdx] = _
  rw [vector_getElem_set, buckets_eq_nil valid vacant, buckets_eq_nil valid vacant]
  simp [eq_comm]

theorem buckets_push_of_nonempty {heap : RadixHeap} (occupied : 0 < heap.sizeVal) (val : UInt64)
    (bucketIdx : Fin numBuckets) :
    (heap.push val).buckets[bucketIdx] =
      heap.buckets[bucketIdx] ++ [val].filter (getBucketIndex heap.peek · = bucketIdx) := by
  rw [push_of_nonempty val occupied]
  exact buckets_foldl_place heap.peek [val] _ bucketIdx

theorem peek_push_of_empty {heap : RadixHeap} (valid : heap.Valid) (vacant : heap.sizeVal = 0)
    (val : UInt64) : (heap.push val).peek = val := by
  have first := buckets_push_of_empty valid vacant val 0
  rw [if_pos rfl] at first
  change (heap.push val).buckets[(0 : Fin numBuckets)].headD 0 = val
  rw [first]
  rfl

/-- A push on a non-empty heap leaves the head where it is, whatever is pushed. -/
theorem peek_push_of_nonempty {heap : RadixHeap} (valid : heap.Valid) (occupied : 0 < heap.sizeVal)
    (val : UInt64) : (heap.push val).peek = heap.peek := by
  have first := buckets_push_of_nonempty occupied val 0
  obtain ⟨head, rest, bucket⟩ := List.exists_cons_of_ne_nil (valid.head occupied)
  change (heap.push val).buckets[(0 : Fin numBuckets)].headD 0 =
    heap.buckets[(0 : Fin numBuckets)].headD 0
  rw [first, bucket]
  rfl

theorem valid_push {heap : RadixHeap} (valid : heap.Valid) (val : UInt64) :
    (heap.push val).Valid := by
  have size : (heap.push val).sizeVal = (heap.push val).contents.card := by
    rw [sizeVal_push, contents_push, Multiset.card_cons, valid.size]
  rcases Nat.eq_zero_or_pos heap.sizeVal with vacant | occupied
  · have bucket := buckets_push_of_empty valid vacant val
    refine ⟨size, fun _ => by simp [bucket], fun bucketIdx member stored => ?_, ?_⟩
    · rw [bucket] at stored
      rw [peek_push_of_empty valid vacant]
      split at stored
      next first =>
        rw [List.mem_singleton.mp stored, first]
        exact getBucketIndex_eq_zero.mpr rfl
      next => exact (List.not_mem_nil stored).elim
    · intro bucketIdx other
      rw [bucket, if_neg other]
      have cache := valid.mins bucketIdx other
      rw [buckets_eq_nil valid vacant] at cache
      rw [push_of_empty val vacant]
      exact cache
  · have bucket := buckets_push_of_nonempty occupied val
    refine ⟨size, fun _ => ?_, fun bucketIdx member stored => ?_, fun bucketIdx other => ?_⟩
    · rw [bucket]
      exact List.append_ne_nil_of_left_ne_nil (valid.head occupied) _
    · rw [peek_push_of_nonempty valid occupied]
      rw [bucket, List.mem_append, List.mem_filter] at stored
      rcases stored with old | ⟨_, here⟩
      · exact valid.bucket bucketIdx member old
      · exact of_decide_eq_true here
    · rw [bucket, List.foldl_append, ← valid.mins bucketIdx other, push_of_nonempty val occupied]
      exact bucketMins_foldl_place heap.peek [val] _ bucketIdx

theorem ordered_push {heap : RadixHeap} (valid : heap.Valid) (ordered : heap.Ordered)
    {val : UInt64} (above : heap.empty = true ∨ heap.peek ≤ val) : (heap.push val).Ordered := by
  intro other member
  rw [contents_push, Multiset.mem_cons] at member
  rcases Nat.eq_zero_or_pos heap.sizeVal with vacant | occupied
  · rw [peek_push_of_empty valid vacant]
    rcases member with rfl | stored
    · exact le_rfl
    · have : heap.contents = 0 := by rwa [valid.size, Multiset.card_eq_zero] at vacant
      simp [this] at stored
  · rw [peek_push_of_nonempty valid occupied]
    rcases member with rfl | stored
    · rcases above with nothing | above
      · simp [empty] at nothing
        omega
      · exact above
    · exact ordered other stored

/-! ## Popping -/

/-- A heap whose first bucket has just been emptied: all but the head is as in a valid heap. -/
structure Headless (head : UInt64) (heap : RadixHeap) : Prop where
  /-- The counter counts the stored values. -/
  size : heap.sizeVal = heap.contents.card
  /-- The head is gone. -/
  first : heap.buckets[(0 : Fin numBuckets)] = []
  /-- Every value is in its bucket relative to the old head. -/
  bucket : ∀ bucketIdx : Fin numBuckets, ∀ val ∈ heap.buckets[bucketIdx],
    getBucketIndex head val = bucketIdx
  /-- Every cache but the first is the minimum of its bucket. -/
  mins : ∀ bucketIdx : Fin numBuckets, bucketIdx ≠ 0 →
    heap.bucketMins[bucketIdx] = heap.buckets[bucketIdx].foldl min maxValue

/-- `next` is the lowest bucket that holds a value. -/
structure IsNext (heap : RadixHeap) (next : Fin numBuckets) : Prop where
  other : next ≠ 0
  nonempty : heap.buckets[next] ≠ []
  lower : ∀ bucketIdx < next, heap.buckets[bucketIdx] = []

section Redistribute

variable {head : UInt64} {heap : RadixHeap} {next : Fin numBuckets}

theorem nextMin_spec (headless : Headless head heap) (isNext : heap.IsNext next) :
    heap.bucketMins[next] ∈ heap.buckets[next] ∧
      ∀ val ∈ heap.buckets[next], heap.bucketMins[next] ≤ val := by
  rw [headless.mins next isNext.other]
  exact foldl_min_spec _ isNext.nonempty

/-- Redistribution only moves values to strictly lower buckets. -/
theorem getBucketIndex_nextMin_lt (headless : Headless head heap) (isNext : heap.IsNext next)
    {val : UInt64} (member : val ∈ heap.buckets[next]) :
    getBucketIndex heap.bucketMins[next] val < next := by
  have least := headless.bucket next _ (nextMin_spec headless isNext).1
  have here := headless.bucket next val member
  have closer := getBucketIndex_lt (least.trans here.symm) (by rw [least]; exact isNext.other)
  rwa [least] at closer

theorem buckets_redistribute (headless : Headless head heap) (isNext : heap.IsNext next)
    (bucketIdx : Fin numBuckets) :
    (heap.redistribute next).buckets[bucketIdx] =
      if bucketIdx < next then
        heap.buckets[next].filter (getBucketIndex heap.bucketMins[next] · = bucketIdx)
      else if bucketIdx = next then []
      else heap.buckets[bucketIdx] := by
  rw [redistribute, vector_getElem_set]
  split
  next same => simp [same]
  next other =>
    rw [buckets_foldl_place, if_neg (fun same : bucketIdx = next => other same.symm)]
    split
    next below => rw [isNext.lower bucketIdx below, List.nil_append]
    next above =>
      rw [List.filter_eq_nil_iff.mpr, List.append_nil]
      intro val member here
      exact above (of_decide_eq_true here ▸ getBucketIndex_nextMin_lt headless isNext member)

theorem contents_redistribute (headless : Headless head heap) (isNext : heap.IsNext next) :
    (heap.redistribute next).contents = heap.contents := by
  have unchanged : (heap.buckets[next].foldl (place heap.bucketMins[next]) heap).buckets[next] =
      heap.buckets[next] := by
    rw [buckets_foldl_place, List.filter_eq_nil_iff.mpr, List.append_nil]
    intro val member here
    exact (getBucketIndex_nextMin_lt headless isNext member).ne (of_decide_eq_true here)
  have spread := contents_foldl_place heap.bucketMins[next] heap.buckets[next] heap
  rw [redistribute]
  generalize heap.buckets[next].foldl (place heap.bucketMins[next]) heap = after at *
  have exchange := contents_set after next [] (after.bucketMins.set next maxValue) after.sizeVal
  rw [unchanged, spread, Multiset.coe_nil, add_zero] at exchange
  exact add_right_cancel exchange

theorem peek_redistribute (headless : Headless head heap) (isNext : heap.IsNext next) :
    (heap.redistribute next).peek = heap.bucketMins[next] := by
  have first := buckets_redistribute headless isNext 0
  rw [if_pos (Fin.pos_iff_ne_zero.mpr isNext.other)] at first
  have nonempty : (heap.redistribute next).buckets[(0 : Fin numBuckets)] ≠ [] := by
    rw [first]
    refine List.ne_nil_of_mem (List.mem_filter.mpr ⟨(nextMin_spec headless isNext).1, ?_⟩)
    exact decide_eq_true (getBucketIndex_eq_zero.mpr rfl)
  have member := peek_mem_head nonempty
  rw [first, List.mem_filter] at member
  exact (getBucketIndex_eq_zero.mp (of_decide_eq_true member.2)).symm

theorem valid_redistribute (headless : Headless head heap) (isNext : heap.IsNext next) :
    (heap.redistribute next).Valid := by
  have bucket := buckets_redistribute headless isNext
  have least := headless.bucket next _ (nextMin_spec headless isNext).1
  refine ⟨?_, fun _ => ?_, fun bucketIdx val stored => ?_, fun bucketIdx other => ?_⟩
  · rw [contents_redistribute headless isNext, ← headless.size]
    exact sizeVal_foldl_place _ _ _
  · rw [bucket, if_pos (Fin.pos_iff_ne_zero.mpr isNext.other)]
    refine List.ne_nil_of_mem (List.mem_filter.mpr ⟨(nextMin_spec headless isNext).1, ?_⟩)
    exact decide_eq_true (getBucketIndex_eq_zero.mpr rfl)
  · rw [peek_redistribute headless isNext]
    rw [bucket] at stored
    split at stored
    next => exact of_decide_eq_true (List.mem_filter.mp stored).2
    next above =>
      split at stored
      next => exact (List.not_mem_nil stored).elim
      next apart =>
        have here := headless.bucket bucketIdx val stored
        rw [← here]
        apply getBucketIndex_eq_of_lt
        rw [least, here]
        exact lt_of_le_of_ne (not_lt.mp above) (Ne.symm apart)
  · rw [bucket, redistribute, vector_getElem_set]
    split
    next same => simp [same]
    next apart =>
      rw [bucketMins_foldl_place]
      split
      next below =>
        rw [headless.mins bucketIdx other, isNext.lower bucketIdx below]
        rfl
      next above =>
        rw [if_neg (fun same : bucketIdx = next => apart same.symm), List.filter_eq_nil_iff.mpr]
        · exact headless.mins bucketIdx other
        · intro val member here
          exact above (of_decide_eq_true here ▸ getBucketIndex_nextMin_lt headless isNext member)

end Redistribute

section Pop

variable {heap : RadixHeap}

theorem buckets_dropHead (heap : RadixHeap) (bucketIdx : Fin numBuckets) :
    heap.dropHead.buckets[bucketIdx] =
      if bucketIdx = 0 then heap.buckets[(0 : Fin numBuckets)].dropLast
      else heap.buckets[bucketIdx] := by
  change (heap.buckets.set (0 : Fin numBuckets)
    heap.buckets[(0 : Fin numBuckets)].dropLast)[bucketIdx] = _
  rw [vector_getElem_set]
  simp only [eq_comm]

theorem mem_of_mem_dropHead {bucketIdx : Fin numBuckets} {val : UInt64}
    (member : val ∈ heap.dropHead.buckets[bucketIdx]) : val ∈ heap.buckets[bucketIdx] := by
  rw [buckets_dropHead] at member
  split at member
  next first => exact first ▸ List.mem_of_mem_dropLast member
  next => exact member

/-- The copy that `pop` takes off is a copy of the value that `peek` returns. -/
theorem contents_dropHead (valid : heap.Valid) (occupied : 0 < heap.sizeVal) :
    heap.contents = heap.peek ::ₘ heap.dropHead.contents := by
  have nonempty := valid.head occupied
  have last : heap.buckets[(0 : Fin numBuckets)].dropLast ++ [heap.peek] =
      heap.buckets[(0 : Fin numBuckets)] := by
    rw [peek_eq_of_mem valid (List.getLast_mem nonempty)]
    exact List.dropLast_append_getLast nonempty
  have exchange : heap.dropHead.contents + (heap.buckets[(0 : Fin numBuckets)] : Multiset UInt64) =
      heap.contents + (heap.buckets[(0 : Fin numBuckets)].dropLast : Multiset UInt64) :=
    contents_set heap 0 heap.buckets[(0 : Fin numBuckets)].dropLast heap.bucketMins
      (heap.sizeVal - 1)
  have split : (heap.buckets[(0 : Fin numBuckets)] : Multiset UInt64) =
      {heap.peek} + (heap.buckets[(0 : Fin numBuckets)].dropLast : Multiset UInt64) := by
    rw [add_comm, ← Multiset.coe_singleton, Multiset.coe_add, last]
  rw [split, ← add_assoc] at exchange
  rw [← add_right_cancel exchange, add_comm, Multiset.singleton_add]

theorem size_dropHead (valid : heap.Valid) (occupied : 0 < heap.sizeVal) :
    heap.dropHead.sizeVal = heap.dropHead.contents.card := by
  have count := valid.size
  rw [contents_dropHead valid occupied, Multiset.card_cons] at count
  change heap.sizeVal - 1 = _
  omega

theorem headless_dropHead (valid : heap.Valid) (occupied : 0 < heap.sizeVal)
    (gone : heap.dropHead.buckets[(0 : Fin numBuckets)] = []) :
    Headless heap.peek heap.dropHead where
  size := size_dropHead valid occupied
  first := gone
  bucket bucketIdx val member := valid.bucket bucketIdx val (mem_of_mem_dropHead member)
  mins bucketIdx other := by
    rw [buckets_dropHead, if_neg other]
    exact valid.mins bucketIdx other

/-- The search for a bucket to redistribute finds the lowest one whenever a value is left. -/
theorem exists_isNext {head : UInt64} (headless : Headless head heap)
    (occupied : 0 < heap.sizeVal) :
    ∃ next, heap.nonEmptyBucket = some next ∧ heap.IsNext next := by
  obtain ⟨val, stored⟩ := Multiset.card_pos_iff_exists_mem.mp (headless.size ▸ occupied)
  obtain ⟨bucketIdx, member⟩ := mem_contents.mp stored
  have holds : bucketIdx ≠ 0 ∧ heap.buckets[bucketIdx] ≠ [] := by
    refine ⟨?_, List.ne_nil_of_mem member⟩
    rintro rfl
    rw [headless.first] at member
    exact List.not_mem_nil member
  cases found : heap.nonEmptyBucket with
  | none =>
      have missed := List.find?_eq_none.mp found bucketIdx (List.mem_finRange _)
      exact (missed (decide_eq_true holds)).elim
  | some next =>
      obtain ⟨satisfied, front, back, split, skipped⟩ := List.find?_eq_some_iff_append.mp found
      have here := of_decide_eq_true satisfied
      refine ⟨next, rfl, here.1, here.2, fun lower below => ?_⟩
      by_contra filled
      have position : lower ∈ front := by
        have listed := List.mem_finRange lower
        have sorted := List.pairwise_lt_finRange numBuckets
        rw [split] at listed sorted
        rcases List.mem_append.mp listed with early | late
        · exact early
        · rcases List.mem_cons.mp late with rfl | late
          · exact (lt_irrefl _ below).elim
          · have := List.rel_of_pairwise_cons (List.pairwise_append.mp sorted).2.1 late
            exact (lt_asymm below this).elim
      have skip := skipped lower position
      rw [Bool.not_eq_true', decide_eq_false_iff_not] at skip
      refine skip ⟨?_, filled⟩
      rintro rfl
      exact filled headless.first

/-- What one `pop` can do. -/
theorem pop_cases (valid : heap.Valid) (occupied : 0 < heap.sizeVal) :
    (heap.dropHead.buckets[(0 : Fin numBuckets)] ≠ [] ∧ heap.pop = heap.dropHead) ∨
      (heap.dropHead.contents = 0 ∧ heap.pop = heap.dropHead) ∨
      ∃ next, Headless heap.peek heap.dropHead ∧ heap.dropHead.IsNext next ∧
        heap.pop = heap.dropHead.redistribute next := by
  by_cases gone : heap.dropHead.buckets[(0 : Fin numBuckets)] = []
  · right
    have headless := headless_dropHead valid occupied gone
    have first : ¬ heap.dropHead.buckets[0] ≠ [] := not_not.mpr gone
    by_cases drained : heap.dropHead.sizeVal = 0
    · left
      refine ⟨?_, ?_⟩
      · rwa [headless.size, Multiset.card_eq_zero] at drained
      · simp only [pop]
        rw [if_neg first, if_pos drained]
    · right
      obtain ⟨next, found, isNext⟩ := exists_isNext headless (Nat.pos_of_ne_zero drained)
      refine ⟨next, headless, isNext, ?_⟩
      simp only [pop]
      rw [if_neg first, if_neg drained, found]
  · left
    refine ⟨gone, ?_⟩
    simp only [pop]
    exact if_pos gone

/-- `pop` removes exactly one copy of the value that `peek` returns. -/
theorem contents_pop (valid : heap.Valid) (nonempty : heap.empty = false) :
    heap.contents = heap.peek ::ₘ heap.pop.contents := by
  have occupied : 0 < heap.sizeVal := by simpa [empty, Nat.pos_iff_ne_zero] using nonempty
  rw [contents_dropHead valid occupied]
  rcases pop_cases valid occupied with ⟨_, pop⟩ | ⟨_, pop⟩ | ⟨next, headless, isNext, pop⟩
  · rw [pop]
  · rw [pop]
  · rw [pop, contents_redistribute headless isNext]

theorem peek_dropHead (valid : heap.Valid)
    (more : heap.dropHead.buckets[(0 : Fin numBuckets)] ≠ []) :
    heap.dropHead.peek = heap.peek :=
  (peek_eq_of_mem valid (mem_of_mem_dropHead (peek_mem_head more))).symm

theorem valid_pop (valid : heap.Valid) (nonempty : heap.empty = false) : heap.pop.Valid := by
  have occupied : 0 < heap.sizeVal := by simpa [empty, Nat.pos_iff_ne_zero] using nonempty
  have mins : ∀ bucketIdx : Fin numBuckets, bucketIdx ≠ 0 →
      heap.dropHead.bucketMins[bucketIdx] =
        heap.dropHead.buckets[bucketIdx].foldl min maxValue := by
    intro bucketIdx other
    rw [buckets_dropHead, if_neg other]
    exact valid.mins bucketIdx other
  rcases pop_cases valid occupied with ⟨more, pop⟩ | ⟨drained, pop⟩ | ⟨next, headless, isNext, pop⟩
  · rw [pop]
    refine ⟨size_dropHead valid occupied, fun _ => more, fun bucketIdx val member => ?_, mins⟩
    rw [peek_dropHead valid more]
    exact valid.bucket bucketIdx val (mem_of_mem_dropHead member)
  · rw [pop]
    have nothing : heap.dropHead.sizeVal = 0 := by
      rw [size_dropHead valid occupied, drained, Multiset.card_zero]
    refine ⟨size_dropHead valid occupied, fun left => by omega, fun bucketIdx val member => ?_,
      mins⟩
    have := mem_contents.mpr ⟨bucketIdx, member⟩
    simp [drained] at this
  · rw [pop]
    exact valid_redistribute headless isNext

/-- `pop` keeps the head least: the next bucket holds the least of the remaining values. -/
theorem ordered_pop (valid : heap.Valid) (ordered : heap.Ordered) (nonempty : heap.empty = false) :
    heap.pop.Ordered := by
  have occupied : 0 < heap.sizeVal := by simpa [empty, Nat.pos_iff_ne_zero] using nonempty
  have remaining : ∀ val ∈ heap.dropHead.contents, heap.peek ≤ val := fun val member =>
    ordered val (contents_dropHead valid occupied ▸ Multiset.mem_cons_of_mem member)
  rcases pop_cases valid occupied with ⟨more, pop⟩ | ⟨drained, pop⟩ | ⟨next, headless, isNext, pop⟩
  · rw [pop, Ordered, peek_dropHead valid more]
    exact remaining
  · rw [pop, Ordered, drained]
    simp
  · rw [pop, Ordered, contents_redistribute headless isNext, peek_redistribute headless isNext]
    intro val member
    obtain ⟨attained, least⟩ := nextMin_spec headless isNext
    obtain ⟨bucketIdx, stored⟩ := mem_contents.mp member
    have here := headless.bucket bucketIdx val stored
    rcases lt_trichotomy bucketIdx next with below | rfl | above
    · rw [isNext.lower bucketIdx below] at stored
      exact (List.not_mem_nil stored).elim
    · exact least val stored
    · refine (lt_of_getBucketIndex_lt (remaining val member) ?_).le
      rwa [headless.bucket next _ attained, here]

end Pop

/-! ## The heap as a priority queue -/

/-- Perform one operation. -/
def perform (heap : RadixHeap) : MinQueue.Op UInt64 → RadixHeap
  | .push val => heap.push val
  | .pop => heap.pop

/-- What a caller that only moves forward may do: push at or above the head of a non-empty heap,
and pop a non-empty heap. -/
def Permits (heap : RadixHeap) : MinQueue.Op UInt64 → Prop
  | .push val => heap.empty = true ∨ heap.peek ≤ val
  | .pop => heap.empty = false

/-- Heaps reached from the empty one by permitted operations. -/
inductive Reached : List (MinQueue.Op UInt64) → RadixHeap → Prop
  | new : Reached [] new
  | perform {ops : List (MinQueue.Op UInt64)} {heap : RadixHeap} (op : MinQueue.Op UInt64) :
      Reached ops heap → heap.Permits op → Reached (ops ++ [op]) (heap.perform op)

theorem Reached.invariant {ops : List (MinQueue.Op UInt64)} {heap : RadixHeap}
    (reached : Reached ops heap) : heap.Valid ∧ heap.Ordered := by
  induction reached with
  | new => exact ⟨valid_new, ordered_new⟩
  | perform op _ permitted induction =>
      cases op with
      | push val =>
          exact ⟨valid_push induction.1 val, ordered_push induction.1 induction.2 permitted⟩
      | pop =>
          exact ⟨valid_pop induction.1 permitted, ordered_pop induction.1 induction.2 permitted⟩

theorem isMin_peek {heap : RadixHeap} (valid : heap.Valid) (ordered : heap.Ordered)
    (nonempty : heap.empty = false) : MinQueue.IsMin heap.contents heap.peek :=
  ⟨peek_mem valid nonempty, ordered⟩

/-- The stored values are those of the specification queue after the same operations. -/
theorem Reached.run {ops : List (MinQueue.Op UInt64)} {heap : RadixHeap}
    (reached : Reached ops heap) : MinQueue.Run ops heap.contents := by
  induction reached with
  | new => exact contents_new ▸ .nil
  | @perform ops heap op earlier permitted induction =>
      obtain ⟨valid, ordered⟩ := earlier.invariant
      cases op with
      | push val => exact contents_push heap val ▸ .push val induction
      | pop =>
          have removed : heap.pop.contents = heap.contents.erase heap.peek := by
            rw [contents_pop valid permitted, Multiset.erase_cons_head]
          exact removed ▸ .pop induction (isMin_peek valid ordered permitted)

/-- The radix heap is a monotone min-priority queue over all 64-bit values: after any permitted
operations its observations are those of the multiset of pushed values minus popped ones. -/
theorem monotone_min_queue {ops : List (MinQueue.Op UInt64)} {heap : RadixHeap}
    (reached : Reached ops heap) :
    ∃ queue : Multiset UInt64, MinQueue.Run ops queue ∧
      heap.size = queue.card ∧ (heap.empty = true ↔ queue = 0) ∧
      (queue ≠ 0 → MinQueue.IsMin queue heap.peek ∧ heap.pop.contents = queue.erase heap.peek) ∧
      heap.contents = queue := by
  obtain ⟨valid, ordered⟩ := reached.invariant
  refine ⟨heap.contents, reached.run, valid.size, empty_iff valid, fun nonempty => ?_, rfl⟩
  have notEmpty : heap.empty = false := by
    rw [← Bool.not_eq_true, empty_iff valid]
    exact nonempty
  refine ⟨isMin_peek valid ordered notEmpty, ?_⟩
  rw [contents_pop valid notEmpty, Multiset.erase_cons_head]

/-- The extreme values pushed, and the head popped. -/
theorem monotone_min_queue_extremes :
    ∃ queue : Multiset UInt64, MinQueue.Run [.push 0, .push maxValue, .pop] queue ∧
      ((new.push 0).push maxValue).pop.size = queue.card ∧
      (((new.push 0).push maxValue).pop.empty = true ↔ queue = 0) ∧
      (queue ≠ 0 → MinQueue.IsMin queue ((new.push 0).push maxValue).pop.peek ∧
        ((new.push 0).push maxValue).pop.pop.contents =
          queue.erase ((new.push 0).push maxValue).pop.peek) ∧
      ((new.push 0).push maxValue).pop.contents = queue :=
  monotone_min_queue
    (.perform .pop (.perform (.push maxValue) (.perform (.push 0) .new (.inl (by decide)))
      (.inr (by decide))) (by decide : ((new.push 0).push maxValue).empty = false))

end RadixHeap
end Simo
