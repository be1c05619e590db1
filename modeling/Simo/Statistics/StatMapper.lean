import Mathlib.Algebra.BigOperators.Group.List.Basic
import Mathlib.Algebra.Ring.Int.Defs
import Mathlib.Logic.Function.Basic

/-!
# Counts and mappers of statistics

A module owns its statistics; they are only ever added, so that a module and a position in its
storage are the address of a statistic for good.  A `StatMapper` keeps a copy next to the address of
each statistic it has been given, and takes the difference of the two.  Counts do not overflow here.
-/

namespace Simo.Statistics

/-! ## Counts -/

structure Count where
  name_ : List Char
  val : ℤ
deriving DecidableEq

/-- What a count is dumped as. -/
structure CountRepresentation where
  name : List Char
  type : String
  value : ℤ
deriving DecidableEq

namespace Count

variable (count other : Count) (delta : ℤ)

def addAssign : Count := { count with val := count.val + delta }

def subAssign : Count := { count with val := count.val - delta }

def preIncrement : Count := { count with val := count.val + 1 }

/-- The old value, and what is left. -/
def postIncrement : Count × Count := (count, { count with val := count.val + 1 })

def preDecrement : Count := { count with val := count.val - 1 }

def postDecrement : Count × Count := (count, { count with val := count.val - 1 })

def computeDelta : Count := ⟨count.name_, count.val - other.val⟩

def assignFrom (_ other : Count) : Count := ⟨other.name_, other.val⟩

def clone : Count := ⟨count.name_, count.val⟩

def dumpRepresentation : CountRepresentation := ⟨count.name_, "count", count.val⟩

end Count

/-- The operators that change a count. -/
inductive CountOperation where
  | addAssign (delta : ℤ)
  | subAssign (delta : ℤ)
  | preIncrement
  | postIncrement
  | preDecrement
  | postDecrement
deriving DecidableEq

namespace CountOperation

def perform (count : Count) : CountOperation → Count
  | addAssign delta => count.addAssign delta
  | subAssign delta => count.subAssign delta
  | preIncrement => count.preIncrement
  | postIncrement => count.postIncrement.2
  | preDecrement => count.preDecrement
  | postDecrement => count.postDecrement.2

/-- What an operator adds. -/
def amount : CountOperation → ℤ
  | addAssign delta => delta
  | subAssign delta => -delta
  | preIncrement | postIncrement => 1
  | preDecrement | postDecrement => -1

theorem perform_eq (count : Count) (operation : CountOperation) :
    operation.perform count = { count with val := count.val + operation.amount } := by
  cases operation <;> rfl

end CountOperation

/-! ## The statistics of modules -/

variable {ModuleRef : Type*}

/-- The address of a statistic: its module and its position in the storage. -/
structure StatisticRef (ModuleRef : Type*) where
  module : ModuleRef
  index : ℕ
deriving DecidableEq

/-- The statistic at an address. -/
def deref (statistics : ModuleRef → List Count) (ref : StatisticRef ModuleRef) : Option Count :=
  (statistics ref.module)[ref.index]?

/-- What code can do to statistics. -/
inductive StatUpdate (ModuleRef : Type*) where
  /-- `StatStorage::emplace` of a count. -/
  | emplace (module : ModuleRef) (count : Count)
  | perform (ref : StatisticRef ModuleRef) (operation : CountOperation)

namespace StatUpdate

variable [DecidableEq ModuleRef]

def apply (statistics : ModuleRef → List Count) : StatUpdate ModuleRef → ModuleRef → List Count
  | emplace module count =>
      Function.update statistics module (statistics module ++ [count])
  | perform ref operation =>
      Function.update statistics ref.module
        ((statistics ref.module).modify ref.index operation.perform)

/-- What an update adds to a statistic. -/
def amount (ref : StatisticRef ModuleRef) : StatUpdate ModuleRef → ℤ
  | emplace _ _ => 0
  | perform other operation => if other = ref then operation.amount else 0

/-- A statistic stays where it is and changes by what the update adds to it. -/
theorem deref_apply {statistics : ModuleRef → List Count} {ref : StatisticRef ModuleRef}
    {count : Count} (present : deref statistics ref = some count)
    (update : StatUpdate ModuleRef) :
    deref (update.apply statistics) ref =
      some { count with val := count.val + update.amount ref } := by
  obtain ⟨module, index⟩ := ref
  cases update with
  | emplace target new =>
      rw [deref, apply, amount, add_zero, ← present, deref]
      by_cases here : module = target
      · subst here
        dsimp only
        rw [Function.update_self]
        exact List.getElem?_append_left (List.getElem?_eq_some_iff.mp present).1
      · dsimp only
        rw [Function.update_of_ne here]
  | perform target operation =>
      obtain ⟨targetModule, targetIndex⟩ := target
      rw [deref] at present ⊢
      rw [apply, amount]
      dsimp only at present ⊢
      by_cases here : module = targetModule
      · subst here
        rw [Function.update_self, List.getElem?_modify, present]
        by_cases same : targetIndex = index
        · subst same
          simp [CountOperation.perform_eq]
        · simp [same]
      · rw [Function.update_of_ne here, present,
          if_neg fun same => here (congrArg StatisticRef.module same).symm]
        simp

/-- The same for a list of updates. -/
theorem deref_foldl_apply {statistics : ModuleRef → List Count} {ref : StatisticRef ModuleRef}
    {count : Count} (present : deref statistics ref = some count)
    (updates : List (StatUpdate ModuleRef)) :
    deref (updates.foldl apply statistics) ref =
      some { count with val := count.val + (updates.map (amount ref)).sum } := by
  induction updates generalizing statistics count with
  | nil => rw [List.foldl_nil, present, List.map_nil, List.sum_nil, add_zero]
  | cons update updates induction =>
      rw [List.foldl_cons, induction (deref_apply present update), List.map_cons, List.sum_cons,
        add_assoc]

end StatUpdate

/-! ## Mappers -/

/-- Copies of statistics, each with the address of the original. -/
structure StatMapper (ModuleRef : Type*) where
  storage : List (Count × StatisticRef ModuleRef)

namespace StatMapper

variable (mapper : StatMapper ModuleRef) (statistics : ModuleRef → List Count)

def new : StatMapper ModuleRef := ⟨[]⟩

def add (stat : Count) (ref : StatisticRef ModuleRef) : StatMapper ModuleRef :=
  ⟨mapper.storage ++ [(stat.clone, ref)]⟩

theorem storage_add (stat : Count) (ref : StatisticRef ModuleRef) :
    (mapper.add stat ref).storage = mapper.storage ++ [(stat, ref)] := rfl

/-- Copy every statistic.  An address without a statistic does not occur. -/
def assign : StatMapper ModuleRef :=
  ⟨mapper.storage.map fun (fst, snd) =>
    (((deref statistics snd).map fst.assignFrom).getD fst, snd)⟩

def computeDiff : List Count :=
  mapper.storage.filterMap fun (fst, snd) =>
    (deref statistics snd).map fun stat => stat.computeDelta fst

end StatMapper

/-- `Module::record_statistics`. -/
def recordStatistics (statistics : ModuleRef → List Count) (module : ModuleRef)
    (mapper : StatMapper ModuleRef) : StatMapper ModuleRef :=
  (statistics module).zipIdx.foldl
    (fun mapper (stat, index) => mapper.add stat ⟨module, index⟩) mapper

structure ModuleStatMapper (ModuleRef : Type*) where
  module : ModuleRef
  statMapper : StatMapper ModuleRef

namespace ModuleStatMapper

variable (statistics : ModuleRef → List Count)

/-- The constructor. -/
def new (module : ModuleRef) : ModuleStatMapper ModuleRef :=
  ⟨module, recordStatistics statistics module .new⟩

variable (mapper : ModuleStatMapper ModuleRef)

def assign : ModuleStatMapper ModuleRef :=
  { mapper with statMapper := mapper.statMapper.assign statistics }

def computeDiff (name : ModuleRef → List Char) : List Count :=
  (mapper.statMapper.computeDiff statistics).map fun stat =>
    { stat with name_ := name mapper.module ++ '/' :: stat.name_ }

/-- A mapper of the statistics that a module held when it was made, with some copies of them. -/
def tracking (held : ModuleRef → List Count) (copy : StatisticRef ModuleRef → Count)
    (module : ModuleRef) : ModuleStatMapper ModuleRef :=
  ⟨module, ⟨(held module).zipIdx.map fun entry =>
    (copy ⟨module, entry.2⟩, ⟨module, entry.2⟩)⟩⟩

theorem recordStatistics_storage (module : ModuleRef) (mapper : StatMapper ModuleRef) :
    (recordStatistics statistics module mapper).storage =
      mapper.storage ++ (statistics module).zipIdx.map fun entry =>
        (entry.1, ⟨module, entry.2⟩) := by
  rw [recordStatistics]
  induction (statistics module).zipIdx generalizing mapper with
  | nil => rw [List.foldl_nil, List.map_nil, List.append_nil]
  | cons entry entries induction =>
      rw [List.foldl_cons, induction, StatMapper.storage_add, List.append_assoc]
      rfl

/-- A new mapper holds copies of the statistics as they are. -/
theorem new_eq_tracking (module : ModuleRef) :
    new statistics module =
      tracking statistics (fun ref => (deref statistics ref).getD ⟨[], 0⟩) module := by
  rw [new, tracking]
  congr 1
  apply congrArg StatMapper.mk
  refine (recordStatistics_storage statistics module .new).trans ?_
  rw [StatMapper.new, List.nil_append]
  refine List.map_congr_left fun entry member => ?_
  have present : (statistics module)[entry.2]? = some entry.1 :=
    List.mem_zipIdx_iff_getElem?.mp member
  rw [deref]
  dsimp only
  rw [present, Option.getD_some]

/-- Assigning renews the copies. -/
theorem assign_tracking (held : ModuleRef → List Count) (copy : StatisticRef ModuleRef → Count)
    (module : ModuleRef) :
    (tracking held copy module).assign statistics =
      tracking held (fun ref => (deref statistics ref).getD (copy ref)) module := by
  rw [assign, tracking, tracking, StatMapper.assign]
  dsimp only
  rw [List.map_map]
  congr 2
  refine List.map_congr_left fun entry _ => ?_
  dsimp only [Function.comp_apply]
  cases deref statistics ⟨module, entry.2⟩ <;> rfl

/-- The difference is what the statistics have gained since they were copied. -/
theorem computeDiff_tracking {held : ModuleRef → List Count}
    {copy : StatisticRef ModuleRef → Count} {module : ModuleRef}
    {gained : StatisticRef ModuleRef → ℤ} (name : ModuleRef → List Char)
    (since : ∀ index count, (held module)[index]? = some count →
      deref statistics ⟨module, index⟩ =
        some ⟨count.name_, (copy ⟨module, index⟩).val + gained ⟨module, index⟩⟩) :
    (tracking held copy module).computeDiff statistics name =
      (held module).zipIdx.map fun entry =>
        ⟨name module ++ '/' :: entry.1.name_, gained ⟨module, entry.2⟩⟩ := by
  rw [computeDiff, tracking, StatMapper.computeDiff]
  dsimp only
  rw [List.filterMap_map]
  have each : ∀ entry ∈ (held module).zipIdx,
      (deref statistics ⟨module, entry.2⟩).map
          (fun stat => stat.computeDelta (copy ⟨module, entry.2⟩)) =
        some ⟨entry.1.name_, gained ⟨module, entry.2⟩⟩ := by
    intro entry member
    rw [since entry.2 entry.1 (List.mem_zipIdx_iff_getElem?.mp member), Option.map_some,
      Count.computeDelta, add_sub_cancel_left]
  have gains := List.filterMap_congr each
  rw [List.filterMap_eq_map'] at gains
  refine (congrArg (List.map _) gains).trans ?_
  rw [List.map_map]
  rfl

end ModuleStatMapper

end Simo.Statistics
