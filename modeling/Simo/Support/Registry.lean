import Mathlib.Data.List.AList
import Mathlib.Data.List.Perm.Basic

/-!
# Registries

Items are entered into a map one after the other, each under its key.  An item whose key is taken is
reported and leaves the map as it is.
-/

/-- What has been entered, and the keys of the items that have been refused. -/
structure Registry (κ β : Type*) where
  map : AList fun _ : κ => β
  duplicates : List κ

namespace Registry

variable {ι κ β : Type*} [DecidableEq κ]

def empty : Registry κ β := ⟨∅, []⟩

/-- Enter an item.  Its value can depend on what has been entered before. -/
def register (key : ι → κ) (value : AList (fun _ : κ => β) → ι → β) (registry : Registry κ β)
    (item : ι) : Registry κ β :=
  if key item ∈ registry.map then
    { registry with duplicates := registry.duplicates ++ [key item] }
  else { registry with map := registry.map.insert (key item) (value registry.map item) }

variable {key : ι → κ} {registry : Registry κ β} {items : List ι}

/-- The keys of the items are different from each other and from those in the registry. -/
structure Fresh (key : ι → κ) (registry : Registry κ β) (items : List ι) : Prop where
  distinct : (items.map key).Nodup
  unused : ∀ item ∈ items, key item ∉ registry.map

theorem fresh_cons_iff (value : AList (fun _ : κ => β) → ι → β) {item : ι} :
    Fresh key registry (item :: items) ↔
      key item ∉ registry.map ∧ Fresh key (registry.register key value item) items := by
  rw [register]
  constructor
  · rintro ⟨distinct, unused⟩
    obtain ⟨apart, distinct⟩ := List.nodup_cons.mp distinct
    obtain ⟨here, unused⟩ := List.forall_mem_cons.mp unused
    refine ⟨here, distinct, fun other member => ?_⟩
    rw [if_neg here, AList.mem_insert, not_or]
    exact ⟨fun same => apart (same ▸ List.mem_map_of_mem member), unused other member⟩
  · rintro ⟨here, distinct, unused⟩
    simp only [if_neg here, AList.mem_insert, not_or] at unused
    refine ⟨List.nodup_cons.mpr ⟨fun member => ?_, distinct⟩, List.forall_mem_cons.mpr
      ⟨here, fun other member => (unused other member).2⟩⟩
    obtain ⟨other, inItems, same⟩ := List.mem_map.mp member
    exact (unused other inItems).1 same

omit [DecidableEq κ] in
theorem notMem_empty (name : κ) : name ∉ (empty : Registry κ β).map := AList.notMem_empty name

omit [DecidableEq κ] in
theorem fresh_empty_iff : Fresh key (empty : Registry κ β) items ↔ (items.map key).Nodup :=
  ⟨Fresh.distinct, fun distinct => ⟨distinct, fun item _ => notMem_empty (key item)⟩⟩

variable {value : AList (fun _ : κ => β) → ι → β}

/-- Nothing is reported if and only if the keys are fresh. -/
theorem duplicates_foldl_eq_nil_iff :
    (items.foldl (register key value) registry).duplicates = [] ↔
      registry.duplicates = [] ∧ Fresh key registry items := by
  induction items generalizing registry with
  | nil => exact (and_iff_left ⟨List.nodup_nil, by simp⟩).symm
  | cons item items induction =>
      rw [List.foldl_cons, induction, fresh_cons_iff value]
      by_cases taken : key item ∈ registry.map
      · simp [register, taken]
      · simp [register, taken]

theorem mem_foldl_iff {name : κ} :
    name ∈ (items.foldl (register key value) registry).map ↔
      name ∈ registry.map ∨ name ∈ items.map key := by
  induction items generalizing registry with
  | nil => simp
  | cons item items induction =>
      rw [List.foldl_cons, induction, List.map_cons, List.mem_cons, register]
      split
      next taken =>
        constructor
        · exact Or.imp_right .inr
        · rintro (old | rfl | later)
          · exact .inl old
          · exact .inl taken
          · exact .inr later
      next =>
        rw [AList.mem_insert]
        tauto

/-- What has been entered stays. -/
theorem lookup_foldl_of_mem {name : κ} (entered : name ∈ registry.map) :
    (items.foldl (register key value) registry).map.lookup name = registry.map.lookup name := by
  induction items generalizing registry with
  | nil => rfl
  | cons item items induction =>
      rw [List.foldl_cons, register]
      split
      next => exact induction entered
      next free =>
        have apart : name ≠ key item := fun same => free (same ▸ entered)
        rw [induction ((AList.mem_insert _).mpr (.inr entered)), AList.lookup_insert_ne apart]

/-- Every item with a fresh key has its entry. -/
theorem exists_lookup_foldl (value : AList (fun _ : κ => β) → ι → β)
    (fresh : Fresh key registry items) {item : ι} (member : item ∈ items) :
    ∃ before, (items.foldl (register key value) registry).map.lookup (key item) =
      some (value before item) := by
  induction items generalizing registry with
  | nil => cases member
  | cons first items induction =>
      obtain ⟨free, later⟩ := (fresh_cons_iff value).mp fresh
      rcases List.mem_cons.mp member with rfl | member
      · refine ⟨registry.map, ?_⟩
        have entered : (registry.register key value item).map =
            registry.map.insert (key item) (value registry.map item) := by
          rw [register, if_neg free]
        rw [List.foldl_cons, lookup_foldl_of_mem (by rw [entered]; simp), entered,
          AList.lookup_insert]
      · exact induction later member

/-- There are no other entries. -/
theorem keys_foldl_perm (value : AList (fun _ : κ => β) → ι → β)
    (fresh : Fresh key registry items) :
    (items.foldl (register key value) registry).map.keys.Perm
      (items.map key ++ registry.map.keys) := by
  refine (List.perm_ext_iff_of_nodup (AList.keys_nodup _) ?_).mpr fun name => ?_
  · refine List.nodup_append'.mpr
      ⟨fresh.distinct, registry.map.keys_nodup, fun name member old => ?_⟩
    obtain ⟨item, inItems, rfl⟩ := List.mem_map.mp member
    exact fresh.unused item inItems (AList.mem_keys.mpr old)
  · rw [AList.mem_keys.symm, mem_foldl_iff, List.mem_append, or_comm]
    rfl

/-! ## The order of the items -/

/-- Every item is either refused or entered. -/
theorem count_duplicates_foldl (key : ι → κ) (value : AList (fun _ : κ => β) → ι → β)
    (registry : Registry κ β) (items : List ι) (name : κ) :
    (items.foldl (register key value) registry).duplicates.count name +
        (if name ∈ (items.foldl (register key value) registry).map then 1 else 0) =
      registry.duplicates.count name + (if name ∈ registry.map then 1 else 0) +
        (items.map key).count name := by
  induction items generalizing registry with
  | nil => rfl
  | cons item items induction =>
      rw [List.foldl_cons, induction, List.map_cons, List.count_cons, register]
      split
      next taken =>
        rw [List.count_append, List.count_singleton]
        dsimp only
        omega
      next free =>
        by_cases same : key item = name
        · subst same
          simp [free]
          omega
        · simp [same, Ne.symm same]

/-- The order of the items makes no difference to what is refused. -/
theorem duplicates_foldl_perm {others : List ι} (perm : items.Perm others) :
    (items.foldl (register key value) registry).duplicates.Perm
      (others.foldl (register key value) registry).duplicates := by
  refine List.perm_iff_count.mpr fun name => ?_
  have first := count_duplicates_foldl key value registry items name
  have second := count_duplicates_foldl key value registry others name
  rw [← (perm.map key).count_eq] at second
  simp only [mem_foldl_iff, (perm.map key).mem_iff] at first second
  omega

end Registry
