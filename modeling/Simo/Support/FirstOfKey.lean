import Mathlib.Data.List.Perm.Basic
import Mathlib.Data.Option.Basic

/-!
# The first item of each key

Going through a list, one can keep every item whose key has not been taken before.  What is kept is
a sublist with one item for each key, the first one that there is.  The order of the list and how
often a key is in it decide which items these are, but not which keys.
-/

namespace FirstOfKey

variable {ι κ β : Type*} [DecidableEq κ]

/-- The items whose key is not taken, neither at first nor by an item before. -/
def firsts (key : ι → κ) : (κ → Bool) → List ι → List ι
  | _, [] => []
  | taken, item :: items =>
      if taken (key item) then firsts key taken items
      else item :: firsts key (fun other => taken other || key item = other) items

variable {key : ι → κ} {taken : κ → Bool} {items others : List ι} {item : ι}

theorem firsts_append (key : ι → κ) (taken : κ → Bool) (items others : List ι) :
    firsts key taken (items ++ others) = firsts key taken items ++
      firsts key (fun other => taken other || other ∈ items.map key) others := by
  induction items generalizing taken with
  | nil => simp [firsts]
  | cons item items induction =>
      rw [List.cons_append, firsts, firsts]
      split
      next used =>
        rw [induction]
        congr 2
        funext other
        by_cases same : other = key item
        · simp [same, used]
        · simp [same]
      next =>
        rw [induction, List.cons_append]
        congr 3
        funext other
        simp [Bool.or_assoc, eq_comm]

theorem firsts_sublist (key : ι → κ) (taken : κ → Bool) (items : List ι) :
    (firsts key taken items).Sublist items := by
  induction items generalizing taken with
  | nil => exact List.Sublist.refl _
  | cons item items induction =>
      rw [firsts]
      split
      next => exact (induction taken).cons _
      next => exact (induction _).cons_cons _

/-- The keys of what is kept are those in the list that are not taken at first. -/
theorem mem_map_firsts {name : κ} :
    name ∈ (firsts key taken items).map key ↔ taken name = false ∧ name ∈ items.map key := by
  induction items generalizing taken with
  | nil => simp [firsts]
  | cons item items induction =>
      rw [firsts, List.map_cons, List.mem_cons]
      split
      next used =>
        rw [induction]
        refine and_congr_right fun free => (or_iff_right ?_).symm
        rintro rfl
        rw [used] at free
        cases free
      next free =>
        rw [List.map_cons, List.mem_cons, induction]
        by_cases same : name = key item
        · simp [same, Bool.not_eq_true _ ▸ free]
        · simp [same, Ne.symm same]

theorem nodup_map_firsts (key : ι → κ) (taken : κ → Bool) (items : List ι) :
    ((firsts key taken items).map key).Nodup := by
  induction items generalizing taken with
  | nil => exact List.nodup_nil
  | cons item items induction =>
      rw [firsts]
      split
      next => exact induction taken
      next =>
        rw [List.map_cons, List.nodup_cons]
        refine ⟨fun again => ?_, induction _⟩
        simpa using (mem_map_firsts.mp again).1

/-- Nothing before an item that is kept has its key. -/
theorem exists_of_mem_firsts (member : item ∈ firsts key taken items) :
    ∃ earlier later, items = earlier ++ item :: later ∧
      ∀ other ∈ earlier, key other ≠ key item := by
  induction items generalizing taken with
  | nil => exact (List.not_mem_nil member).elim
  | cons first items induction =>
      rw [firsts] at member
      split at member
      next used =>
        obtain ⟨earlier, later, rfl, before⟩ := induction member
        refine ⟨first :: earlier, later, rfl, List.forall_mem_cons.mpr ⟨fun same => ?_, before⟩⟩
        have free := (mem_map_firsts.mp (List.mem_map_of_mem member)).1
        rw [← same, used] at free
        cases free
      next =>
        rcases List.mem_cons.mp member with rfl | member
        · exact ⟨[], items, rfl, by simp⟩
        · obtain ⟨earlier, later, rfl, before⟩ := induction member
          refine ⟨first :: earlier, later, rfl, List.forall_mem_cons.mpr ⟨fun same => ?_, before⟩⟩
          have free := (mem_map_firsts.mp (List.mem_map_of_mem member)).1
          simp [same] at free

/-- Lists with the same keys give the same keys. -/
theorem map_firsts_perm (key : ι → κ) (taken : κ → Bool)
    (same : ∀ name, taken name = false → (name ∈ items.map key ↔ name ∈ others.map key)) :
    ((firsts key taken items).map key).Perm ((firsts key taken others).map key) := by
  refine (List.perm_ext_iff_of_nodup (nodup_map_firsts ..) (nodup_map_firsts ..)).mpr fun name => ?_
  rw [mem_map_firsts, mem_map_firsts]
  exact and_congr_right (same name)

/-- What the keys decide does not depend on the list either. -/
theorem map_firsts_perm_of_key (key : ι → κ) (taken : κ → Bool)
    (same : ∀ name, taken name = false → (name ∈ items.map key ↔ name ∈ others.map key))
    {image : ι → β} {value : κ → β}
    (decides : ∀ item ∈ items ++ others, image item = value (key item)) :
    ((firsts key taken items).map image).Perm ((firsts key taken others).map image) := by
  have through {list : List ι} (inside : ∀ item ∈ list, item ∈ items ++ others) :
      list.map image = (list.map key).map value := by
    rw [List.map_map]
    exact List.map_congr_left fun item member => decides item (inside item member)
  rw [through fun item member => List.mem_append_left _ ((firsts_sublist ..).mem member),
    through fun item member => List.mem_append_right _ ((firsts_sublist ..).mem member)]
  exact (map_firsts_perm key taken same).map value

end FirstOfKey
