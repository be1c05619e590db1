import Mathlib.Data.List.AList
import Mathlib.Data.List.Nodup
import Mathlib.Data.List.Perm.Basic
import Mathlib.Data.Prod.Basic

/-!
# Enumerations

A list enumerates a partial function if it has one member for each argument that the function is
defined at, and this member is the value there.  Lists that are put together from parts enumerate
functions that are put together in the same way.
-/

/-- The list has one member for each argument at which the function is defined: the value there. -/
def Enumerates {ι α : Type*} (f : ι → Option α) (list : List α) : Prop :=
  ∃ places : List ι, places.Nodup ∧ (∀ place, place ∈ places ↔ (f place).isSome = true) ∧
    places.map f = list.map some

namespace Enumerates

variable {ι κ α β : Type*} {f g : ι → Option α} {list other : List α}

/-- A function has one enumeration, up to the order. -/
theorem perm (enumerates : Enumerates f list) (also : Enumerates f other) : list.Perm other := by
  obtain ⟨places, distinct, complete, values⟩ := enumerates
  obtain ⟨places', distinct', complete', values'⟩ := also
  have samePlaces : places.Perm places' :=
    (List.perm_ext_iff_of_nodup distinct distinct').mpr fun place => by
      rw [complete, complete']
  have sameValues : (list.map some).Perm (other.map some) := by
    rw [← values, ← values']
    exact samePlaces.map f
  exact (List.map_perm_map_iff fun _ _ => Option.some.inj).mp sameValues

/-- The members of a list, by position. -/
theorem getElem? (list : List α) : Enumerates (fun index : ℕ => list[index]?) list := by
  refine ⟨List.range list.length, List.nodup_range, fun index => ?_, ?_⟩
  · simp [List.mem_range]
  · refine List.ext_getElem? fun index => ?_
    rw [List.getElem?_map, List.getElem?_map]
    by_cases inside : index < list.length
    · rw [List.getElem?_range inside, Option.map_some, List.getElem?_eq_getElem inside,
        Option.map_some]
    · rw [List.getElem?_eq_none (Nat.not_lt.mp inside),
        List.getElem?_eq_none (by rw [List.length_range]; exact Nat.not_lt.mp inside)]
      rfl

/-- The values of an association list, by key. -/
theorem lookup [DecidableEq ι] {β : ι → Type*} (entries : AList β) :
    Enumerates (fun key => (entries.lookup key).map (Sigma.mk key)) entries.entries := by
  refine ⟨entries.keys, entries.keys_nodup, fun key => ?_, ?_⟩
  · rw [Option.isSome_map, AList.lookup_isSome, AList.mem_keys]
  · rw [AList.keys, List.keys, List.map_map]
    refine List.map_congr_left fun entry member => ?_
    dsimp only [Function.comp_apply]
    rw [AList.mem_lookup_iff.mpr member]
    rfl

/-- The same list under other names. -/
theorem image {h : κ → Option α} (enumerates : Enumerates f list) (name : ι → κ)
    (injective : name.Injective) (same : ∀ place, h (name place) = f place)
    (nothing : ∀ place, (∀ source, name source ≠ place) → h place = none) : Enumerates h list := by
  obtain ⟨places, distinct, complete, values⟩ := enumerates
  refine ⟨places.map name, distinct.map injective, fun place => ?_, ?_⟩
  · by_cases named : ∃ source, name source = place
    · obtain ⟨source, rfl⟩ := named
      rw [same, ← complete, List.mem_map_of_injective injective]
    · rw [not_exists] at named
      rw [nothing place named]
      refine iff_of_false ?_ (by simp)
      intro member
      obtain ⟨source, -, here⟩ := List.mem_map.mp member
      exact named source here
  · rw [List.map_map, ← values]
    exact List.map_congr_left fun place _ => same place

theorem append (first : Enumerates f list) (second : Enumerates g other)
    (disjoint : ∀ place, f place = none ∨ g place = none) :
    Enumerates (fun place => (f place).or (g place)) (list ++ other) := by
  obtain ⟨places, distinct, complete, values⟩ := first
  obtain ⟨places', distinct', complete', values'⟩ := second
  refine ⟨places ++ places', List.nodup_append'.mpr ⟨distinct, distinct', ?_⟩, fun place => ?_, ?_⟩
  · intro place member member'
    rw [complete] at member
    rw [complete'] at member'
    rcases disjoint place with undefined | undefined
    · simp [undefined] at member
    · simp [undefined] at member'
  · rw [List.mem_append, complete, complete', Option.isSome_or, Bool.or_eq_true]
  · rw [List.map_append, List.map_append, ← values, ← values']
    congr 1
    · refine List.map_congr_left fun place member => ?_
      rw [complete] at member
      obtain ⟨value, found⟩ := Option.isSome_iff_exists.mp member
      rw [found, Option.some_or]
    · refine List.map_congr_left fun place member => ?_
      rw [complete'] at member
      have undefined : f place = none :=
        (disjoint place).resolve_right (Option.isSome_iff_ne_none.mp member)
      rw [undefined, Option.none_or]

/-- The members that have an image. -/
theorem filterMap (enumerates : Enumerates f list) (h : α → Option β) :
    Enumerates (fun place => (f place).bind h) (list.filterMap h) := by
  obtain ⟨places, distinct, complete, values⟩ := enumerates
  have images : (places.map fun place => (f place).bind h) = list.map h := by
    have bound := congrArg (List.map (Option.bind · h)) values
    rw [List.map_map, List.map_map] at bound
    exact bound
  refine ⟨places.filter fun place => ((f place).bind h).isSome, distinct.filter _, ?_, ?_⟩
  · intro place
    rw [List.mem_filter, complete, and_iff_right_iff_imp]
    exact Option.isSome_of_isSome_bind
  · rw [List.map_filterMap_some_eq_filter_map_isSome, ← images, List.filter_map]
    rfl

/-- The places of the parts of a list of lists, one outer place after the other. -/
theorem exists_places_flatMap {places : List ι} {list : List α} {g : α → κ → Option β}
    {h : α → List β} (distinct : places.Nodup) (values : places.map f = list.map some)
    (inner : ∀ value ∈ list, Enumerates (g value) (h value)) :
    ∃ all : List (ι × κ), all.Nodup ∧
      (∀ place, place ∈ all ↔
        place.1 ∈ places ∧ ((f place.1).bind (g · place.2)).isSome = true) ∧
      (all.map fun place => (f place.1).bind (g · place.2)) = (list.flatMap h).map some := by
  induction places generalizing list with
  | nil =>
      obtain rfl : list = [] := by simpa using values.symm
      exact ⟨[], List.nodup_nil, by simp, rfl⟩
  | cons place places induction =>
      obtain ⟨fresh, distinct⟩ := List.nodup_cons.mp distinct
      cases list with
      | nil => cases values
      | cons value list =>
          obtain ⟨found, values⟩ := List.cons.inj values
          obtain ⟨all, distinct', complete, rest⟩ :=
            induction distinct values fun value member => inner value (.tail _ member)
          obtain ⟨own, distinctOwn, completeOwn, ownValues⟩ := inner value List.mem_cons_self
          refine ⟨own.map (place, ·) ++ all, ?_, fun other => ?_, ?_⟩
          · refine List.nodup_append'.mpr ⟨distinctOwn.map (Prod.mk_right_injective place),
              distinct', fun other member member' => ?_⟩
            obtain ⟨inner, -, rfl⟩ := List.mem_map.mp member
            exact fresh ((complete _).mp member').1
          · rw [List.mem_append, complete, List.mem_cons]
            constructor
            · rintro (member | ⟨later, defined⟩)
              · obtain ⟨inner, inOwn, rfl⟩ := List.mem_map.mp member
                refine ⟨.inl rfl, ?_⟩
                rw [found]
                exact (completeOwn inner).mp inOwn
              · exact ⟨.inr later, defined⟩
            · rintro ⟨here | later, defined⟩
              · left
                obtain ⟨outer, inner⟩ := other
                obtain rfl : outer = place := here
                rw [found] at defined
                exact List.mem_map_of_mem ((completeOwn inner).mpr defined)
              · exact .inr ⟨later, defined⟩
          · rw [List.map_append, List.flatMap_cons, List.map_append, rest, ← ownValues,
              List.map_map]
            congr 1
            refine List.map_congr_left fun inner _ => ?_
            dsimp only [Function.comp_apply]
            rw [found, Option.bind_some]

/-- A list of lists: each member of the outer one has a list that belongs to it. -/
theorem flatMap {list : List α} {g : α → κ → Option β} {h : α → List β}
    (outer : Enumerates f list) (inner : ∀ value ∈ list, Enumerates (g value) (h value)) :
    Enumerates (fun place : ι × κ => (f place.1).bind (g · place.2)) (list.flatMap h) := by
  obtain ⟨places, distinct, complete, values⟩ := outer
  obtain ⟨all, distinct, here, values⟩ := exists_places_flatMap distinct values inner
  refine ⟨all, distinct, fun place => ?_, values⟩
  rw [here, complete, and_iff_right_iff_imp]
  exact Option.isSome_of_isSome_bind

end Enumerates
