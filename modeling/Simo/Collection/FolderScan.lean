import Simo.Collection.HandedOut
import Simo.Support.FirstOfKey

/-!
# What a folder gives

A file offers a collection if it has the section, its library can be loaded and has the collection
function.  The offer is taken unless the library is loaded already, be it from an earlier file of
the same folder.  So a folder gives the first offer of each library that was not loaded before, in
the order in which the files are visited.
-/

namespace Simo

open FirstOfKey

variable {Id Path Lib Collection : Type*}

/-- A library that can be loaded from a file, with its collection and the object that would own
them. -/
structure Offer (Id Path Lib Collection : Type*) where
  id : Id
  path : Path
  lib : Lib
  collection : Collection

/-- What a file gives if its library is not loaded. -/
def SharedObject.offer (object : SharedObject Lib Collection) : Option (Lib × Collection) :=
  if object.fileExists && !object.hasSection then none
  else if object.residentElsewhere then none
  else
    match object.library, object.collection with
    | some lib, .ok collection => some (lib, collection)
    | _, _ => none

def FolderEntry.offer (entry : FolderEntry Id Path Lib Collection) :
    Option (Offer Id Path Lib Collection) :=
  entry.object.offer.map fun offered => ⟨entry.id, entry.path, offered.1, offered.2⟩

/-- The element of the vector for an offer that is taken. -/
def Offer.element (offer : Offer Id Path Lib Collection) :
    Id × CollectionWithLib Path Lib Collection :=
  (offer.id, ⟨offer.path, some offer.collection, some offer.lib⟩)

namespace Dl

/-- Whether a library is held. -/
def holds (dl : Dl Lib) (lib : Lib) : Bool := decide (0 < dl.openCount lib)

variable [DecidableEq Lib]

/-- Open the libraries of some offers. -/
def openAll (dl : Dl Lib) (offers : List (Offer Id Path Lib Collection)) : Dl Lib :=
  offers.foldl (fun dl offer => dl.dlopen offer.lib) dl

theorem holds_dlopen (dl : Dl Lib) (lib : Lib) :
    (dl.dlopen lib).holds = fun other => dl.holds other || decide (lib = other) := by
  funext other
  rw [holds, openCount_dlopen, holds]
  by_cases same : lib = other
  · simp [same]
  · simp [same]

theorem openCount_openAll (dl : Dl Lib) {offers : List (Offer Id Path Lib Collection)}
    (distinct : (offers.map Offer.lib).Nodup) (lib : Lib) :
    (dl.openAll offers).openCount lib =
      dl.openCount lib + if lib ∈ offers.map Offer.lib then 1 else 0 := by
  induction offers generalizing dl with
  | nil => rfl
  | cons offer offers induction =>
      rw [List.map_cons, List.nodup_cons] at distinct
      rw [openAll, List.foldl_cons, ← openAll, induction _ distinct.2, openCount_dlopen]
      by_cases same : offer.lib = lib
      · subst same
        simp [distinct.1]
      · simp [same, Ne.symm same]

end Dl

section Scan

variable [DecidableEq Lib]

/-- A call takes the offer of its file unless the library is held. -/
theorem simoGetCollection_offer (dl : Dl Lib) (path : Path)
    (object : SharedObject Lib Collection) :
    match object.offer with
    | none => ∃ error, simoGetCollection dl path object = some (dl, .error error)
    | some (lib, collection) =>
        if dl.holds lib then ∃ error, simoGetCollection dl path object = some (dl, .error error)
        else simoGetCollection dl path object =
          some (dl.dlopen lib, .ok ⟨path, some collection, some lib⟩) := by
  rw [SharedObject.offer, simoGetCollection]
  by_cases plain : (object.fileExists && !object.hasSection) = true
  · rw [if_pos plain, if_pos plain]
    exact ⟨_, rfl⟩
  rw [if_neg plain, if_neg plain]
  cases found : object.library with
  | none =>
      simp only [probeLib, found]
      split
      all_goals first | exact ⟨_, rfl⟩ | simp_all
  | some lib =>
      by_cases resident : object.residentElsewhere = true
      · rw [if_pos resident]
        simp only [probeLib, found, resident, or_true, if_true, Dl.dlclose_dlopen]
        exact ⟨_, rfl⟩
      · rw [if_neg resident]
        simp only [probeLib, found, resident, Bool.false_eq_true, or_false]
        by_cases held : 0 < dl.openCount lib
        · simp only [held, if_true, Dl.dlclose_dlopen, Option.map_some]
          cases object.collection with
          | error err => exact ⟨_, rfl⟩
          | ok collection => simp [Dl.holds, held]
        · simp only [held, if_false]
          cases result : object.collection with
          | error err =>
              rw [SharedObject.collection] at result
              simp only [result, Dl.dlclose_dlopen]
              exact ⟨_, rfl⟩
          | ok collection =>
              rw [SharedObject.collection] at result
              simp [Dl.holds, held, result]

variable [Inhabited Path]

/-- The loop over a folder takes the first offer of each library that is not held. -/
theorem loadEntries_eq (dl : Dl Lib) (collections : Elements Id Path Lib Collection)
    (entries : List (FolderEntry Id Path Lib Collection)) :
    loadEntries dl collections entries =
      some (dl.openAll (firsts Offer.lib dl.holds (entries.filterMap FolderEntry.offer)),
        collections ++
          (firsts Offer.lib dl.holds (entries.filterMap FolderEntry.offer)).map Offer.element) := by
  induction entries generalizing dl collections with
  | nil => simp [loadEntries, firsts, Dl.openAll]
  | cons entry entries induction =>
      have call := simoGetCollection_offer dl entry.path entry.object
      rw [loadEntries, List.filterMap_cons, FolderEntry.offer]
      split at call
      next nothing =>
        obtain ⟨error, failed⟩ := call
        rw [failed, nothing]
        exact induction dl collections
      next lib collection offered =>
        rw [offered]
        dsimp only [Option.map_some]
        rw [firsts]
        dsimp only
        split at call
        next held =>
          obtain ⟨error, failed⟩ := call
          rw [failed, if_pos held]
          exact induction dl collections
        next free =>
          rw [call, if_neg free, ← dl.holds_dlopen]
          dsimp only [CollectionWithLib.moveConstruct, CollectionWithLib.destroy]
          have room : (if entry.grows then reallocate (dl.dlopen lib) collections
              else some (dl.dlopen lib, collections)) = some (dl.dlopen lib, collections) := by
            split
            next =>
              rw [reallocate_eq]
              exact congrArg some (Prod.ext rfl (List.map_id _))
            next => rfl
          rw [room, Option.bind_some, Option.bind_some, induction, List.map_cons, Dl.openAll,
            Dl.openAll, List.foldl_cons, List.append_assoc]
          rfl

end Scan
end Simo
