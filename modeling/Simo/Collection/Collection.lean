import Mathlib.Data.Nat.Notation
import Mathlib.Logic.Function.Basic

/-!
# Collections and the libraries they come from

A `CollectionWithLib` owns one reference to a shared library and gives it back when it is destroyed.
`Dl` counts the references that this code holds.  What the system answers when a file is loaded is
given by a `SharedObject`, which may be a different one for every call.  Closing a library that is
not held has no result, so a function that returns has never closed a library too often.
-/

namespace Simo

/-- The references to libraries that are held. -/
@[ext]
structure Dl (Lib : Type*) where
  openCount : Lib → ℕ

namespace Dl

variable {Lib : Type*} [DecidableEq Lib] (dl : Dl Lib) (lib : Lib)

/-- No library is held. -/
def new {Lib : Type*} : Dl Lib := ⟨fun _ => 0⟩

/-- A `dlopen` that succeeds. -/
def dlopen : Dl Lib := ⟨Function.update dl.openCount lib (dl.openCount lib + 1)⟩

def dlclose : Option (Dl Lib) :=
  if dl.openCount lib = 0 then none
  else some ⟨Function.update dl.openCount lib (dl.openCount lib - 1)⟩

theorem openCount_dlopen (other : Lib) :
    (dl.dlopen lib).openCount other = dl.openCount other + if lib = other then 1 else 0 := by
  rw [dlopen]
  dsimp only
  rw [Function.update_apply]
  split
  next same => rw [same, if_pos rfl]
  next apart => rw [if_neg (Ne.symm apart), Nat.add_zero]

/-- A library that is held can be closed. -/
theorem exists_dlclose (held : 0 < dl.openCount lib) :
    ∃ after, dl.dlclose lib = some after ∧ ∀ other,
      after.openCount other + (if lib = other then 1 else 0) = dl.openCount other := by
  refine ⟨_, if_neg (Nat.ne_of_gt held), fun other => ?_⟩
  dsimp only
  rw [Function.update_apply]
  split
  next same =>
    subst same
    rw [if_pos rfl]
    exact Nat.sub_add_cancel held
  next apart => rw [if_neg (Ne.symm apart), Nat.add_zero]

@[simp]
theorem dlclose_dlopen : (dl.dlopen lib).dlclose lib = some dl := by
  rw [dlclose, dlopen, if_neg (by simp)]
  simp

end Dl

/-- Why a collection cannot be had. -/
inductive GetCollectionErrorCode where
  | dlopenFail
  | noFunctionName
  | notADirectory
  | alreadyLoadedLibrary
  | noSimoCollectionSection
deriving DecidableEq

structure GetCollectionError where
  errorCode : GetCollectionErrorCode
  errorMessage : String
deriving DecidableEq

/-- What the system answers about a path at the time of a call. -/
structure SharedObject (Lib Collection : Type*) where
  fileExists : Bool
  /-- `object_file_has_section_named` for the section of collections. -/
  hasSection : Bool
  /-- The library that `dlopen` finds under the path, if it can load it. -/
  library : Option Lib
  /-- The library is loaded for other reasons than the references counted here. -/
  residentElsewhere : Bool
  /-- `dlerror` after a `dlopen` that fails. -/
  dlopenError : String
  /-- The text at the symbol that names the collection function, if the library has one. -/
  collectionFunctionName : Option String
  /-- What the function of a name returns, or `dlerror` if there is none. -/
  lookupFunction : String → Except String Collection

/-- The default name of the collection function. -/
def collectionFunctionNameDefault : String := "simo_get_collection"

/-- A collection together with the library that it lives in. -/
structure CollectionWithLib (Path Lib Collection : Type*) where
  path : Path
  collection : Option Collection
  libHandle : Option Lib

namespace CollectionWithLib

variable {Path Lib Collection : Type*}

/-- The move constructor: the new object, and what is left of the other one.  The path that is left
is unspecified; it is the empty one here. -/
def moveConstruct [Inhabited Path] (other : CollectionWithLib Path Lib Collection) :
    CollectionWithLib Path Lib Collection × CollectionWithLib Path Lib Collection :=
  (other, { other with path := default, libHandle := none })

variable [DecidableEq Lib]

/-- The destructor. -/
def destroy (object : CollectionWithLib Path Lib Collection) (dl : Dl Lib) : Option (Dl Lib) :=
  match object.libHandle with
  | some libHandle => dl.dlclose libHandle
  | none => some dl

/-- The move assignment from another object. -/
def moveAssign [Inhabited Path] (object other : CollectionWithLib Path Lib Collection)
    (dl : Dl Lib) : Option (Dl Lib × CollectionWithLib Path Lib Collection ×
      CollectionWithLib Path Lib Collection) :=
  match object.libHandle with
  | some libHandle => (dl.dlclose libHandle).map fun dl => (dl, other, ⟨default, none, none⟩)
  | none => some (dl, other, ⟨default, none, none⟩)

/-- A move assignment first gives back what the target holds. -/
theorem moveAssign_eq [Inhabited Path] (object other : CollectionWithLib Path Lib Collection)
    (dl : Dl Lib) :
    object.moveAssign other dl =
      (object.destroy dl).map fun dl => (dl, other, ⟨default, none, none⟩) := by
  rw [moveAssign, destroy]
  cases object.libHandle <;> rfl

end CollectionWithLib

section Loading

variable {Path Lib Collection : Type*} [DecidableEq Lib]

/-- `dlopen` with `RTLD_NOLOAD`, which succeeds if the library is loaded already. -/
def probeLib (dl : Dl Lib) (object : SharedObject Lib Collection) : Option Lib :=
  match object.library with
  | some lib => if 0 < dl.openCount lib ∨ object.residentElsewhere = true then some lib else none
  | none => none

def simoGetCollection (dl : Dl Lib) (pathToCollection : Path)
    (object : SharedObject Lib Collection) :
    Option (Dl Lib × Except GetCollectionError (CollectionWithLib Path Lib Collection)) :=
  if object.fileExists && !object.hasSection then
    some (dl, .error ⟨.noSimoCollectionSection, "No section "⟩)
  else
    match probeLib dl object with
    | some probeLib =>
        ((dl.dlopen probeLib).dlclose probeLib).map fun dl =>
          (dl, .error ⟨.alreadyLoadedLibrary, ""⟩)
    | none =>
        match object.library with
        | none => some (dl, .error ⟨.dlopenFail, object.dlopenError⟩)
        | some lib =>
            let dl := dl.dlopen lib
            let functionName :=
              object.collectionFunctionName.getD collectionFunctionNameDefault
            match object.lookupFunction functionName with
            | .error err =>
                (dl.dlclose lib).map fun dl => (dl, .error ⟨.noFunctionName, err⟩)
            | .ok collection => some (dl, .ok ⟨pathToCollection, some collection, some lib⟩)

/-- A call returns.  If it fails, every reference is as before; if it succeeds, the new object owns
the only reference to its library. -/
theorem simoGetCollection_spec (dl : Dl Lib) (path : Path)
    (object : SharedObject Lib Collection) :
    (∃ error, simoGetCollection dl path object = some (dl, .error error)) ∨
      ∃ lib collection, dl.openCount lib = 0 ∧
        simoGetCollection dl path object =
          some (dl.dlopen lib, .ok ⟨path, some collection, some lib⟩) := by
  rw [simoGetCollection]
  split
  next => exact .inl ⟨_, rfl⟩
  next =>
    split
    next => exact .inl ⟨_, by rw [Dl.dlclose_dlopen]; rfl⟩
    next unloaded =>
      split
      next => exact .inl ⟨_, rfl⟩
      next lib found =>
        dsimp only
        split
        next => exact .inl ⟨_, by rw [Dl.dlclose_dlopen]; rfl⟩
        next collection _ =>
          refine .inr ⟨lib, collection, ?_, rfl⟩
          rw [probeLib, found] at unloaded
          dsimp only at unloaded
          split at unloaded
          next => cases unloaded
          next free => exact Nat.eq_zero_of_not_pos fun held => free (.inl held)

end Loading
end Simo
