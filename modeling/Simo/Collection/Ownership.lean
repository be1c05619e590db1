import Simo.Collection.Collection
import Simo.Support.Census
import Simo.Support.Transition

/-!
# Every reference to a library is given back once

The references that are held are those of the live objects: a library is held once for every object
with its handle, and no two objects have the same one.  Loading a folder goes through temporaries
and a vector that may move its elements when it grows; their handles count on the way.
-/

namespace Simo

variable {Id Path Lib Collection : Type*}

/-! ## Loading a folder -/

/-- An entry of a folder, with the object that it becomes if it is loaded, and whether the vector
has to grow for it. -/
structure FolderEntry (Id Path Lib Collection : Type*) where
  id : Id
  path : Path
  object : SharedObject Lib Collection
  grows : Bool

/-- The elements of a vector, each with the object that it is going to be. -/
abbrev Elements (Id Path Lib Collection : Type*) :=
  List (Id × CollectionWithLib Path Lib Collection)

section Folder

variable [Inhabited Path] [DecidableEq Lib]

/-- Move the elements of a vector to new storage and destroy what is left of them. -/
def reallocate (dl : Dl Lib) : Elements Id Path Lib Collection →
    Option (Dl Lib × Elements Id Path Lib Collection)
  | [] => some (dl, [])
  | (id, element) :: elements =>
      let (moved, left) := element.moveConstruct
      (left.destroy dl).bind fun dl =>
        (reallocate dl elements).map fun (dl, elements) => (dl, (id, moved) :: elements)

/-- The loop of `simo_get_collection_from_folder`. -/
def loadEntries (dl : Dl Lib) (collections : Elements Id Path Lib Collection) :
    List (FolderEntry Id Path Lib Collection) →
      Option (Dl Lib × Elements Id Path Lib Collection)
  | [] => some (dl, collections)
  | entry :: entries =>
      match simoGetCollection dl entry.path entry.object with
      | none => none
      | some (dl, .error _) => loadEntries dl collections entries
      | some (dl, .ok loadResult) =>
          let (element, loadResult) := loadResult.moveConstruct
          ((if entry.grows then reallocate dl collections else some (dl, collections)).bind
            fun (dl, collections) =>
              (loadResult.destroy dl).bind fun dl =>
                loadEntries dl (collections ++ [(entry.id, element)]) entries)

def simoGetCollectionFromFolder (dl : Dl Lib) (isDirectory : Bool)
    (entries : List (FolderEntry Id Path Lib Collection)) :
    Option (Dl Lib × Except GetCollectionError (Elements Id Path Lib Collection)) :=
  if isDirectory then
    (loadEntries dl [] entries).map fun (dl, collections) => (dl, .ok collections)
  else some (dl, .error ⟨.notADirectory, ""⟩)

/-- The elements of a vector that hold a library. -/
def Elements.holders (elements : Elements Id Path Lib Collection) (lib : Lib) : ℕ :=
  elements.countP fun element => element.2.libHandle = some lib

theorem reallocate_eq (dl : Dl Lib) (elements : Elements Id Path Lib Collection) :
    reallocate dl elements =
      some (dl, elements.map fun element => (element.1, element.2.moveConstruct.1)) := by
  induction elements with
  | nil => rfl
  | cons element elements induction =>
      obtain ⟨id, object⟩ := element
      rw [reallocate]
      have destroyed : object.moveConstruct.2.destroy dl = some dl := rfl
      dsimp only
      rw [destroyed, Option.bind_some, induction]
      rfl

theorem holders_map_moveConstruct (elements : Elements Id Path Lib Collection) (lib : Lib) :
    Elements.holders (elements.map fun element => (element.1, element.2.moveConstruct.1)) lib =
      elements.holders lib := by
  rw [Elements.holders, List.countP_map]
  rfl

/-- Making room leaves the references alone and keeps what the elements hold. -/
theorem exists_room (dl : Dl Lib) (collections : Elements Id Path Lib Collection) (grows : Bool) :
    ∃ room : Elements Id Path Lib Collection,
      (if grows then reallocate dl collections else some (dl, collections)) = some (dl, room) ∧
        (∀ lib, room.holders lib = collections.holders lib) ∧
        room.map Prod.fst = collections.map Prod.fst := by
  cases grows with
  | false => exact ⟨collections, rfl, fun _ => rfl, rfl⟩
  | true =>
      refine ⟨_, reallocate_eq dl collections, holders_map_moveConstruct collections, ?_⟩
      rw [List.map_map]
      rfl

/-- Loading returns.  What it adds to the references is what the elements of the vector hold, a
library is still held at most once, and the new elements are named by entries. -/
theorem loadEntries_spec (dl : Dl Lib) (collections : Elements Id Path Lib Collection)
    (entries : List (FolderEntry Id Path Lib Collection))
    (once : ∀ lib, dl.openCount lib ≤ 1) :
    ∃ after loaded, loadEntries dl collections entries = some (after, loaded) ∧
      (∀ lib, after.openCount lib + collections.holders lib =
        dl.openCount lib + Elements.holders loaded lib) ∧
      (∀ lib, after.openCount lib ≤ 1) ∧
      ∃ names, loaded.map Prod.fst = collections.map Prod.fst ++ names ∧
        names.Sublist (entries.map FolderEntry.id) := by
  induction entries generalizing dl collections with
  | nil => exact ⟨dl, collections, rfl, fun _ => rfl, once, [], by simp, List.Sublist.refl _⟩
  | cons entry entries induction =>
      rw [loadEntries]
      rcases simoGetCollection_spec dl entry.path entry.object with
        ⟨error, failed⟩ | ⟨lib, collection, free, loaded⟩
      · rw [failed]
        obtain ⟨after, loaded, result, balance, single, names, named, listed⟩ :=
          induction dl collections once
        exact ⟨after, loaded, result, balance, single, names, named, listed.cons _⟩
      · rw [loaded]
        obtain ⟨room, makesRoom, same, sameNames⟩ :=
          exists_room (dl.dlopen lib) collections entry.grows
        have still : ∀ other, (dl.dlopen lib).openCount other ≤ 1 := by
          intro other
          have before := once other
          rw [Dl.openCount_dlopen]
          split
          next here => subst here; omega
          next => omega
        let element : CollectionWithLib Path Lib Collection :=
          ⟨entry.path, some collection, some lib⟩
        obtain ⟨after, loaded, result, balance, single, names, named, listed⟩ :=
          induction (dl.dlopen lib) (room ++ [(entry.id, element)]) still
        refine ⟨after, loaded, ?_, fun other => ?_, single, entry.id :: names, ?_,
          listed.cons_cons _⟩
        · dsimp only [CollectionWithLib.moveConstruct]
          rw [makesRoom]
          exact result
        · have total := balance other
          rw [Dl.openCount_dlopen, Elements.holders, List.countP_append] at total
          have room := same other
          rw [Elements.holders] at room
          rw [room] at total
          simp only [List.countP_singleton, element, Option.some.injEq, decide_eq_true_eq] at total
          omega
        · rw [named, List.map_append, sameNames, List.append_assoc]
          rfl

end Folder

/-! ## Live objects -/

/-- The references that are held and the live objects. -/
structure Loader (Id Path Lib Collection : Type*) where
  dl : Dl Lib
  objects : AList fun _ : Id => CollectionWithLib Path Lib Collection

/-- What can happen to objects. -/
inductive CollectionEvent (Id Path Lib Collection : Type*) where
  /-- Construction without a library. -/
  | construct (id : Id) (path : Path) (collection : Option Collection)
  | getCollection (id : Id) (path : Path) (object : SharedObject Lib Collection)
  | getCollectionFromFolder (isDirectory : Bool)
      (entries : List (FolderEntry Id Path Lib Collection))
  | moveConstruct (id source : Id)
  | moveAssign (id source : Id)
  | destroy (id : Id)

namespace Loader

section Objects

variable [DecidableEq Id]

/-- The objects of a vector become live objects. -/
def store (objects : AList fun _ : Id => CollectionWithLib Path Lib Collection)
    (elements : Elements Id Path Lib Collection) :
    AList fun _ : Id => CollectionWithLib Path Lib Collection :=
  elements.foldl (fun objects element => objects.insert element.1 element.2) objects

theorem census_store (holds : CollectionWithLib Path Lib Collection → Prop)
    [DecidablePred holds] (objects : AList fun _ : Id => CollectionWithLib Path Lib Collection)
    (elements : Elements Id Path Lib Collection) (distinct : (elements.map Prod.fst).Nodup)
    (fresh : ∀ id ∈ elements.map Prod.fst, objects.lookup id = none) :
    (store objects elements).census holds =
      objects.census holds + elements.countP fun element => holds element.2 := by
  induction elements generalizing objects with
  | nil => rfl
  | cons element elements induction =>
      rw [List.map_cons, List.nodup_cons] at distinct
      rw [store, List.foldl_cons]
      refine (induction _ distinct.2 fun id member => ?_).trans ?_
      · have apart : id ≠ element.1 := by
          rintro rfl
          exact distinct.1 member
        rw [AList.lookup_insert_ne apart]
        exact fresh id (List.mem_cons_of_mem _ member)
      · rw [AList.census_insert_of_absent (fresh _ List.mem_cons_self), List.countP_cons]
        simp only [decide_eq_true_eq]
        omega

/-- New objects have new names, and the others are live. -/
def Enabled (loader : Loader Id Path Lib Collection) :
    CollectionEvent Id Path Lib Collection → Prop
  | .construct id _ _ | .getCollection id _ _ => loader.objects.lookup id = none
  | .getCollectionFromFolder _ entries =>
      (entries.map FolderEntry.id).Nodup ∧
        ∀ entry ∈ entries, loader.objects.lookup entry.id = none
  | .moveConstruct id source =>
      loader.objects.lookup id = none ∧ (loader.objects.lookup source).isSome = true
  | .moveAssign id source =>
      (loader.objects.lookup id).isSome = true ∧ (loader.objects.lookup source).isSome = true
  | .destroy id => (loader.objects.lookup id).isSome = true

instance Enabled.decidable (loader : Loader Id Path Lib Collection) :
    ∀ event, Decidable (loader.Enabled event)
  | .construct id _ _ | .getCollection id _ _ =>
      inferInstanceAs (Decidable (loader.objects.lookup id = none))
  | .getCollectionFromFolder _ entries =>
      inferInstanceAs (Decidable ((entries.map FolderEntry.id).Nodup ∧
        ∀ entry ∈ entries, loader.objects.lookup entry.id = none))
  | .moveConstruct id source =>
      inferInstanceAs (Decidable (loader.objects.lookup id = none ∧
        (loader.objects.lookup source).isSome = true))
  | .moveAssign id source =>
      inferInstanceAs (Decidable ((loader.objects.lookup id).isSome = true ∧
        (loader.objects.lookup source).isSome = true))
  | .destroy id => inferInstanceAs (Decidable ((loader.objects.lookup id).isSome = true))

end Objects

variable [DecidableEq Lib]

/-- Nothing is loaded. -/
def new : Loader Id Path Lib Collection := ⟨.new, ∅⟩

/-- The live objects that hold a library. -/
def holders (loader : Loader Id Path Lib Collection) (lib : Lib) : ℕ :=
  loader.objects.census fun object => object.libHandle = some lib

/-- Every library is held once for each live object with its handle, and at most once. -/
structure Owned (loader : Loader Id Path Lib Collection) : Prop where
  counted : ∀ lib, loader.dl.openCount lib = loader.holders lib
  once : ∀ lib, loader.dl.openCount lib ≤ 1

variable {loader : Loader Id Path Lib Collection}

theorem owned_new : Owned (new : Loader Id Path Lib Collection) :=
  ⟨fun _ => rfl, fun _ => Nat.zero_le 1⟩

variable [DecidableEq Id]

/-- Two live objects do not hold the same library. -/
theorem Owned.unique (owned : loader.Owned) {id other : Id} {lib : Lib}
    {object object' : CollectionWithLib Path Lib Collection}
    (first : loader.objects.lookup id = some object)
    (second : loader.objects.lookup other = some object') (holds : object.libHandle = some lib)
    (holds' : object'.libHandle = some lib) : id = other :=
  AList.eq_of_census_le_one (owned.counted lib ▸ owned.once lib) first second holds holds'

/-- A live object can be destroyed, which gives its reference back. -/
theorem Owned.exists_destroy (owned : loader.Owned) {id : Id}
    {object : CollectionWithLib Path Lib Collection}
    (live : loader.objects.lookup id = some object) :
    ∃ dl, object.destroy loader.dl = some dl ∧ ∀ lib,
      dl.openCount lib + (if object.libHandle = some lib then 1 else 0) =
        loader.dl.openCount lib := by
  rw [CollectionWithLib.destroy]
  cases holds : object.libHandle with
  | none => exact ⟨loader.dl, rfl, fun _ => rfl⟩
  | some handle =>
      have held : 0 < loader.dl.openCount handle := by
        rw [owned.counted]
        exact AList.census_pos live holds
      obtain ⟨dl, closed, balance⟩ := loader.dl.exists_dlclose handle held
      refine ⟨dl, closed, fun lib => ?_⟩
      rw [← balance lib]
      simp only [Option.some.injEq]

/-- Moving an object keeps the references counted, once the target of the move has given back what
it held. -/
theorem Owned.moved (owned : loader.Owned) {id source : Id} (apart : id ≠ source)
    {other left : CollectionWithLib Path Lib Collection}
    (found : loader.objects.lookup source = some other) (empty : left.libHandle = none)
    {dl : Dl Lib} (balance : ∀ lib, dl.openCount lib +
      loader.objects.contribution (fun object => object.libHandle = some lib) id =
        loader.dl.openCount lib) :
    Owned ⟨dl, (loader.objects.insert source left).insert id other⟩ := by
  refine ⟨fun lib => ?_, fun lib => ?_⟩
  · have nothing : ¬left.libHandle = some lib := by
      rw [empty]
      exact nofun
    have exchanged : ((loader.objects.insert source left).insert id other).census
          (fun object => object.libHandle = some lib) +
        (loader.objects.contribution (fun object => object.libHandle = some lib) id +
          loader.objects.contribution (fun object => object.libHandle = some lib) source) =
        loader.objects.census (fun object => object.libHandle = some lib) +
          ((if left.libHandle = some lib then 1 else 0) +
            if other.libHandle = some lib then 1 else 0) :=
      AList.census_insert_insert apart left other
    rw [AList.contribution_of_lookup found, if_neg nothing] at exchanged
    have before := owned.counted lib
    have given := balance lib
    rw [holders] at before ⊢
    dsimp only
    omega
  · have before := owned.once lib
    have given := balance lib
    dsimp only
    omega

variable [Inhabited Path]

/-- Carry out an event.  There is no result if a library would be closed that is not held. -/
def perform (loader : Loader Id Path Lib Collection) :
    CollectionEvent Id Path Lib Collection → Option (Loader Id Path Lib Collection)
  | .construct id path collection =>
      some { loader with objects := loader.objects.insert id ⟨path, collection, none⟩ }
  | .getCollection id path object =>
      (simoGetCollection loader.dl path object).map fun (dl, result) =>
        match result with
        | .ok loaded => ⟨dl, loader.objects.insert id loaded⟩
        | .error _ => ⟨dl, loader.objects⟩
  | .getCollectionFromFolder isDirectory entries =>
      (simoGetCollectionFromFolder loader.dl isDirectory entries).map fun (dl, result) =>
        match result with
        | .ok collections => ⟨dl, store loader.objects collections⟩
        | .error _ => ⟨dl, loader.objects⟩
  | .moveConstruct id source =>
      (loader.objects.lookup source).map fun other =>
        let (object, left) := other.moveConstruct
        { loader with objects := (loader.objects.insert source left).insert id object }
  | .moveAssign id source =>
      if id = source then some loader
      else
        (loader.objects.lookup id).bind fun object =>
          (loader.objects.lookup source).bind fun other =>
            (object.moveAssign other loader.dl).map fun (dl, object, left) =>
              ⟨dl, (loader.objects.insert source left).insert id object⟩
  | .destroy id =>
      (loader.objects.lookup id).bind fun object =>
        (object.destroy loader.dl).map fun dl => ⟨dl, loader.objects.erase id⟩

/-- Storing the elements of a folder. -/
theorem Owned.folder (owned : loader.Owned) (isDirectory : Bool)
    (entries : List (FolderEntry Id Path Lib Collection))
    (enabled : loader.Enabled (.getCollectionFromFolder isDirectory entries)) :
    ∃ after, loader.perform (.getCollectionFromFolder isDirectory entries) = some after ∧
      after.Owned := by
  rw [perform, simoGetCollectionFromFolder]
  cases isDirectory with
  | false => exact ⟨loader, rfl, owned⟩
  | true =>
      obtain ⟨dl, loaded, result, balance, single, names, named, listed⟩ :=
        loadEntries_spec loader.dl ([] : Elements Id Path Lib Collection) entries owned.once
      rw [if_pos rfl, result]
      refine ⟨_, rfl, fun lib => ?_, single⟩
      rw [List.map_nil, List.nil_append] at named
      have fresh : ∀ id ∈ loaded.map Prod.fst, loader.objects.lookup id = none := by
        intro id member
        rw [named] at member
        obtain ⟨entry, inFolder, rfl⟩ := List.mem_map.mp (listed.subset member)
        exact enabled.2 entry inFolder
      have stored := census_store (fun object => object.libHandle = some lib) loader.objects loaded
        (named ▸ listed.nodup enabled.1) fresh
      have total := balance lib
      have before := owned.counted lib
      rw [holders] at before ⊢
      dsimp only
      rw [stored]
      simp only [Elements.holders, List.countP_nil] at total
      omega

/-- Construction without a library. -/
theorem Owned.construct (owned : loader.Owned) {id : Id} {path : Path}
    {collection : Option Collection} (enabled : loader.Enabled (.construct id path collection)) :
    ∃ after, loader.perform (.construct id path collection) = some after ∧ after.Owned := by
  refine ⟨_, rfl, fun lib => ?_, owned.once⟩
  have before := owned.counted lib
  rw [holders] at before ⊢
  dsimp only
  rw [AList.census_insert_of_absent enabled, if_neg nofun]
  exact before

/-- A call that stores a new object, or fails. -/
theorem Owned.getCollection (owned : loader.Owned) {id : Id} {path : Path}
    {object : SharedObject Lib Collection}
    (enabled : loader.Enabled (.getCollection id path object)) :
    ∃ after, loader.perform (.getCollection id path object) = some after ∧ after.Owned := by
  rw [perform]
  rcases simoGetCollection_spec loader.dl path object with
    ⟨error, failed⟩ | ⟨handle, collection, free, loaded⟩
  · rw [failed]
    exact ⟨loader, rfl, owned⟩
  · rw [loaded]
    refine ⟨_, rfl, fun lib => ?_, fun lib => ?_⟩
    · have before := owned.counted lib
      rw [holders] at before ⊢
      dsimp only
      rw [AList.census_insert_of_absent enabled, Dl.openCount_dlopen, before]
      simp only [Option.some.injEq]
    · have before := owned.once lib
      dsimp only
      rw [Dl.openCount_dlopen]
      split
      next same => rw [← same, free]
      next => exact before

/-- Move construction from a live object. -/
theorem Owned.moveConstruct (owned : loader.Owned) {id source : Id}
    (enabled : loader.Enabled (.moveConstruct id source)) :
    ∃ after, loader.perform (.moveConstruct id source) = some after ∧ after.Owned := by
  obtain ⟨absent, live⟩ := enabled
  obtain ⟨other, found⟩ := Option.isSome_iff_exists.mp live
  rw [perform, found]
  have apart : id ≠ source := by
    rintro rfl
    cases absent.symm.trans found
  refine ⟨_, rfl, owned.moved apart found rfl fun lib => ?_⟩
  rw [AList.contribution, absent, Option.elim_none, Nat.add_zero]

/-- Move assignment, to the object itself too. -/
theorem Owned.moveAssign (owned : loader.Owned) {id source : Id}
    (enabled : loader.Enabled (.moveAssign id source)) :
    ∃ after, loader.perform (.moveAssign id source) = some after ∧ after.Owned := by
  obtain ⟨target, live⟩ := enabled
  obtain ⟨object, held⟩ := Option.isSome_iff_exists.mp target
  obtain ⟨other, found⟩ := Option.isSome_iff_exists.mp live
  rw [perform]
  split
  next => exact ⟨loader, rfl, owned⟩
  next apart =>
    obtain ⟨dl, destroyed, balance⟩ := owned.exists_destroy held
    rw [held, Option.bind_some, found, Option.bind_some, CollectionWithLib.moveAssign_eq,
      destroyed]
    refine ⟨_, rfl, owned.moved apart found rfl fun lib => ?_⟩
    rw [AList.contribution_of_lookup held]
    exact balance lib

/-- Destruction of a live object. -/
theorem Owned.destroy (owned : loader.Owned) {id : Id} (enabled : loader.Enabled (.destroy id)) :
    ∃ after, loader.perform (.destroy id) = some after ∧ after.Owned := by
  obtain ⟨object, live⟩ := Option.isSome_iff_exists.mp enabled
  obtain ⟨dl, destroyed, balance⟩ := owned.exists_destroy live
  rw [perform, live, Option.bind_some, destroyed]
  refine ⟨_, rfl, fun lib => ?_, fun lib => ?_⟩
  · have before := owned.counted lib
    have given := balance lib
    rw [holders, AList.census_of_lookup live] at before
    rw [holders]
    dsimp only
    omega
  · have before := owned.once lib
    have given := balance lib
    dsimp only
    omega

/-- An event has a result, and the references stay counted. -/
theorem Owned.exists_perform (owned : loader.Owned) (event : CollectionEvent Id Path Lib Collection)
    (enabled : loader.Enabled event) :
    ∃ after, loader.perform event = some after ∧ after.Owned := by
  cases event with
  | construct id path collection => exact owned.construct enabled
  | getCollection id path object => exact owned.getCollection enabled
  | getCollectionFromFolder isDirectory entries => exact owned.folder isDirectory entries enabled
  | moveConstruct id source => exact owned.moveConstruct enabled
  | moveAssign id source => exact owned.moveAssign enabled
  | destroy id => exact owned.destroy enabled

/-- `after` has the references of `loader` less the one that `object` owns. -/
def GivesBack (loader : Loader Id Path Lib Collection)
    (object : CollectionWithLib Path Lib Collection) (after : Loader Id Path Lib Collection) :
    Prop :=
  ∀ lib, after.dl.openCount lib + (if object.libHandle = some lib then 1 else 0) =
    loader.dl.openCount lib

/-- What the next event does to an object it does to its reference. -/
structure ReferencesFollow (loader : Loader Id Path Lib Collection) : Prop where
  /-- A call takes one reference, to a library that was not held, for a new object, or it fails and
  changes nothing. -/
  taken : ∀ id path object, loader.Enabled (.getCollection id path object) →
    ∃ after, loader.perform (.getCollection id path object) = some after ∧
      ((∃ error, simoGetCollection loader.dl path object = some (loader.dl, .error error)) ∧
          after = loader ∨
        ∃ lib collection, loader.dl.openCount lib = 0 ∧ after.dl = loader.dl.dlopen lib ∧
          after.objects = loader.objects.insert id ⟨path, some collection, some lib⟩)
  /-- A destroyed object is gone and has given its reference back. -/
  destroyed : ∀ id object, loader.objects.lookup id = some object →
    ∃ after, loader.perform (.destroy id) = some after ∧ loader.GivesBack object after ∧
      after.objects.lookup id = none ∧
      ∀ other, other ≠ id → after.objects.lookup other = loader.objects.lookup other
  /-- The target of an assignment gives back what it owned and takes over what the other object
  owned, which is left without a library. -/
  assigned : ∀ id source object other, id ≠ source → loader.objects.lookup id = some object →
    loader.objects.lookup source = some other →
    ∃ after left, loader.perform (.moveAssign id source) = some after ∧
      loader.GivesBack object after ∧ after.objects.lookup id = some other ∧
      after.objects.lookup source = some left ∧ left.libHandle = none ∧
      ∀ third, third ≠ id → third ≠ source →
        after.objects.lookup third = loader.objects.lookup third
  selfAssigned : ∀ id, (loader.objects.lookup id).isSome = true →
    loader.perform (.moveAssign id id) = some loader
  /-- A new object takes over what the object that it is constructed from owned. -/
  constructed : ∀ id source other, loader.objects.lookup id = none →
    loader.objects.lookup source = some other →
    ∃ after left, loader.perform (.moveConstruct id source) = some after ∧
      after.dl = loader.dl ∧ after.objects.lookup id = some other ∧
      after.objects.lookup source = some left ∧ left.libHandle = none ∧
      ∀ third, third ≠ id → third ≠ source →
        after.objects.lookup third = loader.objects.lookup third

theorem exists_taken (loader : Loader Id Path Lib Collection) (id : Id) (path : Path)
    (object : SharedObject Lib Collection) :
    ∃ after, loader.perform (.getCollection id path object) = some after ∧
      ((∃ error, simoGetCollection loader.dl path object = some (loader.dl, .error error)) ∧
          after = loader ∨
        ∃ lib collection, loader.dl.openCount lib = 0 ∧ after.dl = loader.dl.dlopen lib ∧
          after.objects = loader.objects.insert id ⟨path, some collection, some lib⟩) := by
  rw [perform]
  rcases simoGetCollection_spec loader.dl path object with
    ⟨error, failed⟩ | ⟨lib, collection, free, loaded⟩
  · rw [failed]
    exact ⟨loader, rfl, .inl ⟨⟨error, rfl⟩, rfl⟩⟩
  · rw [loaded]
    exact ⟨_, rfl, .inr ⟨lib, collection, free, rfl, rfl⟩⟩

theorem Owned.destroyed (owned : loader.Owned) {id : Id}
    {object : CollectionWithLib Path Lib Collection}
    (live : loader.objects.lookup id = some object) :
    ∃ after, loader.perform (.destroy id) = some after ∧ loader.GivesBack object after ∧
      after.objects.lookup id = none ∧
      ∀ other, other ≠ id → after.objects.lookup other = loader.objects.lookup other := by
  obtain ⟨dl, closed, balance⟩ := owned.exists_destroy live
  rw [perform, live, Option.bind_some, closed]
  exact ⟨_, rfl, balance, AList.lookup_erase _ _, fun other apart => AList.lookup_erase_ne apart⟩

theorem Owned.assigned (owned : loader.Owned) {id source : Id} (apart : id ≠ source)
    {object other : CollectionWithLib Path Lib Collection}
    (held : loader.objects.lookup id = some object)
    (found : loader.objects.lookup source = some other) :
    ∃ after left, loader.perform (.moveAssign id source) = some after ∧
      loader.GivesBack object after ∧ after.objects.lookup id = some other ∧
      after.objects.lookup source = some left ∧ left.libHandle = none ∧
      ∀ third, third ≠ id → third ≠ source →
        after.objects.lookup third = loader.objects.lookup third := by
  obtain ⟨dl, closed, balance⟩ := owned.exists_destroy held
  obtain ⟨target, emptied, others⟩ :=
    AList.lookup_insert_insert apart loader.objects ⟨default, none, none⟩ other
  rw [perform, if_neg apart, held, Option.bind_some, found, Option.bind_some,
    CollectionWithLib.moveAssign_eq, closed]
  exact ⟨_, _, rfl, balance, target, emptied, rfl, others⟩

theorem Owned.referencesFollow (owned : loader.Owned) : loader.ReferencesFollow where
  taken id path object _ := exists_taken loader id path object
  destroyed _ _ live := owned.destroyed live
  assigned _ _ _ _ apart held found := owned.assigned apart held found
  selfAssigned _ _ := if_pos rfl
  constructed id source other absent found := by
    have apart : id ≠ source := by
      rintro rfl
      cases absent.symm.trans found
    obtain ⟨target, emptied, others⟩ :=
      AList.lookup_insert_insert apart loader.objects other.moveConstruct.2 other
    rw [perform, found]
    exact ⟨_, _, rfl, rfl, target, emptied, rfl, others⟩

/-- After any history of calls, moves and destructions every library is held once for each live
object with its handle, and no two have the same one.  Whatever happens next has a result, so that
no library is closed that is not held.  A destruction and an assignment give back what the object
owned, and a call that fails leaves every reference as it was. -/
theorem references_given_back_once
    {steps : List (Transition (Loader Id Path Lib Collection)
      (CollectionEvent Id Path Lib Collection))}
    (history : StepPath (fun before event after =>
      before.Enabled event ∧ before.perform event = some after) .new steps loader) :
    (∀ lib, loader.dl.openCount lib = loader.holders lib) ∧
      (∀ id other object object' lib, loader.objects.lookup id = some object →
        loader.objects.lookup other = some object' → object.libHandle = some lib →
          object'.libHandle = some lib → id = other) ∧
      (∀ event, loader.Enabled event → ∃ after, loader.perform event = some after) ∧
      loader.ReferencesFollow ∧
      ∀ (path : Path) (object : SharedObject Lib Collection), ∃ dl result,
        simoGetCollection loader.dl path object = some (dl, result) ∧
          ∀ error, result = .error error → dl = loader.dl := by
  have owned : loader.Owned := history.invariant_of_step owned_new
    fun before event after invariant step => by
      obtain ⟨enabled, performed⟩ := step
      obtain ⟨after', performed', still⟩ := invariant.exists_perform event enabled
      exact Option.some.inj (performed'.symm.trans performed) ▸ still
  refine ⟨owned.counted, fun _ _ _ _ _ first second => owned.unique first second, ?_,
    owned.referencesFollow, ?_⟩
  · intro event enabled
    obtain ⟨after, performed, -⟩ := owned.exists_perform event enabled
    exact ⟨after, performed⟩
  · intro path object
    rcases simoGetCollection_spec loader.dl path object with
      ⟨error, failed⟩ | ⟨lib, collection, -, loaded⟩
    · exact ⟨_, _, failed, fun _ _ => rfl⟩
    · exact ⟨_, _, loaded, nofun⟩

/-- Enabled events, carried out. -/
theorem step_of_guarded (before : Loader Id Path Lib Collection)
    (event : CollectionEvent Id Path Lib Collection) (after : Loader Id Path Lib Collection)
    (performed : StepPath.guarded Enabled perform before event = some after) :
    before.Enabled event ∧ before.perform event = some after :=
  StepPath.of_guarded before event after performed

/-- A file with a library that can be loaded. -/
def loadable (lib : ℕ) : SharedObject ℕ ℕ where
  fileExists := true
  hasSection := true
  library := some lib
  residentElsewhere := false
  dlopenError := ""
  collectionFunctionName := none
  lookupFunction := fun _ => .ok lib

/-- Events for one library after the other: loading it twice, an assignment onto an object that owns
a library, the destruction of what is left of the moved object and of the object that took its
library over, a folder with that library again, and the destruction of an object from it. -/
def movedAndDestroyed : List (CollectionEvent ℕ ℕ ℕ ℕ) :=
  [.getCollection 0 7 (loadable 3), .getCollection 1 7 (loadable 3),
    .getCollection 1 8 (loadable 4), .moveAssign 1 0, .moveAssign 1 1, .destroy 0, .destroy 1,
    .getCollectionFromFolder true
      [⟨2, 7, loadable 3, true⟩, ⟨3, 8, loadable 4, true⟩, ⟨4, 9, loadable 5, true⟩],
    .destroy 3]

theorem references_given_back_once_moved :
    ∃ steps, ∃ loader : Loader ℕ ℕ ℕ ℕ,
      StepPath (fun before event after =>
        before.Enabled event ∧ before.perform event = some after) .new steps loader ∧
      steps.map Transition.label = movedAndDestroyed ∧
      [3, 4, 5].map loader.dl.openCount = [1, 0, 1] ∧
      (∀ lib, loader.dl.openCount lib = loader.holders lib) ∧ loader.ReferencesFollow := by
  obtain ⟨steps, loader, history, labels, counts⟩ :=
    StepPath.exists_of_checked step_of_guarded (new : Loader ℕ ℕ ℕ ℕ) movedAndDestroyed
      (fun loader => [3, 4, 5].map loader.dl.openCount = [1, 0, 1]) (by decide)
  obtain ⟨counted, -, -, follow, -⟩ := references_given_back_once history
  exact ⟨steps, loader, history, labels, counts, counted, follow⟩

end Loader

end Simo
