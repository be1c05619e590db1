import Simo.Collection.FolderScan
import Simo.Collection.ObjectFile
import Simo.SimoSim.Main
import Simo.Support.Traversal

/-!
# The search for collections

`main` starts with the collection of the core modules and appends what the folders of the search
path give.  In which order the files of a folder are visited is up to the system.  A question to the
file system that has no answer, a file that cannot be read without waiting for ever and a test that
fails keep the search from going on.  A library that can be found under several paths is taken from
the first one, and which one this is makes no difference to the rest of the program.
-/

namespace Simo.SimoSim

open FirstOfKey Traversal

/-- What keeps the search from going on. -/
inductive SearchFault where
  /-- `exists`, `is_directory` or `directory_iterator` throws. -/
  | filesystemError
  /-- A file is opened or read, and this never comes to an end. -/
  | waits
  /-- The test for the section ends the program. -/
  | test (fault : Fault)
deriving DecidableEq

section Loop

variable {Id Path Lib Collection : Type*}

/-- A folder of the search path at the time it is looked at, and whether the vector of collections
has to grow for its elements.  A visit gives an entry with the answers about it, or comes to what
keeps the search from getting them. -/
structure SearchFolder (Id Path Lib Collection : Type*) where
  isDirectory : Except SearchFault Bool
  visits : List (Except SearchFault (FolderEntry Id Path Lib Collection))
  grows : Bool

/-- `loadCoreModules`, whose collection lives in no library. -/
def loadCoreModules [Inhabited Path] (id : Id) (core : Collection) :
    Id × CollectionWithLib Path Lib Collection :=
  (id, ⟨default, some core, none⟩)

section Search

variable [Inhabited Path] [DecidableEq Lib]

/-- The loop of `simo_get_collection_from_folder`, as far as it gets. -/
def loadVisits (dl : Dl Lib) (collections : Elements Id Path Lib Collection) :
    List (Except SearchFault (FolderEntry Id Path Lib Collection)) →
      Except SearchFault (Option (Dl Lib × Elements Id Path Lib Collection))
  | [] => .ok (some (dl, collections))
  | .error fault :: _ => .error fault
  | .ok entry :: visits =>
      match loadEntries dl collections [entry] with
      | none => .ok none
      | some (dl, collections) => loadVisits dl collections visits

/-- `simo_get_collection_from_folder`, as far as it gets. -/
def visitFolder (dl : Dl Lib) (folder : SearchFolder Id Path Lib Collection) :
    Except SearchFault
      (Option (Dl Lib × Except GetCollectionError (Elements Id Path Lib Collection))) :=
  match folder.isDirectory with
  | .error fault => .error fault
  | .ok false => .ok (some (dl, .error ⟨.notADirectory, ""⟩))
  | .ok true =>
      (loadVisits dl [] folder.visits).map
        (Option.map fun (dl, collections) => (dl, .ok collections))

/-- The loop over the search paths.  The elements of a folder are moved to the vector, and what is
left of them is destroyed with the result. -/
def searchFolders (dl : Dl Lib) (collections : Elements Id Path Lib Collection) :
    List (SearchFolder Id Path Lib Collection) →
      Except SearchFault (Option (Dl Lib × Elements Id Path Lib Collection))
  | [] => .ok (some (dl, collections))
  | folder :: folders =>
      match visitFolder dl folder with
      | .error fault => .error fault
      | .ok none => .ok none
      | .ok (some (dl, .error _)) => searchFolders dl collections folders
      | .ok (some (dl, .ok found)) =>
          match (if folder.grows then reallocate dl collections else some (dl, collections)) with
          | none => .ok none
          | some (dl, collections) =>
              match reallocate dl found with
              | none => .ok none
              | some (dl, found) => searchFolders dl (collections ++ found) folders

end Search

/-- The questions about one folder of the search path, in the order in which they are asked. -/
def SearchFolder.inside (folder : SearchFolder Id Path Lib Collection) :
    List (Except SearchFault (FolderEntry Id Path Lib Collection)) :=
  match folder.isDirectory with
  | .error fault => [.error fault]
  | .ok false => []
  | .ok true => folder.visits

/-- The visits to the files of the search path, in their order. -/
def visitsOf (folders : List (SearchFolder Id Path Lib Collection)) :
    List (Except SearchFault (FolderEntry Id Path Lib Collection)) :=
  folders.flatMap SearchFolder.inside

/-- What a visit offers. -/
def offerOf : Except SearchFault (FolderEntry Id Path Lib Collection) →
    Option (Offer Id Path Lib Collection)
  | .error _ => none
  | .ok entry => entry.offer

/-- What the files of the search path offer, in the order in which they are visited. -/
def offersOf (folders : List (SearchFolder Id Path Lib Collection)) :
    List (Offer Id Path Lib Collection) :=
  (visitsOf folders).filterMap offerOf

/-- Every visit gets its answers. -/
def Answered (folders : List (SearchFolder Id Path Lib Collection)) : Prop :=
  ∀ visit ∈ visitsOf folders, ∃ entry, visit = .ok entry

/-- `get_collection` of all elements. -/
def collectionsOf (elements : Elements Id Path Lib Collection) : List Collection :=
  elements.filterMap fun element => element.2.collection

theorem collectionsOf_map_element (core : Id × CollectionWithLib Path Lib Collection)
    (offers : List (Offer Id Path Lib Collection)) :
    collectionsOf ([core] ++ offers.map Offer.element) =
      core.2.collection.toList ++ offers.map Offer.collection := by
  have taken : (offers.map Offer.element).filterMap (fun element => element.2.collection) =
      offers.map Offer.collection := by
    rw [List.filterMap_map]
    exact congrFun List.filterMap_eq_map offers
  rw [collectionsOf, List.filterMap_append, taken, List.filterMap_cons, List.filterMap_nil]
  cases core.2.collection <;> rfl

variable [DecidableEq Lib]

theorem holds_openAll (dl : Dl Lib) {offers : List (Offer Id Path Lib Collection)}
    (distinct : (offers.map Offer.lib).Nodup) :
    (dl.openAll offers).holds = fun lib => dl.holds lib || decide (lib ∈ offers.map Offer.lib) := by
  funext lib
  rw [Dl.holds, dl.openCount_openAll distinct, Dl.holds]
  by_cases member : lib ∈ offers.map Offer.lib
  · simp [member]
  · simp [member]

theorem openAll_append (dl : Dl Lib) (offers others : List (Offer Id Path Lib Collection)) :
    dl.openAll (offers ++ others) = (dl.openAll offers).openAll others :=
  List.foldl_append

/-- The libraries of what has been taken are held when the rest is looked at. -/
theorem firsts_append_openAll (dl : Dl Lib) (offers others : List (Offer Id Path Lib Collection)) :
    firsts Offer.lib dl.holds (offers ++ others) = firsts Offer.lib dl.holds offers ++
      firsts Offer.lib (dl.openAll (firsts Offer.lib dl.holds offers)).holds others := by
  rw [firsts_append, holds_openAll dl (nodup_map_firsts ..)]
  congr 2
  funext lib
  simp only [mem_map_firsts]
  cases dl.holds lib <;> simp

/-- What is taken of some offers, after what has been taken before. -/
def takeOffers (dl : Dl Lib) (collections : Elements Id Path Lib Collection)
    (offers : List (Offer Id Path Lib Collection)) : Dl Lib × Elements Id Path Lib Collection :=
  (dl.openAll (firsts Offer.lib dl.holds offers),
    collections ++ (firsts Offer.lib dl.holds offers).map Offer.element)

theorem takeOffers_append (dl : Dl Lib) (collections : Elements Id Path Lib Collection)
    (offers others : List (Offer Id Path Lib Collection)) :
    takeOffers dl collections (offers ++ others) =
      takeOffers (takeOffers dl collections offers).1 (takeOffers dl collections offers).2
        others := by
  simp only [takeOffers, firsts_append_openAll, openAll_append, List.map_append, List.append_assoc]

variable [Inhabited Path]

theorem reallocate_self (dl : Dl Lib) (elements : Elements Id Path Lib Collection) :
    reallocate dl elements = some (dl, elements) := by
  rw [reallocate_eq]
  exact congrArg some (Prod.ext rfl (List.map_id _))

theorem loadVisits_eq (dl : Dl Lib) (collections : Elements Id Path Lib Collection)
    (visits : List (Except SearchFault (FolderEntry Id Path Lib Collection))) :
    loadVisits dl collections visits = (visits.mapM id).map fun entries =>
      some (takeOffers dl collections (entries.filterMap FolderEntry.offer)) := by
  induction visits generalizing dl collections with
  | nil => exact congrArg Except.ok (loadEntries_eq dl collections [])
  | cons visit visits induction =>
      rw [List.mapM_cons]
      cases visit with
      | error fault => rfl
      | ok entry =>
          rw [loadVisits, loadEntries_eq]
          dsimp only
          rw [induction]
          cases visits.mapM id with
          | error fault => rfl
          | ok entries =>
              refine congrArg (fun taken => Except.ok (some taken)) ?_
              change _ = takeOffers dl collections (([entry] ++ entries).filterMap _)
              rw [List.filterMap_append, takeOffers_append]
              rfl

/-- When everything about a folder is answered, it gives what the function gives for its entries. -/
theorem visitFolder_of_answered (dl : Dl Lib) (isDirectory grows : Bool)
    (entries : List (FolderEntry Id Path Lib Collection)) :
    visitFolder dl ⟨.ok isDirectory, entries.map .ok, grows⟩ =
      .ok (simoGetCollectionFromFolder dl isDirectory entries) := by
  cases isDirectory with
  | false => rfl
  | true =>
      rw [visitFolder, simoGetCollectionFromFolder, loadVisits_eq, mapM_id_map_ok, loadEntries_eq]
      rfl

/-- The search takes the offers of all files, if it gets to the last one. -/
theorem searchFolders_eq (dl : Dl Lib) (collections : Elements Id Path Lib Collection)
    (folders : List (SearchFolder Id Path Lib Collection)) :
    searchFolders dl collections folders = ((visitsOf folders).mapM id).map fun entries =>
      some (takeOffers dl collections (entries.filterMap FolderEntry.offer)) := by
  induction folders generalizing dl collections with
  | nil => exact loadVisits_eq dl collections []
  | cons folder folders induction =>
      obtain ⟨isDirectory, visits, grows⟩ := folder
      rw [searchFolders, visitFolder, visitsOf, List.flatMap_cons, ← visitsOf, SearchFolder.inside]
      cases isDirectory with
      | error fault => rfl
      | ok isDirectory =>
          cases isDirectory with
          | false => exact induction dl collections
          | true =>
              dsimp only
              rw [loadVisits_eq, List.mapM_append]
              cases visits.mapM id with
              | error fault => rfl
              | ok entries =>
                  have grown (taken : Dl Lib) :
                      (if grows then reallocate taken collections
                        else some (taken, collections)) = some (taken, collections) := by
                    rw [reallocate_self, ite_self]
                  dsimp only [Except.map, Option.map_some]
                  rw [grown]
                  dsimp only
                  rw [reallocate_self]
                  dsimp only
                  rw [induction]
                  cases (visitsOf folders).mapM id with
                  | error fault => rfl
                  | ok later =>
                      refine congrArg (fun taken => Except.ok (some taken)) ?_
                      rw [List.filterMap_append, takeOffers_append]
                      rfl

/-- The search comes to an end when every visit gets its answers. -/
theorem searchFolders_of_answered (dl : Dl Lib) (collections : Elements Id Path Lib Collection)
    {folders : List (SearchFolder Id Path Lib Collection)} (answered : Answered folders) :
    searchFolders dl collections folders =
      .ok (some (takeOffers dl collections (offersOf folders))) := by
  obtain ⟨entries, visits⟩ := exists_eq_map_ok answered
  rw [searchFolders_eq, offersOf, visits, mapM_id_map_ok, List.filterMap_map]
  rfl

/-- The search ends early exactly at the first visit that does not get its answers.  If all of them
do, it takes each library that the files of the search path offer, unless it was held before: once,
in the order in which the files are visited, and from the first file that offers it.  What it holds
more than before are these libraries. -/
theorem searchFolders_correct (dl : Dl Lib) (collections : Elements Id Path Lib Collection)
    (folders : List (SearchFolder Id Path Lib Collection)) :
    (∀ fault, searchFolders dl collections folders = .error fault ↔
      ∃ earlier later, visitsOf folders = earlier ++ .error fault :: later ∧
        ∀ visit ∈ earlier, ∃ entry, visit = .ok entry) ∧
    (Answered folders →
      ∃ (after : Dl Lib) (taken : List (Offer Id Path Lib Collection)),
        searchFolders dl collections folders =
          .ok (some (after, collections ++ taken.map Offer.element)) ∧
        taken.Sublist (offersOf folders) ∧
        (taken.map Offer.lib).Nodup ∧
        (∀ lib, lib ∈ taken.map Offer.lib ↔
          dl.openCount lib = 0 ∧ lib ∈ (offersOf folders).map Offer.lib) ∧
        (∀ offer ∈ taken, ∃ earlier later, offersOf folders = earlier ++ offer :: later ∧
          ∀ other ∈ earlier, other.lib ≠ offer.lib) ∧
        ∀ lib, after.openCount lib =
          dl.openCount lib + if lib ∈ taken.map Offer.lib then 1 else 0) := by
  constructor
  · intro fault
    rw [searchFolders_eq, map_eq_error_iff, mapM_id_eq_error_iff]
  · intro answered
    refine ⟨_, _, searchFolders_of_answered dl collections answered, firsts_sublist ..,
      nodup_map_firsts .., fun lib => ?_, fun offer member => exists_of_mem_firsts member,
      dl.openCount_openAll (nodup_map_firsts ..)⟩
    rw [mem_map_firsts, Dl.holds, decide_eq_false_iff_not, Nat.not_lt, Nat.le_zero]

/-- A file with a library that can be loaded. -/
def loadable (collectionOf : Bool → Collection) (lib : Bool) (path : String) :
    FolderEntry ℕ String Bool Collection where
  id := path.length
  path := path
  object := ⟨true, true, some lib, false, "", none, fun _ => .ok (collectionOf lib)⟩
  grows := true

/-- A library under two names is taken once, and a folder that cannot be read ends the search. -/
theorem searchFolders_correct_unreadable :
    (∃ (after : Dl Bool) (taken : List (Offer ℕ String Bool Bool)),
      searchFolders .new [] [⟨.ok true, [.ok (loadable id true "a.so"),
          .ok (loadable id true "link.so")], true⟩] =
        .ok (some (after, taken.map Offer.element)) ∧
      (taken.map Offer.lib).Nodup ∧ ∀ lib, lib ∈ taken.map Offer.lib ↔ lib = true) ∧
    searchFolders (.new : Dl Bool) [] [⟨.ok true, [.ok (loadable id true "a.so")], true⟩,
      ⟨.ok true, [.error .filesystemError], true⟩] = .error .filesystemError := by
  constructor
  · obtain ⟨after, taken, found, -, once, libraries, -⟩ :=
      (searchFolders_correct .new [] [⟨.ok true, [.ok (loadable id true "a.so"),
        .ok (loadable id true "link.so")], true⟩]).2 fun visit member => by
          rcases List.mem_pair.mp member with rfl | rfl
          all_goals exact ⟨_, rfl⟩
    refine ⟨after, taken, found, once, fun lib => (libraries lib).trans ?_⟩
    cases lib <;> decide
  · exact ((searchFolders_correct .new [] _).1 .filesystemError).mpr
      ⟨[.ok (loadable id true "a.so")], [], rfl, fun visit member =>
        ⟨_, List.mem_singleton.mp member⟩⟩

end Loop

/-! ## The order of the files -/

section Order

variable {Task Id PortTy Ty Generic Rest : Type*} {Val : Ty → Type*}

theorem scanModules_congr (readJson : ReadJson Val Generic)
    {factoryMap other : AList fun _ : List Char => Factory Id Val}
    (same : ∀ type, factoryMap.lookup type = other.lookup type)
    (specs : List (ModuleSpec Generic)) :
    scanModules readJson factoryMap specs = scanModules readJson other specs := by
  have body : scanModule readJson factoryMap = scanModule readJson other := by
    funext scan spec
    rw [scanModule, scanModule, same]
  rw [scanModules, scanModules, body]

/-- If the types are distinct, the order of the collections makes no difference.  Otherwise the
program stops, and the order of the types that it writes is all that can differ. -/
theorem instantiate_perm (readJson : ReadJson Val Generic)
    {collections others : List (SimoCollection Id Val)} (perm : collections.Perm others)
    (config : Except String (List (ModuleSpec Generic))) :
    instantiate readJson collections config = instantiate readJson others config ∨
      ∃ types types', types.Perm types' ∧
        instantiate readJson collections config = .error (.duplicateTypes types) ∧
        instantiate readJson others config = .error (.duplicateTypes types') := by
  have factories : (allFactories collections).Perm (allFactories others) := perm.flatMap_right _
  have refused : (collectFactories collections).duplicates.Perm
      (collectFactories others).duplicates := by
    rw [collectFactories_eq, collectFactories_eq]
    exact Registry.duplicates_foldl_perm factories
  by_cases unique : (collectFactories collections).duplicates = []
  · have unique' : (collectFactories others).duplicates = [] :=
      (unique ▸ refused).nil_eq.symm
    have lookups (type : List Char) : (collectFactories collections).map.lookup type =
        (collectFactories others).map.lookup type := by
      refine Option.ext fun factory => ?_
      rw [lookup_collectFactories_iff (duplicates_collectFactories_iff.mp unique),
        lookup_collectFactories_iff (duplicates_collectFactories_iff.mp unique'),
        factories.mem_iff]
    left
    simp only [instantiate, unique, unique', ne_eq, not_true_eq_false, if_false,
      scanModules_congr readJson lookups]
  · have unique' : (collectFactories others).duplicates ≠ [] :=
      fun nothing => unique (nothing ▸ refused).eq_nil
    right
    exact ⟨_, _, refused, if_pos unique, if_pos unique'⟩

variable [DecidableEq PortTy] [DecidableEq Id] {Element Path Lib : Type*} [Inhabited Path]
  [DecidableEq Lib]

omit [Inhabited Path] [DecidableEq Lib] in
theorem main_perm (program : Program Task Id PortTy Val Generic Rest)
    {collections others : List (SimoCollection Id Val)} (perm : collections.Perm others)
    (config : Except String (Configuration Generic)) (fuel : ℕ) :
    main program collections config fuel = main program others config fuel ∨
      ∃ types types', types.Perm types' ∧
        main program collections config fuel = some (.stops (.duplicateTypes types)) ∧
        main program others config fuel = some (.stops (.duplicateTypes types')) := by
  rcases instantiate_perm program.readJson perm (config.map Configuration.modules) with
    instantiated | ⟨types, types', listed, stops, stops'⟩
  · exact .inl (by simp only [main, instantiated])
  · exact .inr ⟨types, types', listed, by simp only [main, stops], by simp only [main, stops']⟩

/-- Two libraries with a type each. -/
def libraryOf : Bool → SimoCollection ℕ fun _ : Unit => ℕ
  | false => ⟨[factoryOf "source" "out" 0]⟩
  | true => ⟨[factoryOf "sink" "in" 1]⟩

/-- A folder with both libraries, or two folders in which one of them has two names. -/
def foldersOf (linked : Bool) :
    List (SearchFolder ℕ String Bool (SimoCollection ℕ fun _ : Unit => ℕ)) :=
  let source := loadable libraryOf false
  let sink := loadable libraryOf true
  if linked then
    [⟨.ok true, [.ok (sink "link.so")], true⟩,
      ⟨.ok true, [.ok (sink "sink.so"), .ok (source "a.so")], false⟩]
  else [⟨.ok true, [.ok (source "a.so"), .ok (sink "sink.so")], true⟩]

end Order

end Simo.SimoSim
