import Simo.Collection.SectionTest
import Simo.SimoSim.Search

/-!
# The search over the contents of files

Whether a file has the section of collections is found out by reading it.  The search with these
tests comes to the libraries that the contents of the files decide, however the reads are
transferred, unless a question to the file system has no answer, a file keeps the search waiting or
a buffer cannot be allocated; then it ends at the first file for which this happens.
-/

namespace Simo

open Bytes FirstOfKey Traversal
open SimoSim (SearchFault SearchFolder searchFolders visitsOf takeOffers)

/-- What is picked of a list keeps its order. -/
theorem map_filterMap_sublist {α β γ : Type*} {pick : α → Option β} {name : β → γ} {key : α → γ}
    (same : ∀ x y, pick x = some y → name y = key x) (xs : List α) :
    ((xs.filterMap pick).map name).Sublist (xs.map key) := by
  induction xs with
  | nil => exact List.Sublist.refl _
  | cons x xs induction =>
      rw [List.filterMap_cons, List.map_cons]
      cases picked : pick x with
      | none => exact induction.cons _
      | some y =>
          rw [List.map_cons, same x y picked]
          exact induction.cons_cons _

section Test

variable {Lib Collection : Type*}

/-- What comes of opening a file. -/
inductive Opened where
  | fails
  | regular (file : RegularFile)
  /-- A folder, a pipe or a device, with what the test of it comes to.  A pipe that nobody writes to
  is never opened, for example. -/
  | special (answer : Except SearchFault Bool)

/-- What the system answers about a path, without the answer of the test. -/
structure ObjectFile (Lib Collection : Type*) where
  /-- The answer of `exists`, which throws for a loop of links, for example. -/
  fileExists : Except SearchFault Bool
  opened : Opened
  /-- How the reads are transferred. -/
  kernel : ℕ → ℕ → Transfer
  library : Option Lib
  residentElsewhere : Bool
  dlopenError : String
  collectionFunctionName : Option String
  lookupFunction : String → Except String Collection

/-- The answers together with those of the first condition. -/
def ObjectFile.sharedObject (file : ObjectFile Lib Collection) (fileExists hasSection : Bool) :
    SharedObject Lib Collection where
  fileExists := fileExists
  hasSection := hasSection
  library := file.library
  residentElsewhere := file.residentElsewhere
  dlopenError := file.dlopenError
  collectionFunctionName := file.collectionFunctionName
  lookupFunction := file.lookupFunction

/-- `object_file_has_section_named` -/
def objectFileHasSectionNamed (order : Order) (grants : ℕ → Bool) (opened : Opened)
    (kernel : ℕ → ℕ → Transfer) (sectionName : List UInt8) : Except SearchFault Bool :=
  match opened with
  | .fails => .ok false
  | .regular file =>
      (objectFileHasSectionNamedImpl order kernel grants file sectionName).result.mapError .test
  | .special answer => answer

/-- The bytes of `SIMO_COLLECTION_SECTION_STR`, which is `.Simo.collection`. -/
def simoCollectionSection : List UInt8 :=
  [0x2e, 0x53, 0x69, 0x6d, 0x6f, 0x2e, 0x63, 0x6f, 0x6c, 0x6c, 0x65, 0x63, 0x74, 0x69, 0x6f, 0x6e]

/-- The first condition of `simo_get_collection`: a path that does not exist is not tested. -/
def ObjectFile.tested (order : Order) (grants : ℕ → Bool) (file : ObjectFile Lib Collection) :
    Except SearchFault (SharedObject Lib Collection) :=
  match file.fileExists with
  | .error fault => .error fault
  | .ok false => .ok (file.sharedObject false false)
  | .ok true =>
      (objectFileHasSectionNamed order grants file.opened file.kernel simoCollectionSection).map
        (file.sharedObject true)

end Test

variable {Id Path Lib Collection : Type*}

structure FileEntry (Id Path Lib Collection : Type*) where
  id : Id
  path : Path
  file : ObjectFile Lib Collection
  grows : Bool

def FileEntry.tested (order : Order) (grants : ℕ → Bool)
    (entry : FileEntry Id Path Lib Collection) :
    Except SearchFault (FolderEntry Id Path Lib Collection) :=
  (entry.file.tested order grants).map fun object => ⟨entry.id, entry.path, object, entry.grows⟩

/-- A visit of the iteration over a folder, with the test of the file. -/
def testVisit (order : Order) (grants : ℕ → Bool)
    (visit : Except SearchFault (FileEntry Id Path Lib Collection)) :
    Except SearchFault (FolderEntry Id Path Lib Collection) :=
  visit.bind (FileEntry.tested order grants)

/-- A folder of the search path, and whether the vector of collections has to grow for it.  The
iteration can throw instead of coming to the next file. -/
structure FileFolder (Id Path Lib Collection : Type*) where
  isDirectory : Except SearchFault Bool
  files : List (Except SearchFault (FileEntry Id Path Lib Collection))
  grows : Bool

/-- The folder with the tests of its files. -/
def FileFolder.tested (order : Order) (grants : ℕ → Bool)
    (folder : FileFolder Id Path Lib Collection) : SearchFolder Id Path Lib Collection where
  isDirectory := folder.isDirectory
  visits := folder.files.map (testVisit order grants)
  grows := folder.grows

/-- The loop over the search paths with the tests. -/
def searchFiles [Inhabited Path] [DecidableEq Lib] (order : Order) (grants : ℕ → Bool) (dl : Dl Lib)
    (collections : Elements Id Path Lib Collection)
    (folders : List (FileFolder Id Path Lib Collection)) :
    Except SearchFault (Option (Dl Lib × Elements Id Path Lib Collection)) :=
  searchFolders dl collections (folders.map (FileFolder.tested order grants))

/-- The questions about one folder of the search path, in the order in which they are asked. -/
def FileFolder.inside (folder : FileFolder Id Path Lib Collection) :
    List (Except SearchFault (FileEntry Id Path Lib Collection)) :=
  match folder.isDirectory with
  | .error fault => [.error fault]
  | .ok false => []
  | .ok true => folder.files

/-- The files of the search path in the order in which they are visited. -/
def filesOf (folders : List (FileFolder Id Path Lib Collection)) :
    List (Except SearchFault (FileEntry Id Path Lib Collection)) :=
  folders.flatMap FileFolder.inside

theorem visitsOf_map_tested (order : Order) (grants : ℕ → Bool)
    (folders : List (FileFolder Id Path Lib Collection)) :
    visitsOf (folders.map (FileFolder.tested order grants)) =
      (filesOf folders).map (testVisit order grants) := by
  rw [visitsOf, filesOf, List.flatMap_map, List.map_flatMap]
  refine congrArg (fun inside => folders.flatMap inside) (funext fun folder => ?_)
  rw [FileFolder.tested, SearchFolder.inside, FileFolder.inside]
  cases folder.isDirectory with
  | error fault => rfl
  | ok isDirectory => cases isDirectory <;> rfl

theorem filesOf_single (files : List (Except SearchFault (FileEntry Id Path Lib Collection)))
    (grows : Bool) : filesOf [⟨.ok true, files, grows⟩] = files :=
  List.append_nil files

/-! ## What the contents decide -/

/-- The file is an ELF64 file with the section, if it can be opened. -/
def ObjectFile.HasSection (order : Order) (file : ObjectFile Lib Collection) : Prop :=
  match file.opened with
  | .fails => False
  | .regular opened => Simo.HasSection order opened.bytes simoCollectionSection
  | .special answer => answer = .ok true

/-- The questions about the file have answers, and the buffers for testing it can be allocated. -/
structure ObjectFile.Answered (order : Order) (grants : ℕ → Bool)
    (file : ObjectFile Lib Collection) : Prop where
  asked : ∃ present, file.fileExists = .ok present
  regular : file.fileExists = .ok true → ∀ opened, file.opened = .regular opened →
    Allocatable order grants opened.bytes
  special : file.fileExists = .ok true → ∀ answer, file.opened = .special answer →
    ∃ found, answer = .ok found

/-- The collection of a library can be had from the file, if the library is not loaded. -/
structure FileEntry.Offers (order : Order) (entry : FileEntry Id Path Lib Collection) (lib : Lib)
    (collection : Collection) : Prop where
  tested : entry.file.fileExists = .ok true → entry.file.HasSection order
  free : entry.file.residentElsewhere = false
  library : entry.file.library = some lib
  collection : entry.file.lookupFunction
    (entry.file.collectionFunctionName.getD collectionFunctionNameDefault) = .ok collection

section Contents

variable {order : Order} {grants : ℕ → Bool}

theorem answered_of_regular {file : ObjectFile Lib Collection} {present : Bool}
    {opened : RegularFile} (asked : file.fileExists = .ok present)
    (opens : file.opened = .regular opened) (allocatable : Allocatable order grants opened.bytes) :
    file.Answered order grants where
  asked := ⟨present, asked⟩
  regular _ other opens' := by
    cases opens.symm.trans opens'
    exact allocatable
  special _ answer opens' := by cases opens.symm.trans opens'

open Classical in
/-- The test answers what the contents of the file say. -/
theorem objectFileHasSectionNamed_of_answered {file : ObjectFile Lib Collection}
    (answered : file.Answered order grants) (present : file.fileExists = .ok true) :
    objectFileHasSectionNamed order grants file.opened file.kernel simoCollectionSection =
      .ok (decide (file.HasSection order)) := by
  rw [ObjectFile.HasSection]
  cases opens : file.opened with
  | fails => simp [objectFileHasSectionNamed]
  | regular opened =>
      have plain : 0 ∉ simoCollectionSection := by decide
      obtain ⟨found, result, iff⟩ := result_of_allocatable file.kernel plain
        (answered.regular present opened opens)
      dsimp only [objectFileHasSectionNamed]
      rw [result]
      refine congrArg Except.ok ?_
      rw [Bool.eq_iff_iff, iff, decide_eq_true_iff]
  | special answer =>
      obtain ⟨found, rfl⟩ := answered.special present answer opens
      cases found <;> simp [objectFileHasSectionNamed]

open Classical in
/-- The entry of a folder with the answers that the contents of the file give. -/
noncomputable def FileEntry.judged (order : Order) (entry : FileEntry Id Path Lib Collection) :
    FolderEntry Id Path Lib Collection where
  id := entry.id
  path := entry.path
  object := entry.file.sharedObject (decide (entry.file.fileExists = .ok true))
    (decide (entry.file.fileExists = .ok true ∧ entry.file.HasSection order))
  grows := entry.grows

open Classical in
theorem tested_of_answered {entry : FileEntry Id Path Lib Collection}
    (answered : entry.file.Answered order grants) :
    entry.tested order grants = .ok (entry.judged order) := by
  rw [FileEntry.tested, FileEntry.judged, ObjectFile.tested]
  obtain ⟨present, asked⟩ := answered.asked
  cases present with
  | false => simp [asked, Except.map]
  | true =>
      have found : decide (entry.file.fileExists = .ok true ∧ entry.file.HasSection order) =
          decide (entry.file.HasSection order) := by simp [asked]
      rw [found, asked, objectFileHasSectionNamed_of_answered answered asked]
      simp [Except.map]

theorem offer_sharedObject_iff {file : ObjectFile Lib Collection} {present found : Bool} {lib : Lib}
    {collection : Collection} :
    (file.sharedObject present found).offer = some (lib, collection) ↔
      (present = true → found = true) ∧ file.residentElsewhere = false ∧
        file.library = some lib ∧
        file.lookupFunction (file.collectionFunctionName.getD collectionFunctionNameDefault) =
          .ok collection := by
  have listed (object : SharedObject Lib Collection) :
      object.offer = some (lib, collection) ↔
        ¬ (object.fileExists && !object.hasSection) = true ∧ object.residentElsewhere = false ∧
          object.library = some lib ∧ object.collection = .ok collection := by
    rw [SharedObject.offer]
    split
    next plain => simp [plain]
    next passes =>
      split
      next resident => simp [resident]
      next free =>
        rw [and_iff_right passes, and_iff_right (Bool.not_eq_true _ ▸ free)]
        cases object.library <;> cases object.collection <;> simp
  rw [listed]
  change (¬ (present && !found) = true ∧ _) ↔ _
  cases present <;> cases found <;> simp [ObjectFile.sharedObject, SharedObject.collection]

open Classical in
theorem offer_judged_iff {entry : FileEntry Id Path Lib Collection}
    {offer : Offer Id Path Lib Collection} :
    (entry.judged order).offer = some offer ↔
      entry.id = offer.id ∧ entry.path = offer.path ∧
        entry.Offers order offer.lib offer.collection := by
  rw [FolderEntry.offer, Option.map_eq_some_iff]
  constructor
  · rintro ⟨⟨lib, collection⟩, offered, rfl⟩
    obtain ⟨passes, free, library, function⟩ := offer_sharedObject_iff.mp offered
    exact ⟨rfl, rfl, fun present => (of_decide_eq_true (passes (decide_eq_true present))).2, free,
      library, function⟩
  · rintro ⟨sameId, samePath, offers⟩
    refine ⟨(offer.lib, offer.collection), offer_sharedObject_iff.mpr ⟨fun present =>
      decide_eq_true ⟨of_decide_eq_true present, offers.tested (of_decide_eq_true present)⟩,
      offers.free, offers.library, offers.collection⟩, ?_⟩
    cases offer
    cases sameId
    cases samePath
    rfl

/-- What the files offer according to their contents, in the order in which they are visited. -/
noncomputable def offersIn (order : Order) (files : List (FileEntry Id Path Lib Collection)) :
    List (Offer Id Path Lib Collection) :=
  files.filterMap fun entry => (entry.judged order).offer

variable {files : List (FileEntry Id Path Lib Collection)}

theorem mem_map_lib_offersIn {lib : Lib} :
    lib ∈ (offersIn order files).map Offer.lib ↔
      ∃ entry ∈ files, ∃ collection, entry.Offers order lib collection := by
  simp only [offersIn, List.mem_map, List.mem_filterMap, offer_judged_iff]
  constructor
  · rintro ⟨offer, ⟨entry, member, -, -, offers⟩, rfl⟩
    exact ⟨entry, member, _, offers⟩
  · rintro ⟨entry, member, collection, offers⟩
    exact ⟨⟨entry.id, entry.path, lib, collection⟩, ⟨entry, member, rfl, rfl, offers⟩, rfl⟩

/-- If no offer of its library comes before an offer, no file before its file offers the library. -/
theorem exists_file_of_first {before after : List (Offer Id Path Lib Collection)}
    {offer : Offer Id Path Lib Collection} (split : offersIn order files = before ++ offer :: after)
    (others : ∀ other ∈ before, other.lib ≠ offer.lib) :
    ∃ earlier entry later, files = earlier ++ entry :: later ∧
      entry.id = offer.id ∧ entry.path = offer.path ∧
      entry.Offers order offer.lib offer.collection ∧
      ∀ other ∈ earlier, ∀ collection, ¬ other.Offers order offer.lib collection := by
  obtain ⟨front, back, rfl, rfl, rest⟩ := List.filterMap_eq_append_iff.mp split
  obtain ⟨skipped, entry, later, rfl, silent, offered, -⟩ := List.filterMap_eq_cons_iff.mp rest
  obtain ⟨sameId, samePath, offers⟩ := offer_judged_iff.mp offered
  refine ⟨front ++ skipped, entry, later, (List.append_assoc ..).symm, sameId, samePath, offers, ?_⟩
  intro other inside collection earlier
  have found : (other.judged order).offer = some ⟨other.id, other.path, offer.lib, collection⟩ :=
    offer_judged_iff.mpr ⟨rfl, rfl, earlier⟩
  rcases List.mem_append.mp inside with first | second
  · exact others _ (List.mem_filterMap.mpr ⟨other, first, found⟩) rfl
  · cases (silent other second).symm.trans found

/-- What the visits give if all files have answers. -/
theorem visits_of_answered (answered : ∀ entry ∈ files, entry.file.Answered order grants) :
    (files.map .ok).map (testVisit order grants) =
      (files.map (FileEntry.judged order)).map .ok := by
  rw [List.map_map, List.map_map]
  exact List.map_congr_left fun entry member => tested_of_answered (answered entry member)

variable [Inhabited Path] [DecidableEq Lib]

/-- A file with a section for collections. -/
def collectionFile : RegularFile :=
  ⟨smallBytes [17, 0, 0, 0, 0, 0, 0, 0] (simoCollectionSection ++ [0]), by decide +kernel⟩

/-- A file that can be loaded as a library. -/
def loadableFile (opened : Opened) (lib : Bool) (path : String) : FileEntry ℕ String Bool Bool where
  id := path.length
  path := path
  file := ⟨.ok true, opened, slowKernel, some lib, false, "", none, fun _ => .ok lib⟩
  grows := true

/-- A folder, and two libraries of which one has the section. -/
def mixedFolder : List (FileEntry ℕ String Bool Bool) :=
  [loadableFile (.special (.ok false)) true "folder", loadableFile (.regular smallFile) true "b.so",
    loadableFile (.regular collectionFile) false "a.so"]

theorem answered_mixedFolder :
    ∀ entry ∈ mixedFolder, entry.file.Answered .little (fun _ => true) := by
  have granted (bytes : List UInt8)
      (fits : (nameTable .little bytes).size ≤ Scan.maxSize 1) :
      Allocatable .little (fun _ => true) bytes := ⟨fun _ => rfl, fun _ _ _ => ⟨fits, rfl⟩⟩
  rw [mixedFolder, List.forall_mem_cons, List.forall_mem_cons, List.forall_mem_singleton]
  refine ⟨⟨⟨true, rfl⟩, nofun, ?_⟩,
    answered_of_regular rfl rfl (granted smallFile.bytes (by decide +kernel)),
    answered_of_regular rfl rfl (granted collectionFile.bytes (by decide +kernel))⟩
  rintro - answer same
  cases same
  exact ⟨false, rfl⟩

theorem hasSection_collectionFile :
    HasSection .little collectionFile.bytes simoCollectionSection := by
  refine ⟨⟨?_, ?_, ?_, ?_, ?_, ?_⟩, ?_, ?_, ?_, 0, ?_, ?_, ?_⟩ <;> decide +kernel

theorem not_hasSection_smallFile : ¬ HasSection .little smallFile.bytes simoCollectionSection := by
  rintro ⟨-, -, -, -, named⟩
  revert named
  simp only [StartsWithString]
  decide +kernel

end Contents

end Simo
