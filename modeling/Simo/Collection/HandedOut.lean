import Simo.Collection.Ownership

/-!
# Collections that are handed out

An object gives access to its collection, which lies in the library that the object keeps open.  A
move construction hands the library over and leaves the pointer to the collection behind, while a
move assignment leaves nothing.  So the pointers of live objects lead into open libraries, and both
kinds of moves leave the same, exactly as long as no object with a collection is moved by
construction.
-/

namespace Simo

variable {Id Path Lib Collection : Type*}

/-- What the collection function of a file returns, or why there is none. -/
def SharedObject.collection (object : SharedObject Lib Collection) : Except String Collection :=
  object.lookupFunction (object.collectionFunctionName.getD collectionFunctionNameDefault)

section Loading

variable [DecidableEq Lib]

/-- What a call that succeeds has loaded. -/
theorem simoGetCollection_ok {dl after : Dl Lib} {path : Path}
    {object : SharedObject Lib Collection} {loaded : CollectionWithLib Path Lib Collection}
    (returns : simoGetCollection dl path object = some (after, .ok loaded)) :
    ∃ lib collection, object.library = some lib ∧ object.collection = .ok collection ∧
      after = dl.dlopen lib ∧ loaded = ⟨path, some collection, some lib⟩ := by
  rw [simoGetCollection] at returns
  split at returns
  next => cases returns
  next =>
    split at returns
    next => rw [Dl.dlclose_dlopen] at returns; cases returns
    next =>
      split at returns
      next => cases returns
      next lib found =>
        dsimp only at returns
        split at returns
        next => rw [Dl.dlclose_dlopen] at returns; cases returns
        next collection result =>
          obtain ⟨rfl, same⟩ := Prod.mk.inj (Option.some.inj returns)
          exact ⟨lib, collection, found, result, rfl, (Except.ok.inj same).symm⟩

end Loading

namespace Loader

variable [DecidableEq Id] [Inhabited Path] [DecidableEq Lib]
  {loader next : Loader Id Path Lib Collection}

/-- Move assignment gives back what its target held, unless an object is assigned to itself. -/
theorem Owned.of_perform_moveAssign {id source : Id} (owned : loader.Owned)
    (performed : loader.perform (.moveAssign id source) = some next) :
    (id = source ∧ next = loader) ∨
      ∃ other dl, id ≠ source ∧ loader.objects.lookup source = some other ∧
        (∀ lib, dl.openCount lib ≤ loader.dl.openCount lib) ∧
        next = ⟨dl, (loader.objects.insert source ⟨default, none, none⟩).insert id other⟩ := by
  rw [perform] at performed
  split at performed
  next same => exact .inl ⟨same, (Option.some.inj performed).symm⟩
  next apart =>
    obtain ⟨object, held, rest⟩ := Option.bind_eq_some_iff.mp performed
    obtain ⟨other, found, moved⟩ := Option.bind_eq_some_iff.mp rest
    obtain ⟨dl, destroyed, balance⟩ := owned.exists_destroy held
    rw [CollectionWithLib.moveAssign_eq, destroyed] at moved
    exact .inr ⟨other, dl, apart, found, fun lib => Nat.le.intro (balance lib),
      (Option.some.inj moved).symm⟩

theorem Owned.of_perform_destroy {id : Id} (owned : loader.Owned)
    (performed : loader.perform (.destroy id) = some next) :
    ∃ dl, (∀ lib, dl.openCount lib ≤ loader.dl.openCount lib) ∧
      next = ⟨dl, loader.objects.erase id⟩ := by
  obtain ⟨object, live, rest⟩ := Option.bind_eq_some_iff.mp performed
  obtain ⟨dl, destroyed, balance⟩ := owned.exists_destroy live
  rw [destroyed] at rest
  exact ⟨dl, fun lib => Nat.le.intro (balance lib), (Option.some.inj rest).symm⟩

end Loader

/-! ## Libraries that have been closed -/

/-- The loaded libraries and the live objects, with a record that no function reads: the libraries
that have been closed.  A file that is loaded again after its library has been closed is another
library. -/
structure Lending (Id Path Lib Collection : Type*) where
  loader : Loader Id Path Lib Collection
  closed : Lib → Bool

namespace Lending

variable (home : Collection → Option Lib)

/-- The collection function of a library returns a collection that lies in this library or outside
of all loaded ones. -/
def Native (object : SharedObject Lib Collection) : Prop :=
  match object.collection with
  | .ok collection => home collection = none ∨ home collection = object.library
  | .error _ => True

instance Native.decidable [DecidableEq Lib] (object : SharedObject Lib Collection) :
    Decidable (Native home object) :=
  match result : object.collection with
  | .ok collection =>
      decidable_of_iff (home collection = none ∨ home collection = object.library)
        (by rw [Native, result])
  | .error _ => .isTrue (by rw [Native, result]; trivial)

variable [DecidableEq Id] [DecidableEq Lib]

/-- Nothing is loaded and nothing has been closed. -/
def new : Lending Id Path Lib Collection := ⟨.new, fun _ => false⟩

/-- Calls of `simo_get_collection` for single files, moves and destructions. -/
def Enabled (lending : Lending Id Path Lib Collection) :
    CollectionEvent Id Path Lib Collection → Prop
  | .getCollection id path object =>
      lending.loader.Enabled (.getCollection id path object) ∧ Native home object ∧
        object.library.all (fun lib => !lending.closed lib) = true
  | .moveConstruct id source => lending.loader.Enabled (.moveConstruct id source)
  | .moveAssign id source => lending.loader.Enabled (.moveAssign id source)
  | .destroy id => lending.loader.Enabled (.destroy id)
  | .construct _ _ _ | .getCollectionFromFolder _ _ => False

instance Enabled.decidable (lending : Lending Id Path Lib Collection) :
    ∀ event, Decidable (lending.Enabled home event)
  | .getCollection id path object =>
      inferInstanceAs (Decidable (lending.loader.Enabled (.getCollection id path object) ∧
        Native home object ∧ object.library.all (fun lib => !lending.closed lib) = true))
  | .moveConstruct id source =>
      inferInstanceAs (Decidable (lending.loader.Enabled (.moveConstruct id source)))
  | .moveAssign id source =>
      inferInstanceAs (Decidable (lending.loader.Enabled (.moveAssign id source)))
  | .destroy id => inferInstanceAs (Decidable (lending.loader.Enabled (.destroy id)))
  | .construct _ _ _ | .getCollectionFromFolder _ _ => .isFalse id

omit [DecidableEq Lib] in
theorem Enabled.loader {lending : Lending Id Path Lib Collection}
    {event : CollectionEvent Id Path Lib Collection} (enabled : lending.Enabled home event) :
    lending.loader.Enabled event := by
  cases event with
  | getCollection => exact enabled.1
  | moveConstruct | moveAssign | destroy => exact enabled
  | construct | getCollectionFromFolder => exact enabled.elim

variable {home}
variable {before after lending : Lending Id Path Lib Collection}
  {event : CollectionEvent Id Path Lib Collection}

/-- The libraries that collections of live objects lie in are open. -/
def Belongs (home : Collection → Option Lib) (lending : Lending Id Path Lib Collection) : Prop :=
  ∀ id object collection lib, lending.loader.objects.lookup id = some object →
    object.collection = some collection → home collection = some lib → lending.closed lib = false

/-- Only objects without a collection are moved by construction. -/
def MovesEmpty (step : Transition (Lending Id Path Lib Collection)
    (CollectionEvent Id Path Lib Collection)) : Prop :=
  ∀ id source other, step.label = .moveConstruct id source →
    step.source.loader.objects.lookup source = some other → other.collection = none

/-- A collection in a loaded library comes with the handle of this library. -/
def Together (home : Collection → Option Lib)
    (object : CollectionWithLib Path Lib Collection) : Prop :=
  ∀ collection lib, object.collection = some collection → home collection = some lib →
    object.libHandle = some lib

/-- Collections come with the handles of their libraries, and libraries that have been closed are
not held. -/
structure Kept (home : Collection → Option Lib) (lending : Lending Id Path Lib Collection) :
    Prop where
  owned : lending.loader.Owned
  together : ∀ id object, lending.loader.objects.lookup id = some object → Together home object
  shut : ∀ lib, lending.closed lib = true → lending.loader.dl.openCount lib = 0

theorem kept_new : Kept home (new : Lending Id Path Lib Collection) where
  owned := Loader.owned_new
  together _ _ found := by cases found
  shut _ isClosed := by cases isClosed

theorem Kept.belongs (kept : lending.Kept home) : lending.Belongs home := by
  intro id object collection lib live points inside
  rw [← Bool.not_eq_true]
  intro isClosed
  have held : 0 < lending.loader.holders lib :=
    AList.census_pos live (kept.together id object live collection lib points inside)
  rw [← kept.owned.counted, kept.shut lib isClosed] at held
  exact lt_irrefl 0 held

variable [Inhabited Path]

/-- Carry out an event and record what it closes. -/
def perform (lending : Lending Id Path Lib Collection)
    (event : CollectionEvent Id Path Lib Collection) : Option (Lending Id Path Lib Collection) :=
  (lending.loader.perform event).map fun loader =>
    ⟨loader, fun lib => lending.closed lib ||
      (decide (0 < lending.loader.dl.openCount lib) && decide (loader.dl.openCount lib = 0))⟩

/-- One event. -/
def Moves (home : Collection → Option Lib) (before : Lending Id Path Lib Collection)
    (event : CollectionEvent Id Path Lib Collection) (after : Lending Id Path Lib Collection) :
    Prop :=
  before.Enabled home event ∧ before.perform event = some after

/-- The source of a move is left without path, collection and library. -/
def LeavesMovedFrom (step : Transition (Lending Id Path Lib Collection)
    (CollectionEvent Id Path Lib Collection)) : Prop :=
  match step.label with
  | .moveConstruct _ source =>
      step.target.loader.objects.lookup source = some ⟨default, none, none⟩
  | .moveAssign id source =>
      id ≠ source → step.target.loader.objects.lookup source = some ⟨default, none, none⟩
  | _ => True

theorem loader_of_perform (performed : before.perform event = some after) :
    before.loader.perform event = some after.loader := by
  obtain ⟨loader, carried, rfl⟩ := Option.map_eq_some_iff.mp performed
  exact carried

theorem Kept.owned_perform (kept : before.Kept home) (step : Moves home before event after) :
    after.loader.Owned := by
  obtain ⟨loader, performed, owned⟩ := kept.owned.exists_perform event step.1.loader
  rw [loader_of_perform step.2] at performed
  exact Option.some.inj performed ▸ owned

/-- What has been closed stays closed as long as its references do not grow. -/
theorem Kept.shut_perform (kept : before.Kept home) (performed : before.perform event = some after)
    (fewer : ∀ lib, before.closed lib = true →
      after.loader.dl.openCount lib ≤ before.loader.dl.openCount lib) :
    ∀ lib, after.closed lib = true → after.loader.dl.openCount lib = 0 := by
  obtain ⟨loader, -, rfl⟩ := Option.map_eq_some_iff.mp performed
  intro lib isClosed
  rcases Bool.or_eq_true _ _ |>.mp isClosed with old | fresh
  · exact Nat.le_zero.mp (kept.shut lib old ▸ fewer lib old)
  · exact of_decide_eq_true (Bool.and_eq_true _ _ |>.mp fresh).2

/-- What an event does that can happen.  Either it fails or assigns an object to itself, and leaves
everything alone, or it loads a library, moves an object or destroys one. -/
theorem Moves.cases (kept : before.Kept home) (step : Moves home before event after) :
    (after.loader = before.loader ∧ (∀ id source, event ≠ .moveConstruct id source) ∧
        ∀ id source, event = .moveAssign id source → id = source) ∨
      (∃ id path object lib collection, event = .getCollection id path object ∧
        before.closed lib = false ∧ (home collection = none ∨ home collection = some lib) ∧
        after.loader = ⟨before.loader.dl.dlopen lib,
          before.loader.objects.insert id ⟨path, some collection, some lib⟩⟩) ∨
      (∃ id source other, event = .moveConstruct id source ∧ id ≠ source ∧
        before.loader.objects.lookup source = some other ∧
        after.loader = ⟨before.loader.dl, (before.loader.objects.insert source
          ⟨default, other.collection, none⟩).insert id other⟩) ∨
      (∃ id source other dl, event = .moveAssign id source ∧ id ≠ source ∧
        before.loader.objects.lookup source = some other ∧
        (∀ lib, dl.openCount lib ≤ before.loader.dl.openCount lib) ∧
        after.loader = ⟨dl, (before.loader.objects.insert source
          ⟨default, none, none⟩).insert id other⟩) ∨
      ∃ id dl, event = .destroy id ∧
        (∀ lib, dl.openCount lib ≤ before.loader.dl.openCount lib) ∧
        after.loader = ⟨dl, before.loader.objects.erase id⟩ := by
  obtain ⟨enabled, performed⟩ := step
  have performed := loader_of_perform performed
  cases event with
  | construct | getCollectionFromFolder => exact enabled.elim
  | getCollection id path object =>
      obtain ⟨⟨dl, result⟩, returns, result_eq⟩ := Option.map_eq_some_iff.mp performed
      cases result with
      | error error =>
          left
          rcases simoGetCollection_spec before.loader.dl path object with
            ⟨_, failed⟩ | ⟨_, _, _, loaded⟩
          · cases failed.symm.trans returns
            refine ⟨result_eq.symm, fun _ _ constructs => ?_, fun _ _ assigns => ?_⟩
            · cases constructs
            · cases assigns
          · cases loaded.symm.trans returns
      | ok loaded =>
          right; left
          obtain ⟨lib, collection, found, given, rfl, rfl⟩ := simoGetCollection_ok returns
          obtain ⟨-, native, fresh⟩ := enabled
          rw [found] at fresh
          rw [Native, given, found] at native
          exact ⟨id, path, object, lib, collection, rfl, by simpa using fresh, native,
            result_eq.symm⟩
  | moveConstruct id source =>
      right; right; left
      obtain ⟨absent, -⟩ := enabled
      obtain ⟨other, found, result⟩ := Option.map_eq_some_iff.mp performed
      refine ⟨id, source, other, rfl, ?_, found, result.symm⟩
      rintro rfl
      cases absent.symm.trans found
  | moveAssign id source =>
      rcases kept.owned.of_perform_moveAssign performed with
        ⟨same, unchanged⟩ | ⟨other, dl, apart, found, fewer, moved⟩
      · refine .inl ⟨unchanged, fun _ _ constructs => ?_, ?_⟩
        · cases constructs
        · rintro _ _ ⟨⟩
          exact same
      · right; right; right; left
        exact ⟨id, source, other, dl, rfl, apart, found, fewer, moved⟩
  | destroy id =>
      right; right; right; right
      obtain ⟨dl, fewer, destroyed⟩ := kept.owned.of_perform_destroy performed
      exact ⟨id, dl, rfl, fewer, destroyed⟩

/-- Every event keeps collections and handles together, unless it leaves a collection behind. -/
theorem Kept.step (kept : before.Kept home) (step : Moves home before event after)
    (empty : MovesEmpty ⟨before, event, after⟩) : after.Kept home := by
  have owned := kept.owned_perform step
  have shut := kept.shut_perform step.2
  rcases step.cases kept with ⟨same, -⟩ |
    ⟨id, path, object, lib, collection, -, fresh, native, same⟩ |
    ⟨id, source, other, rfl, apart, found, same⟩ |
    ⟨id, source, other, dl, rfl, apart, found, fewer, same⟩ | ⟨id, dl, rfl, fewer, same⟩
  · exact ⟨owned, by rw [same]; exact kept.together, shut fun lib _ => by rw [same]⟩
  · refine ⟨owned, ?_, shut fun other isClosed => ?_⟩
    · rw [same]
      refine AList.forall_lookup_insert kept.together ?_
      intro given inside points lies
      obtain rfl := Option.some.inj points
      rcases native with outside | native
      · cases outside.symm.trans lies
      · rw [← lies, native]
    · rw [same, Dl.openCount_dlopen, if_neg, Nat.add_zero]
      rintro rfl
      cases fresh.symm.trans isClosed
  · refine ⟨owned, ?_, shut fun lib _ => by rw [same]⟩
    rw [same]
    refine AList.forall_lookup_insert (AList.forall_lookup_insert kept.together ?_)
      (kept.together source other found)
    intro collection lib points
    rw [empty id source other rfl found] at points
    cases points
  · refine ⟨owned, ?_, shut fun lib _ => by rw [same]; exact fewer lib⟩
    rw [same]
    exact AList.forall_lookup_insert (AList.forall_lookup_insert kept.together nofun)
      (kept.together source other found)
  · refine ⟨owned, ?_, shut fun lib _ => by rw [same]; exact fewer lib⟩
    rw [same]
    intro other object live
    exact kept.together other object (AList.lookup_of_lookup_erase live).2

/-- An event leaves the source of a move empty if and only if it does not construct from an object
with a collection. -/
theorem leavesMovedFrom_iff (kept : before.Kept home) (step : Moves home before event after) :
    LeavesMovedFrom ⟨before, event, after⟩ ↔ MovesEmpty ⟨before, event, after⟩ := by
  rcases step.cases kept with ⟨-, noConstruction, noMove⟩ | ⟨_, _, _, _, _, rfl, -⟩ |
    ⟨id, source, other, rfl, apart, found, same⟩ |
    ⟨id, source, other, dl, rfl, apart, found, -, same⟩ | ⟨_, _, rfl, -⟩
  · refine iff_of_true ?_ fun id source _ constructs => (noConstruction id source constructs).elim
    cases event with
    | moveConstruct id source => exact (noConstruction id source rfl).elim
    | moveAssign id source => exact fun apart => (apart (noMove id source rfl)).elim
    | _ => trivial
  · exact iff_of_true trivial nofun
  · have left : after.loader.objects.lookup source = some ⟨default, other.collection, none⟩ := by
      rw [same, AList.lookup_insert_ne (Ne.symm apart), AList.lookup_insert]
    constructor
    · rintro empty _ _ again ⟨⟩ live
      obtain rfl := Option.some.inj (found.symm.trans live)
      exact congrArg CollectionWithLib.collection (Option.some.inj (left.symm.trans empty))
    · intro empty
      rw [empty id source other rfl found] at left
      exact left
  · refine iff_of_true (fun _ => ?_) nofun
    rw [same, AList.lookup_insert_ne (Ne.symm apart), AList.lookup_insert]
  · exact iff_of_true trivial nofun

/-- In every history of calls that load single files, of moves and of destructions: collections of
live objects lie in open libraries and both kinds of moves leave their sources in the same state,
after each step, if and only if no object with a collection is moved by construction. -/
theorem belongs_throughout_iff {steps : List (Transition (Lending Id Path Lib Collection)
      (CollectionEvent Id Path Lib Collection))}
    (history : StepPath (Moves home) .new steps lending) :
    (∀ step ∈ steps, step.target.Belongs home ∧ LeavesMovedFrom step) ↔
      ∀ step ∈ steps, MovesEmpty step := by
  have auxiliary : (fun _ : Lending Id Path Lib Collection => True) .new := trivial
  refine history.forall_step_iff auxiliary (kept_new : Kept home .new) (fun _ _ _ _ _ => trivial)
    (fun _ _ _ _ step kept good => kept.step step ((leavesMovedFrom_iff kept step).mp good.2)) ?_
  intro before event after _ step kept
  constructor
  · exact fun good => (leavesMovedFrom_iff kept step).mp good.2
  · exact fun empty => ⟨(kept.step step empty).belongs, (leavesMovedFrom_iff kept step).mpr empty⟩

theorem moves_of_guarded (home : Collection → Option Lib) (before : Lending Id Path Lib Collection)
    (event : CollectionEvent Id Path Lib Collection) (after : Lending Id Path Lib Collection)
    (performed : StepPath.guarded (Enabled home) perform before event = some after) :
    Moves home before event after :=
  StepPath.of_guarded before event after performed

/-- Two libraries, an assignment that closes one of them, and a construction from what it leaves. -/
theorem belongs_throughout_iff_assigned :
    ∃ steps, ∃ lending : Lending ℕ ℕ ℕ ℕ, StepPath (Moves some) .new steps lending ∧
      steps.map Transition.label = [.getCollection 0 7 (Loader.loadable 3),
        .getCollection 1 8 (Loader.loadable 4), .moveAssign 1 0, .moveConstruct 2 0,
        .destroy 1] ∧
      [3, 4].map lending.closed = [true, true] ∧
      ((∀ step ∈ steps, step.target.Belongs some ∧ LeavesMovedFrom step) ↔
        ∀ step ∈ steps, MovesEmpty step) := by
  obtain ⟨steps, lending, history, labels, closed⟩ :=
    StepPath.exists_of_checked (moves_of_guarded some) (new : Lending ℕ ℕ ℕ ℕ)
      [.getCollection 0 7 (Loader.loadable 3), .getCollection 1 8 (Loader.loadable 4),
        .moveAssign 1 0, .moveConstruct 2 0, .destroy 1]
      (fun lending => [3, 4].map lending.closed = [true, true]) (by decide)
  exact ⟨steps, lending, history, labels, closed, belongs_throughout_iff history⟩

/-- An object is moved by construction and the new one is destroyed: the old one is alive and its
collection lies in a library that has been closed. -/
theorem not_belongs_moved :
    ∃ steps, ∃ lending : Lending ℕ ℕ ℕ ℕ, StepPath (Moves some) .new steps lending ∧
      steps.map Transition.label = [.getCollection 0 7 (Loader.loadable 3), .moveConstruct 1 0,
        .destroy 1] ∧
      lending.loader.objects.lookup 0 = some ⟨0, some 3, none⟩ ∧ ¬ lending.Belongs some := by
  obtain ⟨steps, lending, history, labels, left, closed⟩ :=
    StepPath.exists_of_checked (moves_of_guarded some) (new : Lending ℕ ℕ ℕ ℕ)
      [.getCollection 0 7 (Loader.loadable 3), .moveConstruct 1 0, .destroy 1]
      (fun lending => (lending.loader.objects.lookup 0).map (fun object =>
        (object.path, object.collection, object.libHandle)) = some (0, some 3, none) ∧
        lending.closed 3 = true) (by decide)
  obtain ⟨object, live, same⟩ := Option.map_eq_some_iff.mp left
  obtain ⟨path, collection, libHandle⟩ := object
  obtain ⟨rfl, rest⟩ := Prod.mk.inj same
  obtain ⟨rfl, rfl⟩ := Prod.mk.inj rest
  refine ⟨steps, lending, history, labels, live, fun belongs => ?_⟩
  cases (belongs 0 _ 3 3 live rfl rfl).symm.trans closed

end Lending
end Simo
