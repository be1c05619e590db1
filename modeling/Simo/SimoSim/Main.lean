import Simo.Core.ExecutionOrder
import Simo.Core.Termination
import Simo.SimoSim.Configure
import Simo.SimoSim.Connect

/-!
# The program from the factories to the end of the simulation

`main` instantiates the modules, initializes them through the context, dumps their parameters if it
is asked to, makes the connections, and runs the simulation.  Each phase can end the program, and
the return code says which one did; a build with assertions also ends where `run_at` is called for
a time that is not later than the current one.  What the modules and their tasks do is arbitrary.
-/

namespace Simo.SimoSim

/-- `Config::Config` -/
structure Configuration (Generic : Type*) where
  modules : List (ModuleSpec Generic)
  connections : List Endpoints
  time : Time
  dumpParametersPath : Option (List Char)

/-- What modules and tasks work on, besides the context.  No function reads which modules have been
initialized. -/
structure System (Id : Type*) {Ty : Type*} (Val : Ty → Type*) (Rest : Type*) where
  moduleMap : ModuleMap Id (DerivedParameters Val)
  connections : Connections Id
  /-- The modules that have been initialized, oldest first. -/
  initialized : List (List Char)
  rest : Rest

/-- What `main` depends on besides the collections and the configuration.  The modules are known to
the context by their keys in the module map, and so are their parameters. -/
structure Program (Task Id PortTy : Type*) {Ty : Type*} (Val : Ty → Type*)
    (Generic Rest : Type*) where
  readJson : ReadJson Val Generic
  /-- The module map in the order in which the loops visit it. -/
  iterated : ModuleMap Id (DerivedParameters Val) → ModuleMap Id (DerivedParameters Val)
  iterated_perm : ∀ moduleMap, (iterated moduleMap).entries.Perm moduleMap.entries
  generic : GenericValues Val Generic
  dumpFile : List Char → DumpFile Generic
  classOf : Id → PortClass PortTy
  behaviour : Behaviour Task (List Char) (List Char) (System Id Val Rest)
  /-- Whether assertions are compiled in: `NDEBUG` is not defined. -/
  asserts : Bool
  /-- What the modules have connected when they were created. -/
  connections : Connections Id
  rest : Rest

variable {Task Id PortTy Ty Generic Rest : Type*} {Val : Ty → Type*}

/-- A behaviour with the record of the modules that it has initialized. -/
def recorded (behaviour : Behaviour Task (List Char) (List Char) (System Id Val Rest)) :
    Behaviour Task (List Char) (List Char) (System Id Val Rest) where
  call task tick system :=
    let (after, requests) := behaviour.call task tick system
    ({ after with initialized := system.initialized }, requests)
  initializeModule module parameters ctx system :=
    let (after, requests, status) := behaviour.initializeModule module parameters ctx system
    ({ after with initialized := system.initialized ++ [module] }, requests, status)

/-- The session when the context has been made and all modules have been added. -/
def setUp (program : Program Task Id PortTy Val Generic Rest)
    (moduleMap : ModuleMap Id (DerivedParameters Val)) :
    Session Task (List Char) (List Char) (System Id Val Rest) where
  ctx := moduleMap.entries.foldl (fun ctx entry => ctx.add entry.1 entry.1) .new
  world := ⟨moduleMap, program.connections, [], program.rest⟩
  scheduled := []
  executed := []

/-- `ctx.initialize()` -/
def initializeModules (program : Program Task Id PortTy Val Generic Rest)
    (moduleMap : ModuleMap Id (DerivedParameters Val)) :
    Session Task (List Char) (List Char) (System Id Val Rest) ×
      InitializationStatus (List Char) :=
  (setUp program moduleMap).initializeContext (recorded program.behaviour)

/-- The ways in which the program ends. -/
inductive Ending (Task Id : Type*) {Ty : Type*} (Val : Ty → Type*) (Rest : Type*) where
  | stops (stop : Stop)
  | initializationFailed (session : Session Task (List Char) (List Char) (System Id Val Rest))
  /-- A null pointer is used. -/
  | nullPointer (session : Session Task (List Char) (List Char) (System Id Val Rest))
  | connectionStops (stop : ConnectionStop)
      (session : Session Task (List Char) (List Char) (System Id Val Rest))
  /-- The assertion of `run_at` fails. -/
  | aborts (session : Session Task (List Char) (List Char) (System Id Val Rest))
  | completes (session : Session Task (List Char) (List Char) (System Id Val Rest))

namespace Ending

/-- What `main` returns, if it does. -/
def code : Ending Task Id Val Rest → Option ReturnCode
  | stops stop => some stop.code
  | initializationFailed _ => some .initializationFailed
  | nullPointer _ => none
  | connectionStops stop _ => some stop.error.code
  | aborts _ => none
  | completes _ => some .success

/-- The session at the end, if there is a context by then. -/
def session : Ending Task Id Val Rest →
    Option (Session Task (List Char) (List Char) (System Id Val Rest))
  | stops _ => none
  | initializationFailed session | nullPointer session | connectionStops _ session
  | aborts session | completes session => some session

theorem completes_of_code {ending : Ending Task Id Val Rest}
    (success : ending.code = some .success) : ∃ session, ending = .completes session := by
  cases ending with
  | completes session => exact ⟨session, rfl⟩
  | stops stop => cases stop <;> cases success
  | connectionStops stop session =>
      obtain ⟨error, endpoints⟩ := stop
      cases error <;> cases success
  | _ => cases success

end Ending

/-- The outcome of the dump, if one is asked for. -/
def dumpOutcome (program : Program Task Id PortTy Val Generic Rest)
    (configuration : Configuration Generic) (moduleMap : ModuleMap Id (DerivedParameters Val)) :
    Option (DumpOutcome Generic) :=
  let dumpParametersPath := configuration.dumpParametersPath.getD []
  if dumpParametersPath = [] then none
  else some (dumpParameters program.generic (program.dumpFile dumpParametersPath) moduleMap)

variable [DecidableEq PortTy] [DecidableEq Id]

/-- `main` after the initialization. -/
def simulate (program : Program Task Id PortTy Val Generic Rest)
    (configuration : Configuration Generic) (fuel : ℕ)
    (session : Session Task (List Char) (List Char) (System Id Val Rest)) :
    Option (Ending Task Id Val Rest) :=
  match dumpOutcome program configuration session.world.moduleMap with
  | some .nullPointer => some (.nullPointer session)
  | _ =>
      match connectAll program.classOf session.world.moduleMap session.world.connections
          configuration.connections with
      | none => some (.nullPointer session)
      | some (.error stop) => some (.connectionStops stop session)
      | some (.ok connections) =>
          let session :=
            { session with world := { session.world with connections := connections } }
          if program.asserts = true ∧ ¬ session.ctx.currentTime < configuration.time then
            some (.aborts session)
          else
            (session.runAt (recorded program.behaviour) fuel configuration.time).map
              fun result => .completes result.1

/-- `main`, with a bound on the passes of the loop of `run_at`. -/
def main (program : Program Task Id PortTy Val Generic Rest)
    (collections : List (SimoCollection Id Val)) (config : Except String (Configuration Generic))
    (fuel : ℕ) : Option (Ending Task Id Val Rest) :=
  match instantiate program.readJson collections (config.map Configuration.modules), config with
  | .error stop, _ => some (.stops stop)
  | .ok _, .error error => some (.stops (.invalidConfigFile error))
  | .ok moduleMap, .ok configuration =>
      let (session, status) := initializeModules program (program.iterated moduleMap)
      if !status.success then some (.initializationFailed session)
      else simulate program configuration fuel session

/-! ## The phases -/

section Phases

variable {program : Program Task Id PortTy Val Generic Rest}
  {collections : List (SimoCollection Id Val)} {config : Except String (Configuration Generic)}
  {configuration : Configuration Generic} {moduleMap : ModuleMap Id (DerivedParameters Val)}
  {fuel : ℕ} {ending : Ending Task Id Val Rest}

/-- The module map that the loop over the specifications makes. -/
def instantiatedMap (program : Program Task Id PortTy Val Generic Rest)
    (collections : List (SimoCollection Id Val)) (configuration : Configuration Generic) :
    ModuleMap Id (DerivedParameters Val) :=
  program.iterated (scanModules program.readJson (collectFactories collections).map
    configuration.modules).modules.map

/-- The types and the names of a configuration with which the modules can be instantiated. -/
structure Instantiable (collections : List (SimoCollection Id Val))
    (specs : List (ModuleSpec Generic)) : Prop where
  distinctTypes : TypesDistinct collections
  known : ¬ UnknownType collections specs
  distinctNames : (specs.map ModuleSpec.name).Nodup

omit [DecidableEq PortTy] [DecidableEq Id] in
theorem instantiate_of_instantiable (program : Program Task Id PortTy Val Generic Rest)
    (instantiable : Instantiable collections configuration.modules) :
    ∃ moduleMap, instantiate program.readJson collections (.ok configuration.modules) =
        .ok moduleMap ∧
      program.iterated moduleMap = instantiatedMap program collections configuration := by
  have unique := (duplicates_scanModules_iff program.readJson instantiable.known).mpr
    instantiable.distinctNames
  refine ⟨_, ?_, rfl⟩
  rw [instantiate_of_known instantiable.distinctTypes instantiable.known,
    if_neg (not_not.mpr unique)]

omit [DecidableEq PortTy] [DecidableEq Id] in
theorem instantiable_of_instantiate
    (instantiated : instantiate program.readJson collections (.ok configuration.modules) =
      .ok moduleMap) :
    Instantiable collections configuration.modules ∧
      program.iterated moduleMap = instantiatedMap program collections configuration := by
  have running {code : ReturnCode} : ¬ StopsWith code
      (instantiate program.readJson collections (.ok configuration.modules)) := by
    rintro ⟨stop, stopped, -⟩
    cases stopped.symm.trans instantiated
  have distinctTypes : TypesDistinct collections := by
    by_contra duplicate
    exact running (stopsWith_of_duplicateTypes duplicate)
  have known : ¬ UnknownType collections configuration.modules := fun unknown =>
    running (stopsWith_of_unknownType distinctTypes unknown)
  have distinctNames : (configuration.modules.map ModuleSpec.name).Nodup := by
    rw [← duplicates_scanModules_iff program.readJson known]
    by_contra duplicate
    rw [instantiate_of_known distinctTypes known, if_pos duplicate] at instantiated
    cases instantiated
  have instantiable : Instantiable collections configuration.modules :=
    ⟨distinctTypes, known, distinctNames⟩
  obtain ⟨other, again, map⟩ := instantiate_of_instantiable program instantiable
  obtain rfl := Except.ok.inj (instantiated.symm.trans again)
  exact ⟨instantiable, map⟩

/-- Unless `main` stops before there is a context, it initializes the modules of the
configuration. -/
theorem main_cases (ended : main program collections config fuel = some ending) :
    (∃ stop, ending = .stops stop) ∨
      ∃ configuration, config = .ok configuration ∧
        Instantiable collections configuration.modules ∧
        ((initializeModules program (instantiatedMap program collections configuration)).2.success =
            false ∧
          ending = .initializationFailed
            (initializeModules program (instantiatedMap program collections configuration)).1 ∨
        (initializeModules program (instantiatedMap program collections configuration)).2.success =
            true ∧
          simulate program configuration fuel
            (initializeModules program (instantiatedMap program collections configuration)).1 =
              some ending) := by
  cases instantiated : instantiate program.readJson collections
      (config.map Configuration.modules) with
  | error stop =>
      simp only [main, instantiated] at ended
      exact .inl ⟨stop, (Option.some.inj ended).symm⟩
  | ok moduleMap =>
      cases config with
      | error error =>
          simp only [main, instantiated] at ended
          exact .inl ⟨_, (Option.some.inj ended).symm⟩
      | ok configuration =>
          obtain ⟨instantiable, map⟩ := instantiable_of_instantiate instantiated
          refine .inr ⟨configuration, rfl, instantiable, ?_⟩
          simp only [main, instantiated, map] at ended
          split at ended
          next failed => exact .inl ⟨by simpa using failed, (Option.some.inj ended).symm⟩
          next succeeded => exact .inr ⟨by simpa using succeeded, ended⟩

theorem main_of_initializes (fuel : ℕ)
    (instantiable : Instantiable collections configuration.modules)
    (initializes : (initializeModules program
      (instantiatedMap program collections configuration)).2.success = true) :
    main program collections (.ok configuration) fuel = simulate program configuration fuel
      (initializeModules program (instantiatedMap program collections configuration)).1 := by
  obtain ⟨moduleMap, instantiated, map⟩ :=
    instantiate_of_instantiable program instantiable
  simp only [main, Except.map, instantiated, map, initializes, Bool.not_true, Bool.false_eq_true,
    if_false]

/-- The session in which the simulation starts. -/
def connectedSession (session : Session Task (List Char) (List Char) (System Id Val Rest))
    (connections : Connections Id) :
    Session Task (List Char) (List Char) (System Id Val Rest) :=
  { session with world := { session.world with connections := connections } }

theorem simulate_of_connects (fuel : ℕ)
    {session : Session Task (List Char) (List Char) (System Id Val Rest)}
    {connections : Connections Id}
    (advances : program.asserts = true → session.ctx.currentTime < configuration.time)
    (dumps : dumpOutcome program configuration session.world.moduleMap ≠ some .nullPointer)
    (connected : connectAll program.classOf session.world.moduleMap session.world.connections
      configuration.connections = some (.ok connections)) :
    simulate program configuration fuel session =
      ((connectedSession session connections).runAt (recorded program.behaviour) fuel
        configuration.time).map fun result => .completes result.1 := by
  rw [simulate]
  split
  next crashes => exact (dumps crashes).elim
  next =>
    rw [connected]
    exact if_neg fun ⟨compiled, passed⟩ => passed (advances compiled)

theorem simulate_cases {session : Session Task (List Char) (List Char) (System Id Val Rest)}
    (ended : simulate program configuration fuel session = some ending) :
    ending = .nullPointer session ∨ (∃ stop, ending = .connectionStops stop session) ∨
      ∃ connections, connectAll program.classOf session.world.moduleMap session.world.connections
          configuration.connections = some (.ok connections) ∧
        (ending = .aborts (connectedSession session connections) ∨
          dumpOutcome program configuration session.world.moduleMap ≠ some .nullPointer ∧
          (program.asserts = true → session.ctx.currentTime < configuration.time) ∧
          ∃ result, (connectedSession session connections).runAt (recorded program.behaviour) fuel
            configuration.time = some result ∧ ending = .completes result.1) := by
  rw [simulate] at ended
  split at ended
  next => exact .inl (Option.some.inj ended).symm
  next dumps =>
    split at ended
    next => exact .inl (Option.some.inj ended).symm
    next stop _ => exact .inr (.inl ⟨stop, (Option.some.inj ended).symm⟩)
    next connections connected =>
      refine .inr (.inr ⟨connections, connected, ?_⟩)
      dsimp only at ended
      split at ended
      next => exact .inl (Option.some.inj ended).symm
      next passed =>
        obtain ⟨result, returned, rfl⟩ := Option.map_eq_some_iff.mp ended
        exact .inr ⟨dumps, fun compiled => not_not.mp fun late => passed ⟨compiled, late⟩, result,
          returned, rfl⟩

end Phases

/-! ## Successful runs -/

section Success

variable {program : Program Task Id PortTy Val Generic Rest}
  {collections : List (SimoCollection Id Val)} {configuration : Configuration Generic}

/-- The modules can be instantiated and are initialized, the dump uses no null pointer, all
connections can be made, and the time meets the assertion of `run_at` if there is one. -/
structure Ready (program : Program Task Id PortTy Val Generic Rest)
    (collections : List (SimoCollection Id Val)) (configuration : Configuration Generic) :
    Prop where
  instantiable : Instantiable collections configuration.modules
  initializes :
    (initializeModules program (instantiatedMap program collections configuration)).2.success = true
  dumps : dumpOutcome program configuration
    (initializeModules program
      (instantiatedMap program collections configuration)).1.world.moduleMap ≠ some .nullPointer
  joinable : ∀ endpoints ∈ configuration.connections, Joinable program.classOf
    (initializeModules program
      (instantiatedMap program collections configuration)).1.world.moduleMap endpoints
  advances : program.asserts = true → .zero < configuration.time

/-- In the simulation that the program runs, tasks schedule for later ticks. -/
def TasksAsserted (program : Program Task Id PortTy Val Generic Rest)
    (collections : List (SimoCollection Id Val)) (configuration : Configuration Generic) : Prop :=
  ∀ session connections,
    session = (initializeModules program (instantiatedMap program collections configuration)).1 →
    connectAll program.classOf session.world.moduleMap session.world.connections
      configuration.connections = some (.ok connections) →
    (connectedSession session connections).RunAsserted (recorded program.behaviour)
      configuration.time

omit [DecidableEq PortTy] [DecidableEq Id] in
/-- The modules of the map are added to a new context. -/
theorem setUp_eq (program : Program Task Id PortTy Val Generic Rest)
    (moduleMap : ModuleMap Id (DerivedParameters Val)) :
    setUp program moduleMap =
      { ctx :=
          { (Context.new : Context Task (List Char) (List Char)) with
            modules := moduleMap.keys.map fun key => (key, key) }
        world := ⟨moduleMap, program.connections, [], program.rest⟩
        scheduled := []
        executed := [] } := by
  have added (entries : List (Sigma fun _ : List Char =>
        ModuleParameterPair Id (DerivedParameters Val)))
      (ctx : Context Task (List Char) (List Char)) :
      entries.foldl (fun ctx entry => ctx.add entry.1 entry.1) ctx =
        { ctx with
          modules := ctx.modules ++ (entries.map Sigma.fst).map fun key => (key, key) } := by
    induction entries generalizing ctx with
    | nil => simp
    | cons entry entries induction =>
        rw [List.foldl_cons, induction]
        simp [Context.add]
  rw [setUp, added]
  rfl

omit [DecidableEq PortTy] [DecidableEq Id] in
theorem currentTime_initializeModules (program : Program Task Id PortTy Val Generic Rest)
    (moduleMap : ModuleMap Id (DerivedParameters Val)) :
    (initializeModules program moduleMap).1.ctx.currentTime = .zero := by
  have kept := Session.currentTime_initializeContext (recorded program.behaviour)
    (setUp program moduleMap)
  rw [initializeModules, kept, setUp_eq]
  rfl

theorem named_empty : ParameterTrie.Named (.empty : ParameterTrie fun _ : Unit => ℕ) :=
  ParameterTrie.Built.empty.named

/-- A module without parameters, with one port. -/
def factoryOf (type port : String) (id : ℕ) : Factory ℕ fun _ : Unit => ℕ where
  name := type.toList
  getModule _ := .mk [] (.singleton port.toList id) []
  getParameters _ := ⟨⟨.empty, []⟩, none, named_empty⟩

/-- A type with an out port, and one with an in port for the same payload. -/
def collectionsOfPorts : List (SimoCollection ℕ fun _ : Unit => ℕ) :=
  [⟨[factoryOf "source" "out" 0, factoryOf "sink" "in" 1]⟩]

/-- Modules that schedule one task each when they are initialized, which schedules itself again and
again. -/
def demonstration : Program Unit ℕ ℕ (fun _ : Unit => ℕ) (Option ℕ) Unit where
  readJson := readNaturals
  iterated moduleMap := moduleMap
  iterated_perm _ := .refl _
  generic := naturals
  dumpFile _ := ⟨true, fun _ => true⟩
  classOf := fork
  behaviour :=
    { call := fun _ _ system => (system, [.scheduleIn ⟨1⟩ ()])
      initializeModule := fun module _ _ system =>
        (system, [.scheduleAt ⟨5⟩ ()], .ok (some module)) }
  asserts := true
  connections := .new
  rest := ()

/-- Two modules, to be connected as given. -/
def twoModules (endpoints : Endpoints) : Configuration (Option ℕ) where
  modules := [⟨"a".toList, "source".toList, []⟩, ⟨"b".toList, "sink".toList, []⟩]
  connections := [endpoints]
  time := ⟨10⟩
  dumpParametersPath := some "dump.yaml".toList

/-- No tick up to the final time overflows. -/
theorem tasksAsserted_demonstration (endpoints : Endpoints) :
    TasksAsserted demonstration collectionsOfPorts (twoModules endpoints) := by
  intro session connections _ _
  have finite : (twoModules endpoints).time < (twoModules endpoints).time + ⟨1⟩ := by
    change (⟨10⟩ : Time) < ⟨10⟩ + ⟨1⟩
    decide
  refine Session.runAsserted_of_later ?_ _
  intro task tick system due request member
  rw [List.mem_singleton.mp member]
  exact Time.lt_add_one due finite

end Success

/-! ## What has been done when the program ends -/

section Done

variable {behaviour : Behaviour Task (List Char) (List Char) (System Id Val Rest)}
  {session next final : Session Task (List Char) (List Char) (System Id Val Rest)}
  {finalTime : Time}

omit [DecidableEq Id] in
/-- The modules of the context are initialized one after the other. -/
theorem initialized_initializeModules
    (behaviour : Behaviour Task (List Char) (List Char) (System Id Val Rest))
    (modules : List (List Char × List Char))
    (progress : Session Task (List Char) (List Char) (System Id Val Rest) ×
      InitializationStatus (List Char)) :
    (modules.foldl (Session.initializeModule (recorded behaviour)) progress).1.world.initialized =
      progress.1.world.initialized ++ modules.map Prod.fst := by
  induction modules generalizing progress with
  | nil => simp
  | cons entry modules induction =>
      rw [List.foldl_cons, induction, Session.initializeModule, Session.world_requests]
      simp [recorded]

omit [DecidableEq Id] in
/-- Tasks initialize no modules. -/
theorem initialized_callTasks (tick : Time) (tasks : List Task) :
    (tasks.foldl (Session.callTask (recorded behaviour) tick) session).world.initialized =
      session.world.initialized := by
  induction tasks generalizing session with
  | nil => rfl
  | cons task tasks induction =>
      rw [List.foldl_cons, induction, Session.callTask, Session.world_requests]
      rfl

/-- What holds of a session between two passes of the loop of `run_at`. -/
structure Underway (finalTime : Time) (modules : List (List Char))
    (session : Session Task (List Char) (List Char) (System Id Val Rest)) : Prop where
  consistent : session.Consistent
  chronological : session.Chronological
  inOrder : session.InOrder
  started : session.ctx.state ≠ .initialization
  within : session.ctx.currentTime ≤ finalTime
  initialized : session.world.initialized = modules

/-- What holds of a session when `run_at` has returned: the schedule calls that are due have been
made, in time order, and the modules have been initialized before. -/
structure Simulated (finalTime : Time) (modules : List (List Char))
    (session : Session Task (List Char) (List Char) (System Id Val Rest)) : Prop where
  executed : session.executed = StableSort.sortBy Prod.fst
    (session.scheduled.filter fun entry => entry.1 ≤ finalTime)
  clock : session.ctx.currentTime ≤ finalTime
  initialized : session.world.initialized = modules

variable {modules : List (List Char)}

omit [DecidableEq Id] in
theorem Underway.pass (underway : Underway finalTime modules session)
    (asserted : (recorded behaviour).MeetsAssertion session.ctx.nextTick
      (session.ctx.tasksAt session.ctx.nextTick) session.world)
    (passes : session.loopBody (recorded behaviour) finalTime = .inl next) :
    Underway finalTime modules next := by
  obtain ⟨consistent, chronological, inOrder, started, within, initialized⟩ := underway
  obtain ⟨still, -, clock⟩ := chronological.pass consistent started asserted passes
  refine ⟨consistent.pass started asserted passes, still, inOrder.pass asserted passes,
    (Session.state_pass passes).trans_ne started, clock, ?_⟩
  obtain ⟨-, -, rfl⟩ := Session.loopBody_inl passes
  exact (initialized_callTasks _ _).trans initialized

omit [DecidableEq Id] in
theorem Underway.returns {status : RunStatus} (underway : Underway finalTime modules session)
    (returns : session.loopBody (recorded behaviour) finalTime = .inr (final, status)) :
    Simulated finalTime modules final := by
  obtain ⟨consistent, chronological, inOrder, started, within, initialized⟩ := underway
  have beyond := chronological.beyond_of_returns consistent started returns
  have past : ∀ entry ∈ session.executed, entry.1 ≤ finalTime := fun entry called =>
    (chronological.past entry called).trans within
  rcases Session.loopBody_inr returns with ⟨-, -, rfl⟩ | ⟨-, -, -, rfl⟩
  · exact ⟨Session.InOrder.executed_eq inOrder chronological.sorted past beyond, within,
      initialized⟩
  · exact ⟨Session.InOrder.executed_eq inOrder chronological.sorted past beyond, le_rfl,
      initialized⟩

omit [DecidableEq Id] in
theorem simulated_of_returns {status : RunStatus}
    (asserted : session.LoopAsserted (recorded behaviour) finalTime)
    (underway : Underway finalTime modules session)
    (returned : Loop.Returns (Session.loopBody (recorded behaviour) finalTime) session
      (final, status)) :
    Simulated finalTime modules final := by
  generalize outcome : (final, status) = stopped at returned
  induction returned using Loop.Returns.induction with
  | done session stopped returns =>
      subst outcome
      exact underway.returns returns
  | again session next stopped passes _ induction =>
      exact induction (asserted.rest passes) (underway.pass (asserted.here passes) passes) outcome

omit [DecidableEq Id] in
/-- The connections do not matter to the context, nor does the state once it has left the
initialization. -/
theorem Underway.begin (underway : Underway finalTime modules session)
    (connections : Connections Id) :
    Underway finalTime modules
      { connectedSession session connections with
        ctx := { session.ctx with state := .running } } := by
  obtain ⟨consistent, chronological, inOrder, started, within, initialized⟩ := underway
  have leaves : State.running ≠ .initialization := nofun
  have running := consistent.withState started leaves session.ctx.currentTime
  have still := chronological.withState leaves
  exact ⟨⟨running.conserved, running.synced⟩, ⟨still.timely, still.sorted, still.past⟩, inOrder,
    nofun, within, initialized⟩

omit [DecidableEq Id] in
/-- Where the initialization is over, `run_at` simulates up to its final time. -/
theorem simulated_of_runAt {connections : Connections Id}
    (asserted : (connectedSession session connections).RunAsserted (recorded behaviour) finalTime)
    (underway : Underway finalTime modules session) {fuel : ℕ}
    {result : Session Task (List Char) (List Char) (System Id Val Rest) ×
      Except (InitializationStatus (List Char)) RunStatus}
    (returned : (connectedSession session connections).runAt (recorded behaviour) fuel finalTime =
      some result) :
    Simulated finalTime modules result.1 := by
  have startedConnected : (connectedSession session connections).ctx.state ≠ .initialization :=
    underway.started
  have begins := Session.beginRun_of_started (recorded behaviour) startedConnected
  rw [Session.runAt, begins] at returned
  obtain ⟨⟨final, status⟩, finished, rfl⟩ := Option.map_eq_some_iff.mp returned
  exact simulated_of_returns (asserted _ begins) (underway.begin connections) ⟨fuel, finished⟩

omit [DecidableEq PortTy] [DecidableEq Id] in
/-- What the initialization leaves behind: nothing has been called and the clock is at zero. -/
theorem of_initializeModules (program : Program Task Id PortTy Val Generic Rest)
    (moduleMap : ModuleMap Id (DerivedParameters Val)) :
    (initializeModules program moduleMap).1.executed = [] ∧
      (initializeModules program moduleMap).1.ctx.currentTime = .zero ∧
      ∀ finalTime, Underway finalTime moduleMap.keys (initializeModules program moduleMap).1 := by
  have fresh := setUp_eq program moduleMap
  have waiting : (setUp program moduleMap).ctx.state = .initialization := by rw [fresh]; rfl
  have consistent : (setUp program moduleMap).Consistent := by
    rw [fresh]
    exact (Session.consistent_new _).withModules _
  have chronological : (setUp program moduleMap).Chronological := by
    rw [fresh]
    exact (Session.chronological_new _).withModules _
  have inOrder : (setUp program moduleMap).InOrder := by
    rw [fresh]
    exact fun _ => rfl
  have clock := currentTime_initializeModules program moduleMap
  have initialized := initialized_initializeModules program.behaviour
    (setUp program moduleMap).ctx.modules (setUp program moduleMap, .ok none)
  refine ⟨?_, clock, fun finalTime =>
    ⟨consistent.initializeContext waiting _, chronological.initializeContext consistent waiting _,
      inOrder.initializeContext _, Session.started_initializeContext _ _,
      clock.trans_le (Time.zero_le _), ?_⟩⟩
  · exact (Session.schedules_initializeModules (recorded program.behaviour)
      (setUp program moduleMap).ctx.modules (setUp program moduleMap, .ok none)).2
  · refine initialized.trans ?_
    rw [fresh]
    simp [Function.comp_def]

end Done

/-! ## The simulation -/

section Simulation

variable {program : Program Task Id PortTy Val Generic Rest}
  {collections : List (SimoCollection Id Val)} {config : Except String (Configuration Generic)}
  {fuel : ℕ} {ending : Ending Task Id Val Rest}

omit [DecidableEq PortTy] [DecidableEq Id] in
theorem keys_instantiatedMap {configuration : Configuration Generic}
    (instantiable : Instantiable collections configuration.modules) :
    (instantiatedMap program collections configuration).keys.Perm
      (configuration.modules.map ModuleSpec.name) :=
  ((program.iterated_perm _).map Sigma.fst).trans
    (instantiates_of_distinct instantiable.distinctTypes
      (lookup_ne_none_of_known instantiable.known) instantiable.distinctNames).keys

/-- If the program gets as far as the initialization and ends before the simulation, with another
return code, at a null pointer or at the assertion of `run_at`, every module of the configuration
has been initialized once, no task has been called, and the clock has not moved. -/
theorem main_initializes_once (ended : main program collections config fuel = some ending)
    {session : Session Task (List Char) (List Char) (System Id Val Rest)}
    (reached : ending.session = some session) (incomplete : ending.code ≠ some .success) :
    session.executed = [] ∧ session.ctx.currentTime = .zero ∧
      ∃ configuration, config = .ok configuration ∧
        session.world.initialized.Perm (configuration.modules.map ModuleSpec.name) := by
  rcases main_cases ended with ⟨stop, rfl⟩ | ⟨configuration, rfl, instantiable, phases⟩
  · cases reached
  obtain ⟨executed, clock, underway⟩ := of_initializeModules program
    (instantiatedMap program collections configuration)
  have initialized := (underway .zero).initialized
  have keys : (instantiatedMap program collections configuration).keys.Perm
      (configuration.modules.map ModuleSpec.name) := keys_instantiatedMap instantiable
  have names := initialized ▸ keys
  have left : session =
        (initializeModules program (instantiatedMap program collections configuration)).1 ∨
      ∃ connections, session = connectedSession
        (initializeModules program (instantiatedMap program collections configuration)).1
          connections := by
    rcases phases with ⟨-, rfl⟩ | ⟨-, simulated⟩
    · exact .inl (Option.some.inj reached).symm
    · rcases simulate_cases simulated with rfl | ⟨stop, rfl⟩ |
        ⟨connections, -, rfl | ⟨-, -, result, -, rfl⟩⟩
      · exact .inl (Option.some.inj reached).symm
      · exact .inl (Option.some.inj reached).symm
      · exact .inr ⟨connections, (Option.some.inj reached).symm⟩
      · exact (incomplete rfl).elim
  rcases left with rfl | ⟨connections, rfl⟩
  · exact ⟨executed, clock, configuration, rfl, names⟩
  · exact ⟨executed, clock, configuration, rfl, names⟩

theorem main_initializes_once_demonstration :
    ∃ ending session, main demonstration collectionsOfPorts
        (.ok (twoModules ("a/out".toList, "b/out".toList))) 3 = some ending ∧
      ending.code = some .invalidConnection ∧ ending.session = some session ∧
      session.executed = [] ∧ session.ctx.currentTime = .zero ∧
      ∃ configuration, Except.ok (twoModules ("a/out".toList, "b/out".toList)) =
          (.ok configuration : Except String (Configuration (Option ℕ))) ∧
        session.world.initialized.Perm (configuration.modules.map ModuleSpec.name) := by
  have code : (main demonstration collectionsOfPorts
      (.ok (twoModules ("a/out".toList, "b/out".toList))) 3).map Ending.code =
        some (some .invalidConnection) := by
    decide +kernel
  obtain ⟨ending, ended, failed⟩ := Option.map_eq_some_iff.mp code
  cases ending with
  | connectionStops stop session =>
      exact ⟨_, session, ended, failed, rfl, main_initializes_once ended rfl (failed ▸ nofun)⟩
  | stops stop => cases stop <;> cases failed
  | _ => cases failed

/-- A program that completes, with tasks that schedule for later ticks, has called the tasks that
were scheduled for no later than the configured time, in the order of their ticks, those for the
same tick in the order in which they were scheduled, after it has initialized every module of the
configuration once. -/
theorem main_simulates
    (asserted : ∀ configuration, config = .ok configuration →
      TasksAsserted program collections configuration)
    {session : Session Task (List Char) (List Char) (System Id Val Rest)}
    (ended : main program collections config fuel = some (.completes session)) :
    ∃ configuration, config = .ok configuration ∧
      session.world.initialized.Perm (configuration.modules.map ModuleSpec.name) ∧
      session.executed = StableSort.sortBy Prod.fst
        (session.scheduled.filter fun entry => entry.1 ≤ configuration.time) ∧
      session.ctx.currentTime ≤ configuration.time := by
  rcases main_cases ended with ⟨stop, other⟩ |
    ⟨configuration, rfl, instantiable, ⟨-, other⟩ | ⟨-, simulated⟩⟩
  · cases other
  · cases other
  rcases simulate_cases simulated with other | ⟨stop, other⟩ |
    ⟨connections, connected, other | ⟨-, -, result, returned, same⟩⟩
  · cases other
  · cases other
  · cases other
  cases same
  obtain ⟨-, -, underway⟩ := of_initializeModules program
    (instantiatedMap program collections configuration)
  obtain ⟨executed, clock, initialized⟩ :=
    simulated_of_runAt (asserted configuration rfl _ connections rfl connected)
      (underway configuration.time) returned
  exact ⟨configuration, rfl, initialized ▸ keys_instantiatedMap instantiable, executed, clock⟩

theorem main_simulates_demonstration :
    ∃ session, main demonstration collectionsOfPorts
        (.ok (twoModules ("a/out".toList, "b/in".toList))) 7 = some (.completes session) ∧
      ∃ configuration, Except.ok (twoModules ("a/out".toList, "b/in".toList)) =
          (.ok configuration : Except String (Configuration (Option ℕ))) ∧
        session.world.initialized.Perm (configuration.modules.map ModuleSpec.name) ∧
        session.executed = StableSort.sortBy Prod.fst
          (session.scheduled.filter fun entry => entry.1 ≤ configuration.time) ∧
        session.ctx.currentTime ≤ configuration.time := by
  have code : (main demonstration collectionsOfPorts
      (.ok (twoModules ("a/out".toList, "b/in".toList))) 7).map Ending.code =
        some (some .success) := by
    decide +kernel
  obtain ⟨ending, ended, success⟩ := Option.map_eq_some_iff.mp code
  obtain ⟨session, rfl⟩ := Ending.completes_of_code success
  exact ⟨session, ended, main_simulates
    (fun _ read => Except.ok.inj read ▸ tasksAsserted_demonstration _) ended⟩

end Simulation

end Simo.SimoSim
