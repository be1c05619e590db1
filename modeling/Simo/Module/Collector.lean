import Simo.Core.Scheduling
import Simo.Module.Parameters

/-!
# Collectors

A `Collector` is a module that samples other modules of its context.  It picks them while it is
initialized, by matching their names against a regular expression, and a module has no name before
its own `Module::initialize`.  What it picks is therefore the modules whose name matches at that
moment: the configured name of the modules added before the collector, and the empty name of those
added after it.
-/

namespace Simo

/-! ## Modules -/

/-- Types of parameters: those that the library reads itself, and those of a program. -/
inductive ParameterType (Ty : Type*) where
  | time
  | string
  | user (type : Ty)
deriving DecidableEq

/-- Values of a parameter. -/
abbrev ParameterType.Value {Ty : Type*} (Val : Ty → Type) : ParameterType Ty → Type
  | time => Time
  | string => List Char
  | user type => Val type

/-- The attributes of the modules of a program. -/
structure ModuleStore (ModuleRef Rest : Type*) where
  /-- `Module::name_`. -/
  name_ : ModuleRef → List Char
  /-- `Collector::modules`, for the modules that are collectors. -/
  collected : ModuleRef → List ModuleRef
  /-- `Collector::dump_path`. -/
  dumpPath : ModuleRef → List Char
  /-- Everything else. -/
  rest : Rest

/-- Modules that have been constructed and not yet initialized. -/
def ModuleStore.constructed {ModuleRef Rest : Type*} (rest : Rest) :
    ModuleStore ModuleRef Rest where
  name_ _ := []
  collected _ := []
  dumpPath _ := []
  rest := rest

variable {Ty ModuleRef Task Rest : Type*} {Val : Ty → Type} [DecidableEq ModuleRef]

/-- `Module::initialize`: take the name and check the parameters. -/
def Module.initializeModule (module : ModuleRef) (parameters : Parameters (ParameterType.Value Val))
    (store : ModuleStore ModuleRef Rest) :
    ModuleStore ModuleRef Rest × InitializationStatus ModuleRef :=
  ({ store with name_ := Function.update store.name_ module parameters.name_ },
    if parameters.check then .ok (some module)
    else .ofErrors (some module) ["Parameter check failed"])

/-- What modules schedule. -/
inductive ModuleTask (ModuleRef Task : Type*) where
  | openWindow (collector : ModuleRef)
  | closeWindow (collector : ModuleRef)
  | user (task : Task)
deriving DecidableEq

namespace Collector

def startTimeName : List Char := "start_time".toList

def endTimeName : List Char := "end_time".toList

def moduleMatchRegexName : List Char := "module_match_regex".toList

def dumpPathName : List Char := "dump_path".toList

/-- The validator of `end_time`: the value of `start_time`, set or not, is less. -/
def endsAfterStart (readings : Readings (ParameterType.Value Val)) (endTime : Time) : Bool :=
  match readings startTimeName with
  | some ⟨.time, _, startTime⟩ => startTime < endTime
  | _ => false

/-- Parameters of a collector: the four that its constructor adds are there. -/
structure Parameters (Val : Ty → Type) [DecidableEq Ty] extends
    Simo.Parameters (ParameterType.Value Val) where
  startTime : ParameterTyped (ParameterType.Value Val) .time
  endTime : ParameterTyped (ParameterType.Value Val) .time
  moduleMatchRegex : ParameterTyped (ParameterType.Value Val) .string
  dumpPath : ParameterTyped (ParameterType.Value Val) .string
  get_startTime : toParameters.get .time startTimeName = some startTime
  get_endTime : toParameters.get .time endTimeName = some endTime
  get_moduleMatchRegex : toParameters.get .string moduleMatchRegexName = some moduleMatchRegex
  get_dumpPath : toParameters.get .string dumpPathName = some dumpPath

/-- Append a module to the sampled ones. -/
def addModule (collector : ModuleRef) (store : ModuleStore ModuleRef Rest) (module : ModuleRef) :
    ModuleStore ModuleRef Rest :=
  { store with
    collected := Function.update store.collected collector (store.collected collector ++ [module]) }

variable [DecidableEq Ty] {Params : Type*}

/-- `Collector::initialize`, where `regexMatch` matches a name against a regular expression. -/
def initializeModule (regexMatch : List Char → List Char → Bool) (collector : ModuleRef)
    (parameters : Parameters Val) (ctx : Context (ModuleTask ModuleRef Task) ModuleRef Params)
    (store : ModuleStore ModuleRef Rest) :
    ModuleStore ModuleRef Rest × List (Request (ModuleTask ModuleRef Task)) ×
      InitializationStatus ModuleRef :=
  let (store, status) := Module.initializeModule collector parameters.toParameters store
  if status.success then
    let matching := (ctx.modules.map Prod.fst).filter fun module =>
      regexMatch parameters.moduleMatchRegex.value_ (store.name_ module)
    let store := { store with
      dumpPath := Function.update store.dumpPath collector parameters.dumpPath.value_ }
    (matching.foldl (addModule collector) store,
      [.scheduleAt parameters.startTime.value_ (.openWindow collector),
        .scheduleAt parameters.endTime.value_ (.closeWindow collector)],
      .ok (some collector))
  else (store, [], status)

end Collector

/-- A module's parameters decide what it is: a collector, or a module of the program. -/
inductive ModuleParameters (Val : Ty → Type) [DecidableEq Ty] where
  | collector (parameters : Collector.Parameters Val)
  | user (parameters : Parameters (ParameterType.Value Val))

namespace ModuleParameters

variable [DecidableEq Ty]

def base : ModuleParameters Val → Parameters (ParameterType.Value Val)
  | collector parameters => parameters.toParameters
  | user parameters => parameters

/-- The name that the parameters give to the module. -/
def configuredName (parameters : ModuleParameters Val) : List Char := parameters.base.name_

end ModuleParameters

/-- What a program adds to the library: the implementation of regular expressions, the
initialization of its own modules, which follows `Module::initialize`, and the tasks. -/
structure Program (Ty ModuleRef Task Rest : Type*) (Val : Ty → Type) [DecidableEq Ty] where
  regexMatch : List Char → List Char → Bool
  /-- Sees every attribute, changes those that are its own, and schedules. -/
  initializeUser : ModuleRef → Parameters (ParameterType.Value Val) →
    Context (ModuleTask ModuleRef Task) ModuleRef (ModuleParameters Val) →
    ModuleStore ModuleRef Rest → InitializationStatus ModuleRef →
    Rest × List (Request (ModuleTask ModuleRef Task)) × InitializationStatus ModuleRef
  call : ModuleTask ModuleRef Task → Time → ModuleStore ModuleRef Rest →
    ModuleStore ModuleRef Rest × List (Request (ModuleTask ModuleRef Task))

namespace Program

variable [DecidableEq Ty]

/-- Initialize a module of either kind. -/
def initializeModule (program : Program Ty ModuleRef Task Rest Val) (module : ModuleRef)
    (parameters : ModuleParameters Val)
    (ctx : Context (ModuleTask ModuleRef Task) ModuleRef (ModuleParameters Val))
    (store : ModuleStore ModuleRef Rest) :
    ModuleStore ModuleRef Rest × List (Request (ModuleTask ModuleRef Task)) ×
      InitializationStatus ModuleRef :=
  match parameters with
  | .collector parameters =>
      Collector.initializeModule program.regexMatch module parameters ctx store
  | .user parameters =>
      let (store, status) := Module.initializeModule module parameters store
      let (rest, requests, status) := program.initializeUser module parameters ctx store status
      ({ store with rest := rest }, requests, status)

/-- The program as the code that a context calls back into. -/
def behaviour (program : Program Ty ModuleRef Task Rest Val) :
    Behaviour (ModuleTask ModuleRef Task) ModuleRef (ModuleParameters Val)
      (ModuleStore ModuleRef Rest) where
  call := program.call
  initializeModule := program.initializeModule

end Program

/-! ## Names and samples along an initialization -/

theorem Collector.foldl_addModule (collector : ModuleRef) (modules : List ModuleRef)
    (store : ModuleStore ModuleRef Rest) :
    modules.foldl (addModule collector) store =
      { store with
        collected := Function.update store.collected collector
          (store.collected collector ++ modules) } := by
  induction modules generalizing store with
  | nil => simp
  | cons module modules induction =>
      rw [List.foldl_cons, induction]
      simp [addModule]

/-- A collector that passes its check picks the modules whose current name matches. -/
theorem Collector.initializeModule_of_check [DecidableEq Ty] {Params : Type*}
    {parameters : Collector.Parameters Val} (valid : parameters.check = true)
    (regexMatch : List Char → List Char → Bool) (collector : ModuleRef)
    (ctx : Context (ModuleTask ModuleRef Task) ModuleRef Params)
    (store : ModuleStore ModuleRef Rest) :
    (initializeModule regexMatch collector parameters ctx store).1 =
      { store with
        name_ := Function.update store.name_ collector parameters.name_
        dumpPath := Function.update store.dumpPath collector parameters.dumpPath.value_
        collected := Function.update store.collected collector (store.collected collector ++
          (ctx.modules.map Prod.fst).filter fun module =>
            regexMatch parameters.moduleMatchRegex.value_
              (Function.update store.name_ collector parameters.name_ module)) } := by
  simp [initializeModule, Module.initializeModule, valid, foldl_addModule]

/-- A collector that fails its check has only taken its name. -/
theorem Collector.initializeModule_of_not_check [DecidableEq Ty] {Params : Type*}
    {parameters : Collector.Parameters Val} (invalid : parameters.check = false)
    (regexMatch : List Char → List Char → Bool) (collector : ModuleRef)
    (ctx : Context (ModuleTask ModuleRef Task) ModuleRef Params)
    (store : ModuleStore ModuleRef Rest) :
    initializeModule regexMatch collector parameters ctx store =
      ({ store with name_ := Function.update store.name_ collector parameters.name_ }, [],
        .ofErrors (some collector) ["Parameter check failed"]) := by
  simp [initializeModule, Module.initializeModule, invalid]

namespace Program

variable [DecidableEq Ty] (program : Program Ty ModuleRef Task Rest Val)

/-- Whatever a module is, its initialization sets its name. -/
theorem name_initializeModule (module : ModuleRef) (parameters : ModuleParameters Val)
    (ctx : Context (ModuleTask ModuleRef Task) ModuleRef (ModuleParameters Val))
    (store : ModuleStore ModuleRef Rest) :
    (program.initializeModule module parameters ctx store).1.name_ =
      Function.update store.name_ module parameters.configuredName := by
  cases parameters with
  | collector parameters =>
      rw [initializeModule]
      cases check : parameters.check with
      | true => rw [Collector.initializeModule_of_check check]; rfl
      | false => rw [Collector.initializeModule_of_not_check check]; rfl
  | user parameters => rfl

/-- A module changes only its own sample. -/
theorem collected_initializeModule {module other : ModuleRef} (apart : other ≠ module)
    (parameters : ModuleParameters Val)
    (ctx : Context (ModuleTask ModuleRef Task) ModuleRef (ModuleParameters Val))
    (store : ModuleStore ModuleRef Rest) :
    (program.initializeModule module parameters ctx store).1.collected other =
      store.collected other := by
  cases parameters with
  | collector parameters =>
      rw [initializeModule]
      cases check : parameters.check with
      | true =>
          rw [Collector.initializeModule_of_check check]
          exact Function.update_of_ne apart _ _
      | false => rw [Collector.initializeModule_of_not_check check]
  | user parameters => rfl

variable (params : ModuleRef → ModuleParameters Val)
  (progress : Session (ModuleTask ModuleRef Task) ModuleRef (ModuleParameters Val)
    (ModuleStore ModuleRef Rest) × InitializationStatus ModuleRef)

/-- The modules initialized so far have their configured names. -/
theorem name_initializeModules (order : List ModuleRef) (module : ModuleRef) :
    ((order.map fun m => (m, params m)).foldl (Session.initializeModule program.behaviour)
        progress).1.world.name_ module =
      if module ∈ order then (params module).configuredName
      else progress.1.world.name_ module := by
  induction order generalizing progress with
  | nil => simp
  | cons first order induction =>
      rw [List.map_cons, List.foldl_cons, induction]
      have one : (Session.initializeModule program.behaviour progress
          (first, params first)).1.world.name_ =
          Function.update progress.1.world.name_ first (params first).configuredName := by
        rw [Session.initializeModule]
        simp only [Session.world_requests]
        exact program.name_initializeModule first (params first) _ _
      rw [one]
      by_cases here : module = first
      · subst here
        simp
      · simp [here]

theorem collected_initializeModules {order : List ModuleRef} {collector : ModuleRef}
    (absent : collector ∉ order) :
    ((order.map fun m => (m, params m)).foldl (Session.initializeModule program.behaviour)
        progress).1.world.collected collector = progress.1.world.collected collector := by
  induction order generalizing progress with
  | nil => rfl
  | cons first order induction =>
      obtain ⟨apart, later⟩ := not_or.mp fun member => absent (List.mem_cons.mpr member)
      rw [List.map_cons, List.foldl_cons, induction _ later]
      rw [Session.initializeModule]
      simp only [Session.world_requests]
      exact program.collected_initializeModule apart (params first) _ _

end Program

/-! ## The sample does depend on the order -/

namespace Program

variable [DecidableEq Ty] {program : Program Ty ModuleRef Task Rest Val}
  {params : ModuleRef → ModuleParameters Val} {parameters : Collector.Parameters Val}
  {collector : ModuleRef} {order before after : List ModuleRef} {rest : Rest}
  {session : Session (ModuleTask ModuleRef Task) ModuleRef (ModuleParameters Val)
    (ModuleStore ModuleRef Rest)}

/-- The session has newly constructed modules, added in the given order. -/
structure Adds (params : ModuleRef → ModuleParameters Val) (rest : Rest) (order : List ModuleRef)
    (session : Session (ModuleTask ModuleRef Task) ModuleRef (ModuleParameters Val)
      (ModuleStore ModuleRef Rest)) : Prop where
  world : session.world = .constructed rest
  modules : session.ctx.modules = order.map fun module => (module, params module)
  distinct : order.Nodup

/-- The modules that a collector samples after the context has been initialized. -/
def sample (program : Program Ty ModuleRef Task Rest Val)
    (session : Session (ModuleTask ModuleRef Task) ModuleRef (ModuleParameters Val)
      (ModuleStore ModuleRef Rest)) (collector : ModuleRef) : List ModuleRef :=
  (session.initializeContext program.behaviour).1.world.collected collector

/-- `Context::initialize` up to the collector. -/
def reached (program : Program Ty ModuleRef Task Rest Val)
    (params : ModuleRef → ModuleParameters Val) (before : List ModuleRef)
    (session : Session (ModuleTask ModuleRef Task) ModuleRef (ModuleParameters Val)
      (ModuleStore ModuleRef Rest)) :
    Session (ModuleTask ModuleRef Task) ModuleRef (ModuleParameters Val)
      (ModuleStore ModuleRef Rest) × InitializationStatus ModuleRef :=
  (before.map fun module => (module, params module)).foldl
    (Session.initializeModule program.behaviour) (session, .ok none)

theorem Adds.initializeModules_eq (adds : Adds params rest order session)
    (split : order = before ++ collector :: after) :
    session.ctx.modules.foldl (Session.initializeModule program.behaviour) (session, .ok none) =
      (after.map fun module => (module, params module)).foldl
        (Session.initializeModule program.behaviour)
        (Session.initializeModule program.behaviour (program.reached params before session)
          (collector, params collector)) := by
  rw [adds.modules, split, List.map_append, List.map_cons, List.foldl_append, List.foldl_cons]
  rfl

omit [DecidableEq ModuleRef] in
/-- The collector is among the modules once. -/
theorem Adds.notMem (adds : Adds params rest order session)
    (split : order = before ++ collector :: after) :
    collector ∉ before ∧ collector ∉ after ∧ ∀ module ∈ after, module ∉ before := by
  obtain ⟨-, tail, apart⟩ := List.nodup_append.mp (split ▸ adds.distinct)
  refine ⟨fun early => apart _ early _ List.mem_cons_self rfl, (List.nodup_cons.mp tail).1, ?_⟩
  intro module late early
  exact apart _ early _ (List.mem_cons_of_mem _ late) rfl

/-- An initialization that succeeds has checked the collector's parameters. -/
theorem Adds.check_of_success (adds : Adds params rest order session)
    (split : order = before ++ collector :: after)
    (isCollector : params collector = .collector parameters)
    (success : (session.initializeContext program.behaviour).2.success = true) :
    parameters.check = true := by
  rw [Session.initializeContext, adds.initializeModules_eq split] at success
  have stepped := Session.success_of_initializeModules success
  by_contra invalid
  simp [Session.initializeModule, behaviour, initializeModule, isCollector,
    Collector.initializeModule_of_not_check (Bool.not_eq_true _ ▸ invalid)] at stepped

/-- What the collector has picked when it is initialized stays its sample. -/
theorem Adds.sample_eq_reached (adds : Adds params rest order session)
    (split : order = before ++ collector :: after) :
    program.sample session collector =
      (program.initializeModule collector (params collector)
        (program.reached params before session).1.ctx
        (program.reached params before session).1.world).1.collected collector := by
  change (session.ctx.modules.foldl (Session.initializeModule program.behaviour)
    (session, .ok none)).1.world.collected collector = _
  rw [adds.initializeModules_eq split,
    collected_initializeModules program params _ (adds.notMem split).2.1, Session.initializeModule]
  simp only [Session.world_requests]
  rfl

/-- A collector samples the modules whose name matches when it is initialized. -/
theorem sample_eq (adds : Adds params rest order session)
    (split : order = before ++ collector :: after)
    (isCollector : params collector = .collector parameters)
    (success : (session.initializeContext program.behaviour).2.success = true) :
    program.sample session collector = order.filter fun module =>
      program.regexMatch parameters.moduleMatchRegex.value_
        (if module ∈ after then [] else (params module).configuredName) := by
  obtain ⟨notBefore, notAfter, apart⟩ := adds.notMem split
  have check := adds.check_of_success split isCollector success
  have names := name_initializeModules program params (session, .ok none) before
  have unsampled := collected_initializeModules program params (session, .ok none) notBefore
  have kept := (Session.schedules_initializeModules program.behaviour
    (before.map fun module => (module, params module)) (session, .ok none)).1.modules_eq
  rw [adds.sample_eq_reached split, isCollector, initializeModule,
    Collector.initializeModule_of_check check]
  have entries : order.map (Prod.fst ∘ fun module => (module, params module)) = order :=
    List.map_id order
  simp only [reached, Function.update_self, unsampled, kept, adds.modules, adds.world,
    ModuleStore.constructed, List.nil_append, List.map_map, entries]
  apply List.filter_congr
  intro module member
  congr 1
  rw [split, List.mem_append, List.mem_cons] at member
  rcases member with early | rfl | late
  · rw [Function.update_of_ne (ne_of_mem_of_not_mem early notBefore), names, if_pos early,
      if_neg fun late => apart module late early]
  · rw [Function.update_self, if_neg notAfter, ModuleParameters.configuredName, isCollector]
    rfl
  · rw [Function.update_of_ne (ne_of_mem_of_not_mem late notAfter), names,
      if_neg (apart module late), if_pos late, adds.world]
    rfl

/-- The sample is what the configured names ask for when the modules added after the collector
match by their configured names just as they do without a name. -/
theorem mem_sample_iff (adds : Adds params rest order session)
    (split : order = before ++ collector :: after)
    (isCollector : params collector = .collector parameters)
    (success : (session.initializeContext program.behaviour).2.success = true) :
    (∀ module, module ∈ program.sample session collector ↔ module ∈ order ∧
        program.regexMatch parameters.moduleMatchRegex.value_
          (params module).configuredName = true) ↔
      ∀ module ∈ after, program.regexMatch parameters.moduleMatchRegex.value_ [] =
        program.regexMatch parameters.moduleMatchRegex.value_ (params module).configuredName := by
  rw [sample_eq adds split isCollector success]
  simp only [List.mem_filter]
  constructor
  · intro matching module late
    have member : module ∈ order := by simp [split, late]
    have agree := matching module
    rw [if_pos late] at agree
    exact Bool.eq_iff_iff.mpr (and_congr_right_iff.mp agree member)
  · intro agree module
    apply and_congr_right
    intro member
    split
    next late => rw [agree module late]
    next => rfl

/-- Two orders of the same modules give the sample that the configured names ask for, the same in
both, in exactly those cases in which each module added after the collector, in either order,
matches by its configured name just as it does without a name. -/
theorem sample_order_independent_iff {order' before' after' : List ModuleRef} {rest' : Rest}
    {session' : Session (ModuleTask ModuleRef Task) ModuleRef (ModuleParameters Val)
      (ModuleStore ModuleRef Rest)}
    (adds : Adds params rest order session) (adds' : Adds params rest' order' session')
    (same : order.Perm order') (split : order = before ++ collector :: after)
    (split' : order' = before' ++ collector :: after')
    (isCollector : params collector = .collector parameters)
    (success : (session.initializeContext program.behaviour).2.success = true)
    (success' : (session'.initializeContext program.behaviour).2.success = true) :
    (∀ module,
        (module ∈ program.sample session collector ↔ module ∈ program.sample session' collector) ∧
        (module ∈ program.sample session collector ↔ module ∈ order ∧
          program.regexMatch parameters.moduleMatchRegex.value_
            (params module).configuredName = true)) ↔
      ∀ module, module ∈ after ∨ module ∈ after' →
        program.regexMatch parameters.moduleMatchRegex.value_ [] =
          program.regexMatch parameters.moduleMatchRegex.value_
            (params module).configuredName := by
  have first := mem_sample_iff adds split isCollector success
  have second := mem_sample_iff adds' split' isCollector success'
  simp only [← same.mem_iff] at second
  constructor
  · intro alike
    have one := first.mp fun module => (alike module).2
    have other := second.mp fun module => (alike module).1.symm.trans (alike module).2
    rintro module (late | late)
    · exact one module late
    · exact other module late
  · intro agree module
    have one := first.mpr (fun module late => agree module (.inl late)) module
    have other := second.mpr (fun module late => agree module (.inr late)) module
    exact ⟨one.trans other.symm, one⟩

end Program

/-! ## A collector and one module -/

namespace Collector

/-- A collector's parameters after its start and end time have been set. -/
def configured (name : List Char) (startTime endTime : Time) (moduleMatchRegex : List Char) :
    Parameters (Empty.elim : Empty → Type) where
  trie := .node none
    [(startTimeName, .node (some ⟨.time, .ofValue startTime⟩) []),
      (endTimeName,
        .node (some ⟨.time, true, some endsAfterStart, endTime⟩) []),
      (moduleMatchRegexName, .node (some ⟨.string, .ofValue moduleMatchRegex⟩) []),
      (dumpPathName, .node (some ⟨.string, .ofValue "statistics.yaml".toList⟩) [])]
  name_ := name
  startTime := .ofValue startTime
  endTime := ⟨true, some endsAfterStart, endTime⟩
  moduleMatchRegex := .ofValue moduleMatchRegex
  dumpPath := .ofValue "statistics.yaml".toList
  get_startTime := by
    rw [Simo.Parameters.get, ParameterTrie.findTyped, ParameterTrie.find_eq]
    rfl
  get_endTime := by
    rw [Simo.Parameters.get, ParameterTrie.findTyped, ParameterTrie.find_eq]
    rfl
  get_moduleMatchRegex := by
    rw [Simo.Parameters.get, ParameterTrie.findTyped, ParameterTrie.find_eq]
    rfl
  get_dumpPath := by
    rw [Simo.Parameters.get, ParameterTrie.findTyped, ParameterTrie.find_eq]
    rfl

/-- Two modules: 0 is a collector, 1 is called `cpu`. -/
def collectorAndCpu (moduleMatchRegex : List Char) :
    ℕ → ModuleParameters (Empty.elim : Empty → Type)
  | 0 => .collector (configured ['c'] ⟨1⟩ ⟨2⟩ moduleMatchRegex)
  | _ => .user { trie := .empty, name_ := ['c', 'p', 'u'] }

/-- A program whose module only calls `Module::initialize`.  Its regular expressions are `.*` and
words without special characters. -/
def plainProgram : Program Empty ℕ Unit Unit Empty.elim where
  regexMatch pattern text := pattern = ['.', '*'] || pattern = text
  initializeUser _ _ _ store status := (store.rest, [], status)
  call _ _ store := (store, [])

/-- A new context to which the modules are added in the given order. -/
def adding (moduleMatchRegex : List Char) (order : List ℕ) :
    Session (ModuleTask ℕ Unit) ℕ (ModuleParameters (Empty.elim : Empty → Type))
      (ModuleStore ℕ Unit) where
  ctx := order.foldl (fun ctx module => ctx.add module (collectorAndCpu moduleMatchRegex module))
    .new
  world := .constructed ()
  scheduled := []
  executed := []

theorem sample_order_independent_iff_all :
    (∀ module, (module ∈ plainProgram.sample (adding ['.', '*'] [0, 1]) 0 ↔
          module ∈ plainProgram.sample (adding ['.', '*'] [1, 0]) 0) ∧
        (module ∈ plainProgram.sample (adding ['.', '*'] [0, 1]) 0 ↔ module ∈ [0, 1] ∧
          plainProgram.regexMatch ['.', '*']
            (collectorAndCpu ['.', '*'] module).configuredName = true)) ↔
      ∀ module, module ∈ [1] ∨ module ∈ [] → plainProgram.regexMatch ['.', '*'] [] =
        plainProgram.regexMatch ['.', '*'] (collectorAndCpu ['.', '*'] module).configuredName :=
  have first : Program.Adds (collectorAndCpu ['.', '*']) () [0, 1] (adding ['.', '*'] [0, 1]) :=
    ⟨rfl, rfl, by decide⟩
  have second : Program.Adds (collectorAndCpu ['.', '*']) () [1, 0] (adding ['.', '*'] [1, 0]) :=
    ⟨rfl, rfl, by decide⟩
  Program.sample_order_independent_iff first second (by decide)
    (show [0, 1] = [] ++ 0 :: [1] from rfl) (show [1, 0] = [1] ++ 0 :: [] from rfl) rfl
    (by decide +kernel) (by decide +kernel)

/-- A collector of `cpu` samples nothing if it is added first. -/
theorem sample_depends_on_order :
    Program.Adds (collectorAndCpu ['c', 'p', 'u']) () [0, 1] (adding ['c', 'p', 'u'] [0, 1]) ∧
      Program.Adds (collectorAndCpu ['c', 'p', 'u']) () [1, 0] (adding ['c', 'p', 'u'] [1, 0]) ∧
      ((adding ['c', 'p', 'u'] [0, 1]).initializeContext plainProgram.behaviour).2.success = true ∧
      ((adding ['c', 'p', 'u'] [1, 0]).initializeContext plainProgram.behaviour).2.success = true ∧
      plainProgram.sample (adding ['c', 'p', 'u'] [0, 1]) 0 = [] ∧
      plainProgram.sample (adding ['c', 'p', 'u'] [1, 0]) 0 = [1] :=
  ⟨⟨rfl, rfl, by decide⟩, ⟨rfl, rfl, by decide⟩, by decide +kernel, by decide +kernel,
    by decide +kernel, by decide +kernel⟩

end Collector
end Simo
