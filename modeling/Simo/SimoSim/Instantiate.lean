import Simo.SimoSim.DumpParameters
import Simo.Support.Registry

/-!
# Instantiation of the modules

`main` collects the factories of all collections under their type names, reads the configuration,
and then creates a module with its parameters for each module specification.  The errors of each
phase are collected before the program stops.
-/

namespace Simo

variable {Ty : Type*} {Val : Ty → Type*} {Generic PortRef : Type*}

/-- `glz::read_json`: the value that is left in the parameter, and the error if there is one. -/
abbrev ReadJson {Ty : Type*} (Val : Ty → Type*) (Generic : Type*) :=
  ∀ type, Generic → Val type → Val type × Option String

/-- `value_from_generic`: the parameter afterwards, and the error if there is one. -/
def Parameter.valueFromGeneric (readJson : ReadJson Val Generic) (parameter : Parameter Val)
    (glzValue : Generic) : Parameter Val × Option String :=
  match readJson parameter.type glzValue parameter.typed.value_ with
  | (value, some error) => (⟨parameter.type, { parameter.typed with value_ := value }⟩, some error)
  | (value, none) => (⟨parameter.type, parameter.typed.set (.value value)⟩, none)

/-- What the functions of a factory create can depend on how many modules there are already. -/
structure Factory (PortRef : Type*) {Ty : Type*} (Val : Ty → Type*) where
  name : List Char
  getModule : ℕ → Module PortRef
  getParameters : ℕ → DerivedParameters Val

structure SimoCollection (PortRef : Type*) {Ty : Type*} (Val : Ty → Type*) where
  factoryList : List (Factory PortRef Val)

def SimoCollection.getFactoryPairs (collection : SimoCollection PortRef Val) :
    List (List Char × Factory PortRef Val) :=
  collection.factoryList.map fun factory => (factory.name, factory)

namespace SimoSim

/-- `RETURN_CODE` -/
inductive ReturnCode where
  | success
  | invalidCommandLine
  | invalidConfigFile
  | duplicateTypes
  | unknownTypes
  | duplicateModuleNames
  | initializationFailed
  | invalidConnection
  | connectionFailed
deriving DecidableEq

/-- `Config::Parameter` -/
structure ParameterSpec (Generic : Type*) where
  name : List Char
  value : Generic

/-- `Config::Module` -/
structure ModuleSpec (Generic : Type*) where
  name : List Char
  type : List Char
  parameters : List (ParameterSpec Generic)

/-- How `main` stops before the modules are initialized, with what it writes to the error output. -/
inductive Stop where
  | duplicateTypes (types : List (List Char))
  | invalidConfigFile (error : String)
  | unknownTypes (modules : List (List Char × List Char))
  | duplicateModuleNames (names : List (List Char))

def Stop.code : Stop → ReturnCode
  | duplicateTypes _ => .duplicateTypes
  | invalidConfigFile _ => .invalidConfigFile
  | unknownTypes _ => .unknownTypes
  | duplicateModuleNames _ => .duplicateModuleNames

/-! ## The factories -/

/-- The loops over the collections: `factory_map` and `duplicate_types`. -/
def collectFactories (collections : List (SimoCollection PortRef Val)) :
    Registry (List Char) (Factory PortRef Val) :=
  collections.foldl (fun registry collection =>
    collection.getFactoryPairs.foldl (.register Prod.fst fun _ pair => pair.2) registry) .empty

/-! ## The modules -/

/-- Set one parameter; a name that is not known is ignored, and so is an error. -/
def setParameter (readJson : ReadJson Val Generic) (parameters : DerivedParameters Val)
    (parameter : ParameterSpec Generic) : DerivedParameters Val :=
  match parameters.trie.find parameter.name with
  | none => parameters
  | some stored =>
      { parameters with
        trie := parameters.trie.addGeneric parameter.name
          (stored.valueFromGeneric readJson parameter.value).1
        isNamed := parameters.isNamed.addGeneric _ _ }

/-- The parameters of a new module: they take the module's name, and then the values that are
specified. -/
def configureParameters (readJson : ReadJson Val Generic) (spec : ModuleSpec Generic)
    (parameters : DerivedParameters Val) : DerivedParameters Val :=
  spec.parameters.foldl (setParameter readJson) { parameters with name_ := spec.name }

/-- The entry for a specification, when `created` modules are there already. -/
def createModule (readJson : ReadJson Val Generic) (created : ℕ) (spec : ModuleSpec Generic)
    (factory : Factory PortRef Val) : ModuleParameterPair PortRef (DerivedParameters Val) where
  module := factory.getModule created
  parameters := configureParameters readJson spec (factory.getParameters created)

/-- `unrecognized_module_types`; and `module_map` with `duplicate_module_names`. -/
structure ModuleScan (PortRef : Type*) {Ty : Type*} (Val : Ty → Type*) where
  unrecognized : List (List Char × List Char)
  modules : Registry (List Char) (ModuleParameterPair PortRef (DerivedParameters Val))

/-- The body of the loop over the specifications. -/
def scanModule (readJson : ReadJson Val Generic)
    (factoryMap : AList fun _ : List Char => Factory PortRef Val) (scan : ModuleScan PortRef Val)
    (spec : ModuleSpec Generic) : ModuleScan PortRef Val :=
  match factoryMap.lookup spec.type with
  | none => { scan with unrecognized := scan.unrecognized ++ [(spec.name, spec.type)] }
  | some factory =>
      { scan with
        modules := scan.modules.register ModuleSpec.name
          (fun moduleMap spec => createModule readJson moduleMap.entries.length spec factory) spec }

/-- The loop over the specifications. -/
def scanModules (readJson : ReadJson Val Generic)
    (factoryMap : AList fun _ : List Char => Factory PortRef Val)
    (specs : List (ModuleSpec Generic)) : ModuleScan PortRef Val :=
  specs.foldl (scanModule readJson factoryMap) ⟨[], .empty⟩

/-- `main` up to the module map; `config` is the result of `read_config`, of which only the module
specifications are used here. -/
def instantiate (readJson : ReadJson Val Generic) (collections : List (SimoCollection PortRef Val))
    (config : Except String (List (ModuleSpec Generic))) :
    Except Stop (ModuleMap PortRef (DerivedParameters Val)) :=
  let factories := collectFactories collections
  if factories.duplicates ≠ [] then .error (.duplicateTypes factories.duplicates)
  else
    match config with
    | .error error => .error (.invalidConfigFile error)
    | .ok modules =>
        let scan := scanModules readJson factories.map modules
        if scan.unrecognized ≠ [] then .error (.unknownTypes scan.unrecognized)
        else if scan.modules.duplicates ≠ [] then
          .error (.duplicateModuleNames scan.modules.duplicates)
        else .ok scan.modules.map

/-! ## What is found -/

section Factories

variable {collections : List (SimoCollection PortRef Val)} {type : List Char}
  {factory : Factory PortRef Val}

def allFactories (collections : List (SimoCollection PortRef Val)) : List (Factory PortRef Val) :=
  collections.flatMap SimoCollection.factoryList

/-- No two factories of the collections have the same type name. -/
def TypesDistinct (collections : List (SimoCollection PortRef Val)) : Prop :=
  ((allFactories collections).map Factory.name).Nodup

theorem collectFactories_eq (collections : List (SimoCollection PortRef Val)) :
    collectFactories collections =
      (allFactories collections).foldl (.register Factory.name fun _ factory => factory)
        .empty := by
  rw [collectFactories, allFactories, List.foldl_flatMap]
  congr 1
  funext registry collection
  rw [SimoCollection.getFactoryPairs, List.foldl_map]
  rfl

theorem duplicates_collectFactories_iff :
    (collectFactories collections).duplicates = [] ↔ TypesDistinct collections := by
  rw [collectFactories_eq, Registry.duplicates_foldl_eq_nil_iff, Registry.fresh_empty_iff]
  exact and_iff_right rfl

/-- A type name leads to the factory that has it. -/
theorem lookup_collectFactories_iff (distinct : TypesDistinct collections) :
    (collectFactories collections).map.lookup type = some factory ↔
      factory ∈ allFactories collections ∧ factory.name = type := by
  have found {factory : Factory PortRef Val} (member : factory ∈ allFactories collections) :
      (collectFactories collections).map.lookup factory.name = some factory := by
    obtain ⟨-, entry⟩ := Registry.exists_lookup_foldl (fun _ factory => factory)
      (Registry.fresh_empty_iff.mpr distinct) member
    rw [collectFactories_eq, entry]
  constructor
  · intro looked
    have entered : type ∈ (collectFactories collections).map :=
      AList.lookup_isSome.mp (looked ▸ rfl)
    rw [collectFactories_eq, Registry.mem_foldl_iff] at entered
    obtain ⟨other, member, rfl⟩ :=
      List.mem_map.mp (entered.resolve_left (Registry.notMem_empty type))
    obtain rfl := Option.some.inj ((found member).symm.trans looked)
    exact ⟨member, rfl⟩
  · rintro ⟨member, rfl⟩
    exact found member

theorem lookup_collectFactories_eq_none_iff :
    (collectFactories collections).map.lookup type = none ↔
      ∀ factory ∈ allFactories collections, factory.name ≠ type := by
  rw [AList.lookup_eq_none, collectFactories_eq, Registry.mem_foldl_iff,
    or_iff_right (Registry.notMem_empty type), List.mem_map]
  simp only [not_exists, not_and, ne_eq]

end Factories

section Modules

variable {readJson : ReadJson Val Generic}
  {factoryMap : AList fun _ : List Char => Factory PortRef Val} {scan : ModuleScan PortRef Val}
  {specs : List (ModuleSpec Generic)} {spec : ModuleSpec Generic} {factory : Factory PortRef Val}

/-- The specifications whose types have a factory, with it. -/
def recognized (factoryMap : AList fun _ : List Char => Factory PortRef Val)
    (specs : List (ModuleSpec Generic)) : List (ModuleSpec Generic × Factory PortRef Val) :=
  specs.filterMap fun spec => (factoryMap.lookup spec.type).map (spec, ·)

theorem mem_recognized :
    (spec, factory) ∈ recognized factoryMap specs ↔
      spec ∈ specs ∧ factoryMap.lookup spec.type = some factory := by
  simp only [recognized, List.mem_filterMap, Option.map_eq_some_iff, Prod.mk.injEq]
  constructor
  · rintro ⟨spec, member, factory, found, rfl, rfl⟩
    exact ⟨member, found⟩
  · rintro ⟨member, found⟩
    exact ⟨spec, member, factory, found, rfl, rfl⟩

theorem unrecognized_foldl_eq_nil_iff :
    (specs.foldl (scanModule readJson factoryMap) scan).unrecognized = [] ↔
      scan.unrecognized = [] ∧ ∀ spec ∈ specs, factoryMap.lookup spec.type ≠ none := by
  induction specs generalizing scan with
  | nil => simp
  | cons spec specs induction =>
      rw [List.foldl_cons, induction, scanModule]
      cases found : factoryMap.lookup spec.type with
      | none => simp [found]
      | some factory => simp [found]

/-- The map of the modules has an entry for each specification that is recognized, unless its name
is taken. -/
theorem modules_foldl :
    (specs.foldl (scanModule readJson factoryMap) scan).modules =
      (recognized factoryMap specs).foldl (.register (fun item => item.1.name)
        fun moduleMap item => createModule readJson moduleMap.entries.length item.1 item.2)
        scan.modules := by
  induction specs generalizing scan with
  | nil => rfl
  | cons spec specs induction =>
      rw [List.foldl_cons, induction, scanModule]
      cases found : factoryMap.lookup spec.type with
      | none => simp only [recognized, List.filterMap_cons, found, Option.map_none]
      | some factory =>
          simp only [recognized, List.filterMap_cons, found, Option.map_some, List.foldl_cons]
          rfl

theorem map_name_recognized (known : ∀ spec ∈ specs, factoryMap.lookup spec.type ≠ none) :
    (recognized factoryMap specs).map (fun item => item.1.name) = specs.map ModuleSpec.name := by
  induction specs with
  | nil => rfl
  | cons spec specs induction =>
      obtain ⟨here, later⟩ := List.forall_mem_cons.mp known
      obtain ⟨factory, found⟩ := Option.ne_none_iff_exists'.mp here
      rw [recognized, List.filterMap_cons, found, Option.map_some]
      exact congrArg (spec.name :: ·) (induction later)

end Modules

/-! ## The result -/

section Result

variable {readJson : ReadJson Val Generic} {collections : List (SimoCollection PortRef Val)}
  {specs : List (ModuleSpec Generic)} {moduleMap : ModuleMap PortRef (DerivedParameters Val)}

/-- The program stops with a return code. -/
def StopsWith {α : Type*} (code : ReturnCode) (result : Except Stop α) : Prop :=
  ∃ stop, result = .error stop ∧ stop.code = code

/-- The map has one entry for each specification, under its name.  The module is what the only
factory of its type has created; so are the parameters, which have then been configured, and which
have the specified name. -/
structure Instantiates (readJson : ReadJson Val Generic)
    (collections : List (SimoCollection PortRef Val)) (specs : List (ModuleSpec Generic))
    (moduleMap : ModuleMap PortRef (DerivedParameters Val)) : Prop where
  keys : moduleMap.keys.Perm (specs.map ModuleSpec.name)
  entries : ∀ spec ∈ specs, ∃ factory ∈ allFactories collections, factory.name = spec.type ∧
    (∀ other ∈ allFactories collections, other.name = spec.type → other = factory) ∧
    ∃ created pair, moduleMap.lookup spec.name = some pair ∧
      pair.module = factory.getModule created ∧
      pair.parameters = configureParameters readJson spec (factory.getParameters created) ∧
      pair.parameters.name_ = spec.name

/-- Setting parameters does not change the name. -/
theorem name_configureParameters (readJson : ReadJson Val Generic) (spec : ModuleSpec Generic)
    (parameters : DerivedParameters Val) :
    (configureParameters readJson spec parameters).name_ = spec.name := by
  have kept (settings : List (ParameterSpec Generic)) (parameters : DerivedParameters Val) :
      (settings.foldl (setParameter readJson) parameters).name_ = parameters.name_ := by
    induction settings generalizing parameters with
    | nil => rfl
    | cons setting settings induction =>
        rw [List.foldl_cons, induction, setParameter]
        split <;> rfl
  exact kept spec.parameters _

theorem instantiates_of_distinct (distinctTypes : TypesDistinct collections)
    (known : ∀ spec ∈ specs, (collectFactories collections).map.lookup spec.type ≠ none)
    (distinctNames : (specs.map ModuleSpec.name).Nodup) :
    Instantiates readJson collections specs
      (scanModules readJson (collectFactories collections).map specs).modules.map := by
  have names := map_name_recognized known
  have fresh : Registry.Fresh
      (fun item : ModuleSpec Generic × Factory PortRef Val => item.1.name)
      (.empty : Registry (List Char) (ModuleParameterPair PortRef (DerivedParameters Val)))
      (recognized (collectFactories collections).map specs) :=
    Registry.fresh_empty_iff.mpr (names ▸ distinctNames)
  rw [scanModules, modules_foldl]
  constructor
  · have keys := Registry.keys_foldl_perm (fun moduleMap item =>
      createModule readJson moduleMap.entries.length item.1 item.2) fresh
    rw [names] at keys
    simpa [Registry.empty] using keys
  · intro spec member
    obtain ⟨factory, found⟩ := Option.ne_none_iff_exists'.mp (known spec member)
    obtain ⟨inCollections, hasType⟩ := (lookup_collectFactories_iff distinctTypes).mp found
    obtain ⟨before, entry⟩ := Registry.exists_lookup_foldl (fun moduleMap item =>
      createModule readJson moduleMap.entries.length item.1 item.2) fresh
        (mem_recognized.mpr ⟨member, found⟩)
    refine ⟨factory, inCollections, hasType, fun other inCollections' hasType' => ?_,
      before.entries.length, _, entry, rfl, rfl, name_configureParameters readJson spec _⟩
    have same := (lookup_collectFactories_iff distinctTypes).mpr ⟨inCollections', hasType'⟩
    exact Option.some.inj (same.symm.trans found)

/-- The type of some specification has no factory. -/
def UnknownType (collections : List (SimoCollection PortRef Val))
    (specs : List (ModuleSpec Generic)) : Prop :=
  ∃ spec ∈ specs, ∀ factory ∈ allFactories collections, factory.name ≠ spec.type

theorem lookup_ne_none_of_known (known : ¬ UnknownType collections specs) :
    ∀ spec ∈ specs, (collectFactories collections).map.lookup spec.type ≠ none :=
  fun spec member nothing =>
    known ⟨spec, member, lookup_collectFactories_eq_none_iff.mp nothing⟩

theorem stopsWith_of_duplicateTypes (duplicate : ¬ TypesDistinct collections) :
    StopsWith .duplicateTypes (instantiate readJson collections (.ok specs)) := by
  rw [instantiate, if_pos fun nothing => duplicate (duplicates_collectFactories_iff.mp nothing)]
  exact ⟨_, rfl, rfl⟩

theorem stopsWith_of_unknownType (distinct : TypesDistinct collections)
    (unknown : UnknownType collections specs) :
    StopsWith .unknownTypes (instantiate readJson collections (.ok specs)) := by
  obtain ⟨spec, member, nothing⟩ := unknown
  rw [instantiate, if_neg (not_not.mpr (duplicates_collectFactories_iff.mpr distinct))]
  dsimp only
  rw [if_pos]
  · exact ⟨_, rfl, rfl⟩
  · intro recognized
    exact (unrecognized_foldl_eq_nil_iff.mp recognized).2 spec member
      (lookup_collectFactories_eq_none_iff.mpr nothing)

/-- With known types, what is left to decide is whether the names are distinct. -/
theorem instantiate_of_known (distinct : TypesDistinct collections)
    (known : ¬ UnknownType collections specs) :
    instantiate readJson collections (.ok specs) =
      if (scanModules readJson (collectFactories collections).map specs).modules.duplicates ≠ []
      then
        .error (.duplicateModuleNames
          (scanModules readJson (collectFactories collections).map specs).modules.duplicates)
      else .ok (scanModules readJson (collectFactories collections).map specs).modules.map := by
  have recognized : (scanModules readJson (collectFactories collections).map specs).unrecognized =
      [] :=
    unrecognized_foldl_eq_nil_iff.mpr ⟨rfl, lookup_ne_none_of_known known⟩
  rw [instantiate, if_neg (not_not.mpr (duplicates_collectFactories_iff.mpr distinct))]
  dsimp only
  rw [if_neg (not_not.mpr recognized)]

theorem duplicates_scanModules_iff (readJson : ReadJson Val Generic)
    (known : ¬ UnknownType collections specs) :
    (scanModules readJson (collectFactories collections).map specs).modules.duplicates = [] ↔
      (specs.map ModuleSpec.name).Nodup := by
  rw [scanModules, modules_foldl, Registry.duplicates_foldl_eq_nil_iff, Registry.fresh_empty_iff,
    map_name_recognized (lookup_ne_none_of_known known)]
  exact and_iff_right rfl

/-- A collection with one factory. -/
def sources : SimoCollection ℕ fun _ : Unit => ℕ where
  factoryList := [{
    name := "Source".toList
    getModule := fun created => .mk [] (.singleton "out".toList created) []
    getParameters := fun _ => {
      trie := .empty
      name_ := []
      checkOverride := none
      isNamed := ParameterTrie.Built.empty.named } }]

/-- The entries that `main` makes are initialized under the names of their keys. -/
theorem Instantiates.keyed (instantiates : Instantiates readJson collections specs moduleMap) :
    ∀ entry ∈ (initializedMap moduleMap).entries, entry.2.module.name_ = entry.1 := by
  intro entry member
  obtain ⟨⟨name, pair⟩, inMap, rfl⟩ := List.mem_map.mp member
  have found : moduleMap.lookup name = some pair := AList.mem_lookup_iff.mpr inMap
  have specified : name ∈ specs.map ModuleSpec.name :=
    instantiates.keys.subset (AList.mem_keys.mp (AList.lookup_isSome.mp (found ▸ rfl)))
  obtain ⟨spec, inSpecs, rfl⟩ := List.mem_map.mp specified
  obtain ⟨factory, -, -, -, created, made, entry, -, -, named⟩ := instantiates.entries spec inSpecs
  obtain rfl := Option.some.inj (entry.symm.trans found)
  exact named

end Result

end SimoSim

end Simo
