import Simo.SimoSim.Instantiate

/-!
# Parameters from a configuration

The settings of a module specification are applied one after the other to the parameters that the
factory has made.  Each of them changes the value of the parameter that it names, if there is one,
and nothing else.  A dump of all parameters, read as settings, brings every value back.
-/

namespace Simo

variable {Ty : Type*} {Val : Ty → Type*} {Generic PortRef : Type*}

namespace Parameter

/-- The parameter after a sequence of `value_from_generic`, of which the errors are ignored. -/
def setAll (readJson : ReadJson Val Generic) (values : List Generic) (parameter : Parameter Val) :
    Parameter Val :=
  values.foldl (fun parameter value => (parameter.valueFromGeneric readJson value).1) parameter

/-- The parameters have the same type and validator. -/
def SameDeclaration (first second : Parameter Val) : Prop :=
  ∃ hasValue value,
    first = ⟨second.type, { second.typed with hasValue_ := hasValue, value_ := value }⟩

theorem sameDeclaration_refl (parameter : Parameter Val) : parameter.SameDeclaration parameter :=
  ⟨_, _, rfl⟩

theorem SameDeclaration.trans {first second third : Parameter Val}
    (left : first.SameDeclaration second) (right : second.SameDeclaration third) :
    first.SameDeclaration third := by
  obtain ⟨hasValue, value, rfl⟩ := left
  obtain ⟨hasValue', value', rfl⟩ := right
  exact ⟨hasValue, value, rfl⟩

theorem sameDeclaration_valueFromGeneric (readJson : ReadJson Val Generic)
    (parameter : Parameter Val) (value : Generic) :
    (parameter.valueFromGeneric readJson value).1.SameDeclaration parameter := by
  rw [valueFromGeneric]
  split
  next => exact ⟨_, _, rfl⟩
  next => exact ⟨_, _, rfl⟩

theorem setAll_append (readJson : ReadJson Val Generic) (values values' : List Generic)
    (parameter : Parameter Val) :
    parameter.setAll readJson (values ++ values') =
      (parameter.setAll readJson values).setAll readJson values' :=
  List.foldl_append ..

/-- Settings do not change the type or the validator. -/
theorem sameDeclaration_setAll (readJson : ReadJson Val Generic) (values : List Generic)
    (parameter : Parameter Val) :
    (parameter.setAll readJson values).SameDeclaration parameter := by
  induction values generalizing parameter with
  | nil => exact sameDeclaration_refl parameter
  | cons value values induction =>
      exact (induction _).trans (sameDeclaration_valueFromGeneric readJson parameter value)

/-- A set parameter is the same as one of its declaration that is set to its value. -/
theorem valueFromGeneric_ofValue {generic : GenericValues Val Generic}
    {readJson : ReadJson Val Generic}
    (inverse : ∀ type value old, readJson type (generic.ofValue type value) old = (value, none))
    {declared parameter : Parameter Val} (same : declared.SameDeclaration parameter)
    (set : parameter.hasValue = true) :
    (declared.valueFromGeneric readJson
      (generic.ofValue parameter.type parameter.typed.value_)).1 = parameter := by
  obtain ⟨hasValue, value, rfl⟩ := same
  obtain ⟨type, hasValue', validator, value'⟩ := parameter
  cases (set : hasValue' = true)
  simp only [valueFromGeneric, inverse, ParameterTyped.set]

end Parameter

namespace SimoSim

open ParameterTrie

/-! ## What a specification sets -/

section Settings

variable {readJson : ReadJson Val Generic} {settings : List (ParameterSpec Generic)}
  {parameters : DerivedParameters Val} {path : List (List Char)}

/-- The values that settings give to the parameter at a path, in order. -/
def valuesAt (settings : List (ParameterSpec Generic)) (path : List (List Char)) : List Generic :=
  (settings.filter (components ·.name = path)).map ParameterSpec.value

theorem valuesAt_append (settings settings' : List (ParameterSpec Generic))
    (path : List (List Char)) :
    valuesAt (settings ++ settings') path = valuesAt settings path ++ valuesAt settings' path := by
  rw [valuesAt, List.filter_append, List.map_append]
  rfl

theorem valuesAt_singleton (setting : ParameterSpec Generic) (path : List (List Char)) :
    valuesAt [setting] path = if components setting.name = path then [setting.value] else [] := by
  rw [valuesAt, List.filter_singleton]
  by_cases here : components setting.name = path
  · simp [here]
  · simp [here]

theorem lookup_setParameter (readJson : ReadJson Val Generic) (parameters : DerivedParameters Val)
    (setting : ParameterSpec Generic) (path : List (List Char)) :
    (setParameter readJson parameters setting).trie.lookup path =
      (parameters.trie.lookup path).map
        (Parameter.setAll readJson (valuesAt [setting] path)) := by
  rw [setParameter, find_eq, valuesAt_singleton]
  by_cases here : components setting.name = path
  · rw [if_pos here, here]
    cases found : parameters.trie.lookup path with
    | none => exact found
    | some stored =>
        dsimp only
        rw [addGeneric_eq, here, Trie.lookup_alter, if_pos rfl]
        rfl
  · have kept : (parameters.trie.lookup path).map (Parameter.setAll readJson []) =
        parameters.trie.lookup path := Option.map_id_apply
    rw [if_neg here, kept]
    split
    next => rfl
    next =>
      dsimp only
      rw [addGeneric_eq, Trie.lookup_alter, if_neg (Ne.symm here)]

/-- Each parameter is set by the settings that name it, in their order, and by nothing else. -/
theorem lookup_configureParameters (readJson : ReadJson Val Generic) (spec : ModuleSpec Generic)
    (parameters : DerivedParameters Val) (path : List (List Char)) :
    (configureParameters readJson spec parameters).trie.lookup path =
      (parameters.trie.lookup path).map
        (Parameter.setAll readJson (valuesAt spec.parameters path)) := by
  have through (settings : List (ParameterSpec Generic)) (parameters : DerivedParameters Val) :
      (settings.foldl (setParameter readJson) parameters).trie.lookup path =
        (parameters.trie.lookup path).map
          (Parameter.setAll readJson (valuesAt settings path)) := by
    induction settings generalizing parameters with
    | nil => exact Option.map_id_apply.symm
    | cons setting settings induction =>
        have parts : valuesAt (setting :: settings) path =
            valuesAt [setting] path ++ valuesAt settings path :=
          valuesAt_append [setting] settings path
        rw [List.foldl_cons, induction, lookup_setParameter, Option.map_map, parts]
        congr 1
        funext parameter
        exact (Parameter.setAll_append readJson _ _ parameter).symm
  exact through spec.parameters _

/-- A configured set of parameters declares what it did before. -/
def SameDeclarations (first second : DerivedParameters Val) : Prop :=
  ∀ path, Option.Rel Parameter.SameDeclaration (first.trie.lookup path) (second.trie.lookup path)

theorem sameDeclarations_configureParameters (readJson : ReadJson Val Generic)
    (spec : ModuleSpec Generic) (parameters : DerivedParameters Val) :
    SameDeclarations (configureParameters readJson spec parameters) parameters := by
  intro path
  rw [lookup_configureParameters]
  cases parameters.trie.lookup path with
  | none => exact .none
  | some parameter => exact .some (Parameter.sameDeclaration_setAll readJson _ parameter)

/-- What validators read after a specification: every parameter after the settings that name it. -/
def readingsAfter (readJson : ReadJson Val Generic) (spec : ModuleSpec Generic)
    (parameters : DerivedParameters Val) : Readings Val := fun name =>
  (parameters.trie.find name).map fun parameter =>
    (parameter.setAll readJson (valuesAt spec.parameters (components name))).reading

/-- What a specification does to the parameters of a module: under each name there is the parameter
that was there, after the settings that name it, in their order; its type and its validator stay;
and the default check passes exactly when every parameter then has a value that its validator
accepts, where validators read the parameters as they then are. -/
theorem configureParameters_correct (readJson : ReadJson Val Generic) (spec : ModuleSpec Generic)
    (parameters : DerivedParameters Val) :
    (∀ name, (configureParameters readJson spec parameters).trie.find name =
      (parameters.trie.find name).map
        (Parameter.setAll readJson (valuesAt spec.parameters (components name)))) ∧
    SameDeclarations (configureParameters readJson spec parameters) parameters ∧
    (configureParameters readJson spec parameters).name_ = spec.name ∧
    ((configureParameters readJson spec parameters).toParameters.check = true ↔
      ∀ name parameter, parameters.trie.find name = some parameter →
        (parameter.setAll readJson (valuesAt spec.parameters (components name))).validate
          (readingsAfter readJson spec parameters) = true) := by
  have found (name : List Char) : (configureParameters readJson spec parameters).trie.find name =
      (parameters.trie.find name).map
        (Parameter.setAll readJson (valuesAt spec.parameters (components name))) := by
    rw [find_eq, find_eq, lookup_configureParameters]
  have readings : (configureParameters readJson spec parameters).trie.readings =
      readingsAfter readJson spec parameters := by
    funext name
    rw [ParameterTrie.readings, found, Option.map_map]
    rfl
  refine ⟨found, sameDeclarations_configureParameters readJson spec parameters,
    name_configureParameters readJson spec parameters, ?_⟩
  rw [Parameters.check, readings,
    (configureParameters readJson spec parameters).isNamed.all_iff]
  simp only [found, Option.map_eq_some_iff]
  constructor
  · intro valid name parameter stored
    exact valid name _ ⟨parameter, stored, rfl⟩
  · rintro valid name _ ⟨parameter, stored, rfl⟩
    exact valid name parameter stored

end Settings

/-! ## A dump as settings -/

section Restore

variable {generic : GenericValues Val Generic} {readJson : ReadJson Val Generic}
  {module : List Char} {path : List (List Char)} {list : List (ParamDumpPair Generic)}
  {moduleMap : ModuleMap PortRef (DerivedParameters Val)}

/-- The rest of a dumped name after the name of a module and a separator. -/
def parameterName (module : List Char) (name : List Char) : Option (List Char) :=
  if module ++ ['/'] <+: name then some (name.drop (module.length + 1)) else none

/-- The entries of a dump for a module, as the settings of a configuration. -/
def settingsOf (module : List Char) (list : List (ParamDumpPair Generic)) :
    List (ParameterSpec Generic) :=
  list.filterMap fun entry =>
    (parameterName module entry.name).map fun name => ⟨name, entry.param⟩

theorem parameterName_eq_some_iff {name rest : List Char} :
    parameterName module name = some rest ↔ name = module ++ '/' :: rest := by
  rw [parameterName]
  split
  next starts =>
    obtain ⟨rest', rfl⟩ := starts
    have dropped : (module ++ ['/'] ++ rest').drop (module.length + 1) = rest' :=
      List.drop_left' (by simp)
    rw [dropped]
    simp [eq_comm]
  next other =>
    refine iff_of_false nofun ?_
    rintro rfl
    exact other ⟨rest, by simp⟩

theorem settingsOf_append (module : List Char) (list list' : List (ParamDumpPair Generic)) :
    settingsOf module (list ++ list') = settingsOf module list ++ settingsOf module list' :=
  List.filterMap_append

/-- Entries without a name of a parameter give it no value. -/
theorem valuesAt_settingsOf_eq_nil {stored : StoredParameter Val}
    (apart : ∀ entry ∈ list, ¬ stored.FullName entry.name) :
    valuesAt (settingsOf stored.module list) stored.path = [] := by
  rw [valuesAt, List.map_eq_nil_iff, List.filter_eq_nil_iff]
  intro setting member here
  obtain ⟨entry, inList, made⟩ := List.mem_filterMap.mp member
  obtain ⟨rest, named, rfl⟩ := Option.map_eq_some_iff.mp made
  exact apart entry inList
    ⟨rest, of_decide_eq_true here, parameterName_eq_some_iff.mp named⟩

theorem valuesAt_settingsOf_singleton {stored : StoredParameter Val}
    {entry : ParamDumpPair Generic} (isName : stored.FullName entry.name) :
    valuesAt (settingsOf stored.module [entry]) stored.path = [entry.param] := by
  obtain ⟨rest, here, named⟩ := isName
  have settings : settingsOf stored.module [entry] = [⟨rest, entry.param⟩] := by
    rw [settingsOf, List.filterMap_cons, parameterName_eq_some_iff.mpr named]
    rfl
  rw [settings, valuesAt_singleton, if_pos here]

/-- A dump in which only its own entry has a name of a parameter gives it its value. -/
theorem valuesAt_dump {all : List (StoredParameter Val)} (nodup : all.Nodup)
    {stored : StoredParameter Val} (member : stored ∈ all)
    (names : ∀ other ∈ all, stored.FullName (other.entry generic).name ↔ other = stored) :
    valuesAt (settingsOf stored.module (all.map (·.entry generic))) stored.path =
      [generic.ofValue stored.parameter.type stored.parameter.typed.value_] := by
  obtain ⟨before, after, rfl⟩ := List.append_of_mem member
  rw [List.nodup_middle, List.nodup_cons, List.mem_append, not_or] at nodup
  have none (part : List (StoredParameter Val)) (absent : stored ∉ part)
      (within : ∀ other ∈ part, other ∈ before ++ stored :: after) :
      valuesAt (settingsOf stored.module (part.map (·.entry generic))) stored.path = [] := by
    apply valuesAt_settingsOf_eq_nil
    intro entry inPart isName
    obtain ⟨other, here, rfl⟩ := List.mem_map.mp inPart
    exact absent ((names other (within other here)).mp isName ▸ here)
  rw [List.map_append, List.map_cons, ← List.singleton_append, settingsOf_append,
    settingsOf_append, valuesAt_append, valuesAt_append,
    none before nodup.1.1 (by simp +contextual), none after nodup.1.2 (by simp +contextual),
    valuesAt_settingsOf_singleton ((names stored member).mpr rfl)]
  rfl

/-- The configuration of a module, with the settings of a dump. -/
def dumpedSpec (module type : List Char) (list : List (ParamDumpPair Generic)) :
    ModuleSpec Generic :=
  ⟨module, type, settingsOf module list⟩

/-- A dumpable map is dumped, with an entry for each of its parameters. -/
theorem exists_dump (generic : GenericValues Val Generic) {file : DumpFile Generic}
    (opens : file.isOpen = true) (accepts : ∀ list, file.accepts list = true)
    (named : ∀ entry ∈ moduleMap.entries, entry.2.parameters.name_ = entry.1)
    (dumpable : Dumpable moduleMap) :
    ∃ written, dumpParameters generic file (initializedMap moduleMap) = .finished written ∧
      written.getD [] =
        (StoredParameter.ofEntries moduleMap.entries).map (·.entry generic) := by
  have set : ∀ stored ∈ StoredParameter.ofEntries moduleMap.entries,
      stored.parameter.hasValue = true :=
    fun stored member => dumpable.set stored (StoredParameter.mem_ofEntries.mp member)
  obtain ⟨after, finished, list⟩ := dumpModules_of_set generic accepts
    (name_initializedMap named) (ofEntries_initializedMap moduleMap ▸ set) Option.getD_none
  refine ⟨after, (dumpParameters_of_isOpen generic opens _).trans finished, ?_⟩
  rw [list, ofEntries_initializedMap, List.nil_append]

/-- In the dump of a dumpable map only its own entry has a name of a parameter. -/
theorem fullName_entry_iff_of_dumpable (generic : GenericValues Val Generic)
    (dumpable : Dumpable moduleMap) {stored other : StoredParameter Val}
    (here : Stored moduleMap stored) (there : Stored moduleMap other) :
    stored.FullName (other.entry generic).name ↔ other = stored := by
  rw [StoredParameter.fullName_entry_iff generic here.nameable there.nameable
    (dumpable.bare stored here) (dumpable.bare other there)]
  constructor
  · exact fun same => (dumpable.apart stored other here there same.1).symm
  · rintro rfl
    exact ⟨rfl, id⟩

/-- When an initialized map can be dumped, the dump has all of its parameters: read as settings, it
gives every module that declares the same parameters the values that they had. -/
theorem dump_restores (generic : GenericValues Val Generic) (readJson : ReadJson Val Generic)
    (inverse : ∀ type value old, readJson type (generic.ofValue type value) old = (value, none))
    {file : DumpFile Generic} (opens : file.isOpen = true)
    (accepts : ∀ list, file.accepts list = true)
    (named : ∀ entry ∈ moduleMap.entries, entry.2.parameters.name_ = entry.1)
    (dumpable : Dumpable moduleMap) :
    ∃ written, dumpParameters generic file (initializedMap moduleMap) = .finished written ∧
      ∀ module pair, moduleMap.lookup module = some pair →
        ∀ type (parameters : DerivedParameters Val), SameDeclarations parameters pair.parameters →
          ∀ name, (configureParameters readJson (dumpedSpec module type (written.getD []))
            parameters).trie.find name = pair.parameters.trie.find name := by
  obtain ⟨written, finished, list⟩ := exists_dump generic opens accepts named dumpable
  refine ⟨written, finished, fun module pair keyed type parameters same name => ?_⟩
  rw [find_eq, find_eq, lookup_configureParameters, list]
  have declared := same (components name)
  generalize parameters.trie.lookup (components name) = first at declared ⊢
  generalize found : pair.parameters.trie.lookup (components name) = second at declared ⊢
  cases declared with
  | none => rfl
  | @some old parameter sameDeclaration =>
      have inMap : Stored moduleMap ⟨module, components name, parameter⟩ := ⟨pair, keyed, found⟩
      have values := valuesAt_dump (StoredParameter.nodup_ofEntries moduleMap)
        (StoredParameter.mem_ofEntries.mpr inMap) fun other member =>
          fullName_entry_iff_of_dumpable generic dumpable inMap
            (StoredParameter.mem_ofEntries.mp member)
      refine congrArg some ?_
      rw [dumpedSpec, values]
      exact Parameter.valueFromGeneric_ofValue inverse sameDeclaration (dumpable.set _ inMap)

end Restore

/-- Reading natural numbers; the null value is not one. -/
def readNaturals : ReadJson (fun _ : Unit => ℕ) (Option ℕ)
  | _, some value, _ => (value, none)
  | _, none, old => (old, some "expected a number")

/-- The module `m` with a parameter `x`. -/
def oneParameter : ModuleMap ℕ (DerivedParameters fun _ : Unit => ℕ) :=
  lenient (Built.empty.add ['x'] () 1).named

theorem stored_oneParameter {stored : StoredParameter fun _ : Unit => ℕ}
    (inMap : Stored oneParameter stored) :
    stored = ⟨['m'], [['x']], ⟨(), true, none, 1⟩⟩ := by
  obtain ⟨pair, keyed, found⟩ := inMap
  obtain ⟨module, path, parameter⟩ := stored
  have same := List.mem_singleton.mp (AList.mem_lookup_iff.mp keyed)
  cases same
  have built : (add .empty ['x'] () 1 : ParameterTrie fun _ : Unit => ℕ).lookup path =
      some parameter := found
  rw [add, addGeneric_eq, Trie.lookup_alter, Trie.lookup_empty] at built
  split at built
  next here =>
    cases built
    cases here
    rfl
  next => cases built

theorem dumpable_oneParameter : Dumpable oneParameter where
  set stored inMap := by rw [stored_oneParameter inMap]; rfl
  bare stored inMap := by rw [stored_oneParameter inMap]; exact ⟨by decide, by decide⟩
  apart stored other inMap inMap' _ :=
    (stored_oneParameter inMap).trans (stored_oneParameter inMap').symm

theorem dump_restores_oneParameter :
    ∃ written, dumpParameters naturals ⟨true, fun _ => true⟩ (initializedMap oneParameter) =
        .finished written ∧
      ∀ module pair, oneParameter.lookup module = some pair →
        ∀ type (parameters : DerivedParameters fun _ : Unit => ℕ),
          SameDeclarations parameters pair.parameters →
          ∀ name, (configureParameters readNaturals (dumpedSpec module type (written.getD []))
            parameters).trie.find name = pair.parameters.trie.find name :=
  dump_restores naturals readNaturals (fun _ _ _ => rfl) rfl (fun _ => rfl)
    (fun entry member => by cases List.mem_singleton.mp member; rfl) dumpable_oneParameter

end SimoSim

end Simo
