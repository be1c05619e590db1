import Mathlib.Algebra.Order.BigOperators.Group.List
import Mathlib.Algebra.Order.Group.Nat
import Simo.Core.InitializationStatus
import Simo.Module.Parameters
import Simo.Parameter.Visit
import Simo.SimoSim.Endpoint

/-!
# The dump of the parameters

After a successful initialization the program can write the parameters of all modules to a file.  It
uses the pointer that `visit` gives it without looking whether it is null, and it takes the names
from `visit` as they are.  So every stored parameter has its entry if and only if all of them have
values, their names survive the visit, and no two modules share a full name.
-/

namespace Simo

variable {Ty : Type*} {Val : Ty → Type*} {Generic PortRef : Type*}

/-- The generic values: the null value, and the assignment of a value of each type. -/
structure GenericValues {Ty : Type*} (Val : Ty → Type*) (Generic : Type*) where
  null : Generic
  ofValue : ∀ type, Val type → Generic

/-- The generic representation of a parameter: null if it has no value. -/
def Parameter.valueToGeneric (generic : GenericValues Val Generic) (parameter : Parameter Val) :
    Except String Generic :=
  if !parameter.hasValue then .ok generic.null
  else .ok (generic.ofValue parameter.type parameter.typed.value_)

/-- A set of parameters whose class can override `check`. -/
structure DerivedParameters {Ty : Type*} (Val : Ty → Type*) extends Parameters Val where
  /-- The override, if there is one. -/
  checkOverride : Option (ParameterTrie Val → Bool)
  isNamed : trie.Named

def DerivedParameters.check (parameters : DerivedParameters Val) : Bool :=
  match parameters.checkOverride with
  | none => parameters.toParameters.check
  | some check => check parameters.trie

namespace SimoSim

open ParameterTrie

/-! ## Initialization -/

/-- `Module::initialize`: the module takes its name from the parameters, and they are checked. -/
def initializeModule (pair : ModuleParameterPair PortRef (DerivedParameters Val)) :
    ModuleParameterPair PortRef (DerivedParameters Val) × InitializationStatus (List Char) :=
  let name := pair.parameters.name_
  ({ pair with module := .mk name pair.module.ports pair.module.children },
    if pair.parameters.check then .ok (some name)
    else .ofErrors (some name) ["Parameter check failed"])

/-- The map after the initialization of its modules. -/
def initializedMap (moduleMap : ModuleMap PortRef (DerivedParameters Val)) :
    ModuleMap PortRef (DerivedParameters Val) where
  entries := moduleMap.entries.map fun entry => ⟨entry.1, (initializeModule entry.2).1⟩
  nodupKeys := by
    rw [List.NodupKeys, List.keys, List.map_map]
    exact moduleMap.nodupKeys

/-- The status that `Context::initialize` returns for the modules of the map. -/
def initializationStatus (moduleMap : ModuleMap PortRef (DerivedParameters Val)) :
    InitializationStatus (List Char) :=
  moduleMap.entries.foldl (fun status entry =>
    let moduleStatus := (initializeModule entry.2).2
    if !moduleStatus.success then status.emplaceSubError moduleStatus else status) (.ok none)

/-! ## The dump -/

structure ParamDumpPair (Generic : Type*) where
  name : List Char
  param : Generic

/-- The file that is dumped to: whether it can be opened, and which lists can be written to it. -/
structure DumpFile (Generic : Type*) where
  isOpen : Bool
  accepts : List (ParamDumpPair Generic) → Bool

/-- The ways in which `dump_parameters` is left.  At its end the file has the list that was written
last, if any. -/
inductive DumpOutcome (Generic : Type*) where
  | cannotOpen
  | nullPointer
  | writeError
  | finished (written : Option (List (ParamDumpPair Generic)))

/-- The function that visits the parameters; `none` when it uses a null pointer. -/
def dumpParameter (generic : GenericValues Val Generic) (moduleName : List Char)
    (vect : List (ParamDumpPair Generic)) (call : List Char × Option (ParameterPtr Val)) :
    Option (List (ParamDumpPair Generic)) :=
  match call.2 with
  | none => none
  | some param =>
      match param.parameter.valueToGeneric generic with
      | .error _ => some vect
      | .ok value => some (vect ++ [⟨moduleName ++ '/' :: call.1, value⟩])

/-- The loop over the modules; the list is written again after each of them. -/
def dumpModules (generic : GenericValues Val Generic) (file : DumpFile Generic) :
    List (Sigma fun _ : List Char => ModuleParameterPair PortRef (DerivedParameters Val)) →
    List (ParamDumpPair Generic) → Option (List (ParamDumpPair Generic)) → DumpOutcome Generic
  | [], _, written => .finished written
  | ⟨_, pair⟩ :: rest, vect, _ =>
      match pair.parameters.trie.visit.foldlM (dumpParameter generic pair.module.name_) vect with
      | none => .nullPointer
      | some vect =>
          if file.accepts vect then dumpModules generic file rest vect (some vect)
          else .writeError

def dumpParameters (generic : GenericValues Val Generic) (file : DumpFile Generic)
    (moduleMap : ModuleMap PortRef (DerivedParameters Val)) : DumpOutcome Generic :=
  if !file.isOpen then .cannotOpen else dumpModules generic file moduleMap.entries [] none

/-! ## What a dump should have -/

/-- A parameter in the trie of a module. -/
structure StoredParameter {Ty : Type*} (Val : Ty → Type*) where
  module : List Char
  path : List (List Char)
  parameter : Parameter Val

namespace StoredParameter

/-- Whether a name is the name of the module, a separator and a name of the parameter. -/
def FullName (stored : StoredParameter Val) (name : List Char) : Prop :=
  ∃ parameterName, components parameterName = stored.path ∧
    name = stored.module ++ '/' :: parameterName

/-- The name of the module and the pieces of the path, with separators between them. -/
def text (stored : StoredParameter Val) : List Char :=
  [parameterNodeSeparator].intercalate (stored.module :: stored.path)

end StoredParameter

def Stored (moduleMap : ModuleMap PortRef (DerivedParameters Val)) (stored : StoredParameter Val) :
    Prop :=
  ∃ pair, moduleMap.lookup stored.module = some pair ∧
    pair.parameters.trie.lookup stored.path = some stored.parameter

/-- The list has one entry for each of the stored parameters, with its value, and no other entry has
a name of that parameter. -/
structure Lists (generic : GenericValues Val Generic) (stored : List (StoredParameter Val))
    (list : List (ParamDumpPair Generic)) : Prop where
  values : list.map (fun entry => Except.ok entry.param) =
    stored.map fun parameter => parameter.parameter.valueToGeneric generic
  names : ∀ (i j : ℕ) (parameter : StoredParameter Val) (entry : ParamDumpPair Generic),
    stored[i]? = some parameter → list[j]? = some entry →
      (parameter.FullName entry.name ↔ i = j)

/-- The dump reaches its end, and the list in the file has every parameter of every module. -/
def DumpsAll (generic : GenericValues Val Generic)
    (moduleMap : ModuleMap PortRef (DerivedParameters Val)) (outcome : DumpOutcome Generic) :
    Prop :=
  ∃ (written : Option (List (ParamDumpPair Generic))) (stored : List (StoredParameter Val)),
    outcome = .finished written ∧ stored.Nodup ∧
      (∀ parameter, parameter ∈ stored ↔ Stored moduleMap parameter) ∧
      Lists generic stored (written.getD [])

/-- Every stored parameter has a value, no path begins or ends with an empty piece, and the full
names of the stored parameters are different. -/
structure Dumpable (moduleMap : ModuleMap PortRef (DerivedParameters Val)) : Prop where
  set : ∀ stored, Stored moduleMap stored → stored.parameter.hasValue = true
  bare : ∀ stored, Stored moduleMap stored → Bare stored.path
  apart : ∀ stored other, Stored moduleMap stored → Stored moduleMap other →
    stored.text = other.text → stored = other

/-! ## The list that is dumped -/

namespace StoredParameter

/-- The entry that is made for a parameter with a value. -/
def entry (generic : GenericValues Val Generic) (stored : StoredParameter Val) :
    ParamDumpPair Generic where
  name := stored.module ++ '/' :: visitName stored.path
  param := generic.ofValue stored.parameter.type stored.parameter.typed.value_

/-- The parameters of a module, in the order of the visit. -/
def ofPair (module : List Char) (pair : ModuleParameterPair PortRef (DerivedParameters Val)) :
    List (StoredParameter Val) :=
  pair.parameters.trie.entries.map fun entry => ⟨module, entry.1, entry.2⟩

/-- The parameters of a list of modules. -/
def ofEntries (entries : List (Sigma fun _ : List Char =>
    ModuleParameterPair PortRef (DerivedParameters Val))) : List (StoredParameter Val) :=
  entries.flatMap fun entry => ofPair entry.1 entry.2

theorem mem_ofPair {module : List Char} {pair : ModuleParameterPair PortRef (DerivedParameters Val)}
    {stored : StoredParameter Val} : stored ∈ ofPair module pair ↔
      stored.module = module ∧ pair.parameters.trie.lookup stored.path = some stored.parameter := by
  have isNamed := pair.parameters.isNamed
  rw [ofPair, List.mem_map]
  constructor
  · rintro ⟨⟨path, parameter⟩, member, rfl⟩
    exact ⟨rfl, (Trie.mem_entries isNamed.wellFormed).mp member⟩
  · rintro ⟨rfl, found⟩
    exact ⟨_, (Trie.mem_entries isNamed.wellFormed).mpr found, rfl⟩

theorem mem_ofEntries {moduleMap : ModuleMap PortRef (DerivedParameters Val)}
    {stored : StoredParameter Val} :
    stored ∈ ofEntries moduleMap.entries ↔ Stored moduleMap stored := by
  simp only [ofEntries, List.mem_flatMap, mem_ofPair]
  constructor
  · rintro ⟨⟨module, pair⟩, member, rfl, found⟩
    exact ⟨pair, AList.mem_lookup_iff.mpr member, found⟩
  · rintro ⟨pair, keyed, found⟩
    exact ⟨⟨stored.module, pair⟩, AList.mem_lookup_iff.mp keyed, rfl, found⟩

theorem nodup_ofEntries (moduleMap : ModuleMap PortRef (DerivedParameters Val)) :
    (ofEntries moduleMap.entries).Nodup := by
  rw [ofEntries, List.nodup_flatMap]
  constructor
  · intro entry _
    apply List.Nodup.of_map path
    have paths : (ofPair entry.1 entry.2).map path =
        entry.2.parameters.trie.entries.map Prod.fst := by
      rw [ofPair, List.map_map]
      rfl
    rw [paths]
    exact Trie.nodup_entries entry.2.parameters.isNamed.wellFormed
  · refine (List.pairwise_map.mp moduleMap.nodupKeys).imp fun apart => ?_
    intro stored here there
    exact apart ((mem_ofPair.mp here).1.symm.trans (mem_ofPair.mp there).1)

end StoredParameter

section Loop

variable {generic : GenericValues Val Generic} {file : DumpFile Generic} {module : List Char}

/-- The visit of parameters with values adds their entries. -/
theorem foldlM_dumpParameter {entries : List (List (List Char) × Parameter Val)}
    (set : ∀ entry ∈ entries, entry.2.hasValue = true) (vect : List (ParamDumpPair Generic)) :
    (entries.map fun entry => (visitName entry.1, visitPtr entry.1 entry.2)).foldlM
        (dumpParameter generic module) vect =
      some (vect ++ entries.map fun entry =>
        StoredParameter.entry generic ⟨module, entry.1, entry.2⟩) := by
  induction entries generalizing vect with
  | nil => simp
  | cons entry rest induction =>
      have here : dumpParameter generic module vect
          (visitName entry.1, visitPtr entry.1 entry.2) =
          some (vect ++ [StoredParameter.entry generic ⟨module, entry.1, entry.2⟩]) := by
        simp [dumpParameter, visitPtr, Parameter.valueToGeneric, StoredParameter.entry,
          set entry List.mem_cons_self]
      rw [List.map_cons, List.foldlM_cons, here, Option.bind_eq_bind, Option.bind_some,
        induction fun entry member => set entry (List.mem_cons_of_mem _ member)]
      simp

/-- The visit of an unset parameter uses the null pointer. -/
theorem hasValue_of_foldlM {entries : List (List (List Char) × Parameter Val)}
    {vect after : List (ParamDumpPair Generic)}
    (visited : (entries.map fun entry => (visitName entry.1, visitPtr entry.1 entry.2)).foldlM
      (dumpParameter generic module) vect = some after) :
    ∀ entry ∈ entries, entry.2.hasValue = true := by
  induction entries generalizing vect with
  | nil => simp
  | cons entry rest induction =>
      rw [List.map_cons, List.foldlM_cons] at visited
      obtain ⟨between, here, later⟩ := Option.bind_eq_some_iff.mp visited
      refine List.forall_mem_cons.mpr ⟨?_, induction later⟩
      by_contra unset
      simp [dumpParameter, visitPtr, unset] at here

variable {entries : List (Sigma fun _ : List Char =>
  ModuleParameterPair PortRef (DerivedParameters Val))}

/-- If all parameters have values, their entries are written. -/
theorem dumpModules_of_set (generic : GenericValues Val Generic)
    (accepts : ∀ list, file.accepts list = true)
    (named : ∀ entry ∈ entries, entry.2.module.name_ = entry.1)
    (set : ∀ stored ∈ StoredParameter.ofEntries entries, stored.parameter.hasValue = true)
    {vect : List (ParamDumpPair Generic)} {written : Option (List (ParamDumpPair Generic))}
    (current : written.getD [] = vect) :
    ∃ after, dumpModules generic file entries vect written = .finished after ∧
      after.getD [] = vect ++ (StoredParameter.ofEntries entries).map (·.entry generic) := by
  induction entries generalizing vect written with
  | nil => exact ⟨written, rfl, by simp [StoredParameter.ofEntries, current]⟩
  | cons entry rest induction =>
      obtain ⟨module, pair⟩ := entry
      obtain ⟨name, named⟩ := List.forall_mem_cons.mp named
      rw [StoredParameter.ofEntries, List.flatMap_cons, List.forall_mem_append] at set
      have visited : pair.parameters.trie.visit.foldlM (dumpParameter generic module) vect =
          some (vect ++ (StoredParameter.ofPair module pair).map (·.entry generic)) := by
        rw [visit_eq pair.parameters.isNamed.wellFormed, foldlM_dumpParameter
          fun entry member => set.1 _ (List.mem_map_of_mem member), StoredParameter.ofPair,
          List.map_map]
        rfl
      obtain ⟨after, finished, list⟩ := induction named set.2 (Option.getD_some ..)
      refine ⟨after, ?_, ?_⟩
      · rw [dumpModules, name, visited]
        dsimp only
        rw [if_pos (accepts _)]
        exact finished
      · rw [list, StoredParameter.ofEntries, StoredParameter.ofEntries, List.flatMap_cons,
          List.map_append, List.append_assoc]

/-- If the end is reached, all parameters have values. -/
theorem hasValue_of_dumpModules {vect : List (ParamDumpPair Generic)}
    {written after : Option (List (ParamDumpPair Generic))}
    (finished : dumpModules generic file entries vect written = .finished after) :
    ∀ stored ∈ StoredParameter.ofEntries entries, stored.parameter.hasValue = true := by
  induction entries generalizing vect written with
  | nil => simp [StoredParameter.ofEntries]
  | cons entry rest induction =>
      obtain ⟨module, pair⟩ := entry
      rw [dumpModules, visit_eq pair.parameters.isNamed.wellFormed] at finished
      split at finished
      next => cases finished
      next between visited =>
        split at finished
        next =>
          rw [StoredParameter.ofEntries, List.flatMap_cons, List.forall_mem_append]
          refine ⟨fun stored member => ?_, induction finished⟩
          obtain ⟨entry, own, rfl⟩ := List.mem_map.mp member
          exact hasValue_of_foldlM visited entry own
        next => cases finished

end Loop

/-! ## Lengths of names -/

section Lengths

variable {path : List (List Char)}

/-- The length of the shortest name of a path. -/
def shortest (path : List (List Char)) : ℕ :=
  ([parameterNodeSeparator].intercalate path).length + if path.getLast? = some [] then 1 else 0

theorem eq_joined_components (name : List Char) :
    name = [parameterNodeSeparator].intercalate (components name) ∨
      name = [parameterNodeSeparator].intercalate (components name) ++ [parameterNodeSeparator] :=
  Pieces.eq_intercalate_pieces _ name

theorem shortest_components_le (name : List Char) : shortest (components name) ≤ name.length := by
  have whole := nameable_components name
  rw [shortest]
  rcases eq_joined_components name with same | same
  · -- Without a separator behind it, an empty last piece would not be a piece.
    rw [if_neg, Nat.add_zero, ← same]
    intro last
    obtain ⟨front, ends⟩ := List.getLast?_eq_some_iff.mp last
    rw [ends] at same
    have lost : components name = front := by
      rw [same]
      exact Pieces.pieces_intercalate_concat fun piece member =>
        whole piece (ends ▸ List.mem_append_left _ member)
    simp [lost] at ends
  · have length := congrArg List.length same
    rw [List.length_append, List.length_singleton] at length
    split <;> omega

theorem length_visitName_le (path : List (List Char)) :
    (visitName path).length ≤ ([parameterNodeSeparator].intercalate path).length := by
  rw [visitName_eq]
  induction path with
  | nil => rfl
  | cons first rest induction =>
      rcases eq_or_ne first [] with rfl | nonempty
      · refine induction.trans ?_
        cases rest <;> simp
      · rw [stripped, List.dropWhile_cons_of_neg (by simpa using nonempty)]

/-- Only bare paths are visited under a name that is as long as the shortest one. -/
theorem bare_of_shortest_le (long : shortest path ≤ (visitName path).length) : Bare path := by
  have short := length_visitName_le path
  rw [shortest] at long
  have last : path.getLast? ≠ some [] := fun ends => by
    rw [if_pos ends] at long
    omega
  refine ⟨fun head => ?_, last⟩
  obtain ⟨rest, rfl⟩ := List.head?_eq_some_iff.mp head
  have visited : visitName ([] :: rest) = visitName rest := rfl
  have below := length_visitName_le rest
  rw [visited] at long
  cases rest with
  | nil => simp at last
  | cons second rest =>
      rw [List.intercalate_cons_cons] at long
      simp only [List.nil_append, List.length_append, List.length_singleton] at long
      omega

end Lengths

/-! ## Full names -/

namespace StoredParameter

variable {stored other : StoredParameter Val} {generic : GenericValues Val Generic}

theorem text_of_path_ne_nil (deep : stored.path ≠ []) :
    stored.text =
      stored.module ++ '/' :: [parameterNodeSeparator].intercalate stored.path := by
  obtain ⟨first, rest, same⟩ := List.exists_cons_of_ne_nil deep
  rw [text, same, List.intercalate_cons_cons, List.append_assoc]
  rfl

theorem text_of_path_eq_nil (root : stored.path = []) : stored.text = stored.module := by
  rw [text, root, List.intercalate_singleton]

/-- A full name is the text or the text with one more separator. -/
theorem fullName_iff (nameable : Nameable stored.path) (bare : Bare stored.path)
    {name : List Char} : stored.FullName name ↔
      name = stored.text ++ ['/'] ∨ (stored.path ≠ [] ∧ name = stored.text) := by
  rcases eq_or_ne stored.path [] with root | deep
  · rw [text_of_path_eq_nil root, FullName, root]
    constructor
    · rintro ⟨parameterName, same, rfl⟩
      rw [Pieces.pieces_eq_nil.mp same]
      exact .inl rfl
    · rintro (rfl | ⟨absurd, -⟩)
      · exact ⟨[], rfl, rfl⟩
      · exact (absurd rfl).elim
  · rw [text_of_path_ne_nil deep, FullName]
    constructor
    · rintro ⟨parameterName, same, rfl⟩
      rcases eq_joined_components parameterName with joined | joined
      · exact .inr ⟨deep, by rw [← same, ← joined]⟩
      · left
        rw [← same, List.append_assoc, List.cons_append]
        exact congrArg (fun rest => stored.module ++ '/' :: rest) joined
    · rintro (rfl | ⟨-, rfl⟩)
      · refine ⟨_, Pieces.pieces_intercalate_append nameable deep, ?_⟩
        rw [List.append_assoc, List.cons_append]
        rfl
      · exact ⟨_, Pieces.pieces_intercalate nameable bare.2, rfl⟩

theorem name_entry_of_path_ne_nil (bare : Bare stored.path) (deep : stored.path ≠ []) :
    (stored.entry generic).name = stored.text := by
  rw [text_of_path_ne_nil deep, entry, visitName_eq, stripped_of_head? bare.1]

theorem name_entry_of_path_eq_nil (root : stored.path = []) :
    (stored.entry generic).name = stored.text ++ ['/'] := by
  rw [text_of_path_eq_nil root, entry, root]
  rfl

theorem text_ne_append (nameable : Nameable stored.path) (bare : Bare stored.path)
    (deep : stored.path ≠ []) (front : List Char) : stored.text ≠ front ++ ['/'] := by
  obtain ⟨x, ends, other⟩ := Pieces.getLast?_intercalate nameable deep bare.2
  intro same
  have last := congrArg List.getLast? same
  rw [text_of_path_ne_nil deep, List.getLast?_append, List.getLast?_cons, ends,
    List.getLast?_concat] at last
  exact other (Option.some.inj last)

/-- The entry of a parameter has a name of another one if both have the same text, except that a
root parameter is not meant by the name of a deeper one. -/
theorem fullName_entry_iff (generic : GenericValues Val Generic)
    (nameable : Nameable stored.path) (nameable' : Nameable other.path)
    (bare : Bare stored.path) (bare' : Bare other.path) :
    stored.FullName (other.entry generic).name ↔
      stored.text = other.text ∧ (stored.path = [] → other.path = []) := by
  rw [fullName_iff nameable bare]
  rcases eq_or_ne other.path [] with root' | deep'
  · rw [name_entry_of_path_eq_nil root', List.append_left_inj]
    constructor
    · rintro (same | ⟨deep, same⟩)
      · exact ⟨same.symm, fun _ => root'⟩
      · exact (text_ne_append nameable bare deep _ same.symm).elim
    · rintro ⟨same, -⟩
      exact .inl same.symm
  · rw [name_entry_of_path_ne_nil bare' deep']
    constructor
    · rintro (same | ⟨deep, same⟩)
      · exact (text_ne_append nameable' bare' deep' _ same).elim
      · exact ⟨same.symm, fun root => (deep root).elim⟩
    · rintro ⟨same, deeper⟩
      exact .inr ⟨fun root => deep' (deeper root), same.symm⟩

theorem length_of_fullName {name : List Char} (isName : stored.FullName name) :
    stored.module.length + 1 + shortest stored.path ≤ name.length := by
  obtain ⟨parameterName, same, rfl⟩ := isName
  have short := shortest_components_le parameterName
  rw [same] at short
  rw [List.length_append, List.length_cons]
  omega

end StoredParameter

/-! ## The condition -/

section Complete

variable {generic : GenericValues Val Generic} {all list : List (StoredParameter Val)}

/-- If the entries of all parameters are in one-to-one correspondence with the parameters, by their
names, then the paths are bare. -/
theorem bare_of_lists (sameParameters : list.Perm all)
    (lists : Lists generic list (all.map (·.entry generic))) :
    ∀ stored ∈ all, Bare stored.path := by
  have lengths : list.length = (all.map (·.entry generic)).length := by
    simpa using (congrArg List.length lists.values).symm
  let least (stored : StoredParameter Val) := stored.module.length + 1 + shortest stored.path
  let actual (stored : StoredParameter Val) := (stored.entry generic).name.length
  have actual_eq : ∀ stored : StoredParameter Val,
      actual stored = stored.module.length + 1 + (visitName stored.path).length := fun stored => by
    simp only [actual, StoredParameter.entry, List.length_append, List.length_cons]
    omega
  have each : List.Forall₂ (· ≤ ·) (list.map least) (all.map actual) := by
    rw [List.forall₂_map_left_iff, List.forall₂_map_right_iff, List.forall₂_iff_get]
    refine ⟨by simpa using lengths, fun i bound bound' => ?_⟩
    apply StoredParameter.length_of_fullName
    refine (lists.names i i _ _ (List.getElem?_eq_getElem bound) ?_).mpr rfl
    rw [List.getElem?_map, List.getElem?_eq_getElem bound']
    rfl
  by_contra crooked
  push Not at crooked
  obtain ⟨stored, member, notBare⟩ := crooked
  have shorter : (all.map actual).sum < (all.map least).sum := by
    refine List.sum_lt_sum _ _ (fun other _ => ?_) ⟨stored, member, ?_⟩
    · have short : (visitName other.path).length ≤ shortest other.path :=
        (length_visitName_le other.path).trans (Nat.le_add_right _ _)
      rw [actual_eq]
      exact Nat.add_le_add_left short _
    · rw [actual_eq]
      exact Nat.add_lt_add_left (not_le.mp fun long => notBare (bare_of_shortest_le long)) _
  apply shorter.not_ge
  calc (all.map least).sum = (list.map least).sum := ((sameParameters.map least).sum_eq).symm
    _ ≤ (all.map actual).sum := each.sum_le_sum

/-- Then their texts are different. -/
theorem eq_of_text (sameParameters : list.Perm all)
    (nameable : ∀ stored ∈ all, Nameable stored.path) (bare : ∀ stored ∈ all, Bare stored.path)
    (lists : Lists generic list (all.map (·.entry generic))) {stored other : StoredParameter Val}
    (member : stored ∈ all) (member' : other ∈ all) (same : stored.text = other.text) :
    stored = other := by
  have unique : ∀ s ∈ all, ∀ t ∈ all, s.FullName (t.entry generic).name → s = t := by
    intro s here t there isName
    obtain ⟨i, found⟩ := List.mem_iff_getElem?.mp (sameParameters.mem_iff.mpr here)
    have own := (StoredParameter.fullName_entry_iff generic (nameable s here)
      (nameable s here) (bare s here) (bare s here)).mpr ⟨rfl, id⟩
    have at_i : ∀ t ∈ all, s.FullName (t.entry generic).name → all[i]? = some t := by
      intro t there isName
      obtain ⟨j, found'⟩ := List.mem_iff_getElem?.mp there
      have index := (lists.names i j s (t.entry generic) found
        (by rw [List.getElem?_map, found']; rfl)).mp isName
      rw [index]
      exact found'
    exact Option.some.inj ((at_i s here own).symm.trans (at_i t there isName))
  have names := fun s here t there => StoredParameter.fullName_entry_iff generic
    (nameable s here) (nameable t there) (bare s here) (bare t there)
  by_cases deeper : stored.path = [] → other.path = []
  · exact unique _ member _ member' ((names _ member _ member').mpr ⟨same, deeper⟩)
  · refine (unique _ member' _ member ((names _ member' _ member).mpr ⟨same.symm, ?_⟩)).symm
    intro root
    exact absurd (fun _ => root) deeper

/-- Parameters with values, bare paths and different texts are listed by their entries. -/
theorem lists_entries (nodup : all.Nodup)
    (set : ∀ stored ∈ all, stored.parameter.hasValue = true)
    (nameable : ∀ stored ∈ all, Nameable stored.path) (bare : ∀ stored ∈ all, Bare stored.path)
    (apart : ∀ stored ∈ all, ∀ other ∈ all, stored.text = other.text → stored = other) :
    Lists generic all (all.map (·.entry generic)) := by
  constructor
  · rw [List.map_map]
    apply List.map_congr_left
    intro stored member
    simp [Parameter.valueToGeneric, set stored member, StoredParameter.entry]
  · intro i j parameter entry found found'
    rw [List.getElem?_map, Option.map_eq_some_iff] at found'
    obtain ⟨other, found', rfl⟩ := found'
    have member := List.mem_of_getElem? found
    have member' := List.mem_of_getElem? found'
    rw [StoredParameter.fullName_entry_iff generic (nameable _ member) (nameable _ member')
      (bare _ member) (bare _ member')]
    constructor
    · rintro ⟨same, -⟩
      rw [apart _ member _ member' same, ← found'] at found
      obtain ⟨bound, -⟩ := List.getElem?_eq_some_iff.mp found'
      exact ((List.getElem?_inj bound nodup).mp found.symm).symm
    · rintro rfl
      rw [found] at found'
      rw [Option.some.inj found']
      exact ⟨rfl, id⟩

end Complete

section Map

variable {moduleMap : ModuleMap PortRef (DerivedParameters Val)}

theorem ofEntries_initializedMap (moduleMap : ModuleMap PortRef (DerivedParameters Val)) :
    StoredParameter.ofEntries (initializedMap moduleMap).entries =
      StoredParameter.ofEntries moduleMap.entries := by
  rw [StoredParameter.ofEntries, initializedMap, List.flatMap_map]
  rfl

theorem Stored.nameable {stored : StoredParameter Val} (inMap : Stored moduleMap stored) :
    Nameable stored.path := by
  obtain ⟨pair, -, found⟩ := inMap
  exact pair.parameters.isNamed.nameable (Option.isSome_iff_exists.mpr ⟨_, found⟩)

/-- After the initialization every module has the name of its parameters. -/
theorem name_initializedMap
    (named : ∀ entry ∈ moduleMap.entries, entry.2.parameters.name_ = entry.1) :
    ∀ entry ∈ (initializedMap moduleMap).entries, entry.2.module.name_ = entry.1 := by
  intro entry member
  obtain ⟨before, inMap, rfl⟩ := List.mem_map.mp member
  exact named before inMap

theorem dumpParameters_of_isOpen (generic : GenericValues Val Generic) {file : DumpFile Generic}
    (opens : file.isOpen = true) (moduleMap : ModuleMap PortRef (DerivedParameters Val)) :
    dumpParameters generic file moduleMap =
      dumpModules generic file moduleMap.entries [] none := by
  rw [dumpParameters, opens]
  rfl

/-- When the file can be opened and written, the dump of an initialized map reaches its end and
lists every parameter of every module if and only if all stored parameters have values, their paths
are bare and their texts differ. -/
theorem dumpParameters_iff (generic : GenericValues Val Generic) {file : DumpFile Generic}
    (opens : file.isOpen = true) (accepts : ∀ list, file.accepts list = true)
    (named : ∀ entry ∈ moduleMap.entries, entry.2.parameters.name_ = entry.1) :
    DumpsAll generic moduleMap (dumpParameters generic file (initializedMap moduleMap)) ↔
      Dumpable moduleMap := by
  have nodup := StoredParameter.nodup_ofEntries moduleMap
  have inMap : ∀ stored, stored ∈ StoredParameter.ofEntries moduleMap.entries ↔
      Stored moduleMap stored := fun _ => StoredParameter.mem_ofEntries
  have nameable : ∀ stored ∈ StoredParameter.ofEntries moduleMap.entries,
      Nameable stored.path := fun stored member => ((inMap stored).mp member).nameable
  rw [dumpParameters_of_isOpen generic opens]
  constructor
  · rintro ⟨written, stored, finished, nodup', inMap', lists⟩
    have set := hasValue_of_dumpModules finished
    obtain ⟨after, finished', list⟩ := dumpModules_of_set generic accepts
      (name_initializedMap named) set Option.getD_none
    obtain rfl := DumpOutcome.finished.inj (finished.symm.trans finished')
    rw [ofEntries_initializedMap] at set list
    rw [list, List.nil_append] at lists
    have sameParameters := (List.perm_ext_iff_of_nodup nodup' nodup).mpr fun parameter =>
      (inMap' parameter).trans (inMap parameter).symm
    have bare := bare_of_lists sameParameters lists
    refine ⟨fun stored here => set stored ((inMap stored).mpr here),
      fun stored here => bare stored ((inMap stored).mpr here), fun stored other here there => ?_⟩
    exact eq_of_text sameParameters nameable bare lists ((inMap stored).mpr here)
      ((inMap other).mpr there)
  · rintro ⟨set, bare, apart⟩
    have set' : ∀ stored ∈ StoredParameter.ofEntries moduleMap.entries,
        stored.parameter.hasValue = true :=
      fun stored member => set stored ((inMap stored).mp member)
    obtain ⟨after, finished, list⟩ := dumpModules_of_set generic accepts
      (name_initializedMap named) (ofEntries_initializedMap moduleMap ▸ set') Option.getD_none
    refine ⟨after, _, finished, nodup, inMap, ?_⟩
    rw [list, ofEntries_initializedMap, List.nil_append]
    exact lists_entries nodup set' nameable
      (fun stored member => bare stored ((inMap stored).mp member))
      fun stored member other member' =>
        apart stored other ((inMap stored).mp member) ((inMap other).mp member')

end Map

/-- Natural numbers as generic values. -/
def naturals : GenericValues (fun _ : Unit => ℕ) (Option ℕ) := ⟨none, fun _ => some⟩

/-- A map with the module `m`, whose parameters are all accepted. -/
def lenient {trie : ParameterTrie fun _ : Unit => ℕ} (isNamed : trie.Named) :
    ModuleMap ℕ (DerivedParameters fun _ : Unit => ℕ) :=
  .singleton ['m'] ⟨.mk [] ∅ [], ⟨⟨trie, ['m']⟩, some fun _ => true, isNamed⟩⟩

theorem dumpParameters_iff_single :
    let moduleMap := lenient (Built.empty.add ['x'] () 1).named
    DumpsAll naturals moduleMap
        (dumpParameters naturals ⟨true, fun _ => true⟩ (initializedMap moduleMap)) ↔
      Dumpable moduleMap :=
  dumpParameters_iff naturals rfl (fun _ => rfl) fun entry member => by
    cases List.mem_singleton.mp member
    rfl

/-- A module whose `check` accepts an unset parameter is initialized, and the dump uses a null
pointer. -/
theorem not_dumpsAll_missing :
    let moduleMap := lenient built_missing.named
    (initializationStatus moduleMap).success = true ∧
      dumpParameters naturals ⟨true, fun _ => true⟩ (initializedMap moduleMap) = .nullPointer ∧
      ¬ DumpsAll naturals moduleMap
        (dumpParameters naturals ⟨true, fun _ => true⟩ (initializedMap moduleMap)) := by
  intro moduleMap
  have built : missing =
      .node none [(['a'], .node none [(['b'], .node (some ⟨(), .unset⟩) [])])] := by
    rw [missing, addUnset, addGeneric_eq]
    rfl
  have visited : missing.visit.foldlM (dumpParameter naturals ['m']) [] = none := by
    rw [built]
    rfl
  have crashes : dumpParameters naturals ⟨true, fun _ => true⟩ (initializedMap moduleMap) =
      .nullPointer := by
    change dumpModules naturals _ [⟨['m'], _⟩] [] none = _
    rw [dumpModules]
    split
    next => rfl
    next found =>
      cases visited.symm.trans found
  refine ⟨rfl, crashes, ?_⟩
  rintro ⟨written, stored, finished, -⟩
  rw [crashes] at finished
  cases finished

end SimoSim
end Simo
