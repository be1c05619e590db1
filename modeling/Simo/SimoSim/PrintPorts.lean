import Mathlib.Data.List.Induction
import Simo.SimoSim.Endpoint
import Simo.Support.Enumeration

/-!
# The printed listing of ports

`print_system_ports` visits the modules of the map in the order of the map, prints the unconnected
ports of each tree, and keeps a flag for the line that says that there are none.  The flag is
assigned anew at every module.
-/

namespace Simo

namespace Module

variable {PortRef : Type*} (connected : PortRef → Bool)

/-- The module at the end of a path of child positions. -/
def descendant (module : Module PortRef) : List ℕ → Option (Module PortRef)
  | [] => some module
  | index :: path =>
      match module.children[index]? with
      | none => none
      | some child => child.descendant path

/-- The module's port of this name, under its full name, if it is not connected. -/
def unconnectedPort (module : Module PortRef) (name : List Char) :
    Option (PortWithFullName PortRef) :=
  match module.getPort name with
  | none => none
  | some port => if connected port then none else some ⟨module.nameOfChild name, port⟩

/-- A place for a port in a tree: the path to the owner and the name of the port. -/
def unconnectedPortAt (module : Module PortRef) (place : List ℕ × List Char) :
    Option (PortWithFullName PortRef) :=
  match module.descendant place.1 with
  | none => none
  | some owner => owner.unconnectedPort connected place.2

/-- What the loop over the module's own ports lists for an entry. -/
private def listedEntry (module : Module PortRef) (entry : Sigma fun _ : List Char => PortRef) :
    Option (PortWithFullName PortRef) :=
  if connected entry.2 then none else some ⟨module.nameOfChild entry.1, entry.2⟩

private theorem ownUnconnectedPorts_eq_filterMap (module : Module PortRef) :
    module.ownUnconnectedPorts connected =
      module.ports.entries.filterMap (module.listedEntry connected) := by
  rw [ownUnconnectedPorts]
  induction module.ports.entries with
  | nil => rfl
  | cons entry entries induction =>
      cases connectedEntry : connected entry.2 with
      | false => simp [listedEntry, connectedEntry, induction]
      | true => simp [listedEntry, connectedEntry, induction]

theorem enumerates_ownUnconnectedPorts (module : Module PortRef) :
    Enumerates (module.unconnectedPort connected) (module.ownUnconnectedPorts connected) := by
  have byKey : module.unconnectedPort connected = fun name =>
      ((module.ports.lookup name).map (Sigma.mk name)).bind (module.listedEntry connected) := by
    funext name
    rw [unconnectedPort, getPort]
    cases module.ports.lookup name <;> rfl
  rw [byKey, ownUnconnectedPorts_eq_filterMap]
  exact (Enumerates.lookup module.ports).filterMap (module.listedEntry connected)

theorem ofChildren_eq_flatMap (children : List (Module PortRef)) :
    getUnconnectedPorts.ofChildren connected true children =
      children.flatMap (getUnconnectedPorts connected true) := by
  induction children with
  | nil => rfl
  | cons child rest induction =>
      rw [getUnconnectedPorts.ofChildren, induction, List.flatMap_cons]

/-- The listing of a tree has one entry for each place of an unconnected port. -/
theorem enumerates_getUnconnectedPorts (module : Module PortRef) :
    Enumerates (module.unconnectedPortAt connected)
      (module.getUnconnectedPorts connected true) := by
  induction module using childrenInduction with
  | step module induction =>
      -- the ports of the root, at the empty path
      have own : Enumerates
          (fun place : List ℕ × List Char =>
            if place.1 = [] then module.unconnectedPort connected place.2 else none)
          (module.ownUnconnectedPorts connected) := by
        refine (enumerates_ownUnconnectedPorts connected module).image (Prod.mk [])
          (Prod.mk_right_injective []) (fun name => if_pos rfl) fun place elsewhere => ?_
        exact if_neg fun root => elsewhere place.2 (Prod.ext root.symm rfl)
      -- the ports below the root, behind the position of a child
      have below : Enumerates
          (fun place : List ℕ × List Char =>
            if place.1 = [] then none else module.unconnectedPortAt connected place)
          (module.children.flatMap (getUnconnectedPorts connected true)) := by
        refine ((Enumerates.getElem? module.children).flatMap induction).image
          (fun place => (place.1 :: place.2.1, place.2.2)) ?_ ?_ ?_
        · rintro ⟨index, path, name⟩ ⟨index', path', name'⟩ same
          simp only [Prod.mk.injEq, List.cons.injEq] at same
          obtain ⟨⟨rfl, rfl⟩, rfl⟩ := same
          rfl
        · rintro ⟨index, path, name⟩
          rw [if_neg (List.cons_ne_nil index path)]
          simp only [unconnectedPortAt, descendant]
          cases module.children[index]? <;> rfl
        · rintro ⟨path, name⟩ elsewhere
          cases path with
          | nil => exact if_pos rfl
          | cons index path => exact absurd rfl (elsewhere (index, path, name))
      have whole : module.unconnectedPortAt connected = fun place =>
          (if place.1 = [] then module.unconnectedPort connected place.2 else none).or
            (if place.1 = [] then none else module.unconnectedPortAt connected place) := by
        funext place
        obtain ⟨path, name⟩ := place
        cases path with
        | nil => simp [unconnectedPortAt, descendant]
        | cons index path => simp
      rw [whole, getUnconnectedPorts_nested, ofChildren_eq_flatMap]
      refine own.append below fun place => ?_
      by_cases root : place.1 = []
      · exact .inr (if_pos root)
      · exact .inl (if_neg root)

/-- Some module of the tree has a port that is not connected. -/
def HasUnconnectedPort (module : Module PortRef) : Prop :=
  ∃ owner, module.Contains owner ∧ ∃ name port, owner.getPort name = some port ∧
    connected port = false

theorem getUnconnectedPorts_ne_nil_iff {connected : PortRef → Bool} {module : Module PortRef} :
    module.getUnconnectedPorts connected true ≠ [] ↔ module.HasUnconnectedPort connected := by
  rw [ne_eq, List.eq_nil_iff_forall_not_mem, not_forall_not]
  simp only [mem_getUnconnectedPorts, mem_ownUnconnectedPorts]
  constructor
  · rintro ⟨-, owner, contains, name, port, found, unconnected, -⟩
    exact ⟨owner, contains, name, port, found, unconnected⟩
  · rintro ⟨owner, contains, name, port, found, unconnected⟩
    exact ⟨_, owner, contains, name, port, found, unconnected, rfl⟩

end Module

namespace SimoSim

variable {PortRef Params : Type*}

/-- An entry of `module_map`. -/
abbrev ModuleEntry (PortRef Params : Type*) :=
  Sigma fun _ : List Char => ModuleParameterPair PortRef Params

/-- The line for a port; `prettyName` gives the name of its runtime type. -/
def portLine (prettyName : PortRef → List Char) (port : Module.PortWithFullName PortRef) :
    List Char :=
  "  ".toList ++ port.fullName ++ " - ".toList ++ prettyName port.port ++ "\n".toList

/-- The body of the loop over the map, on `ports_printed` and the lines written so far. -/
def printModulePorts (connected : PortRef → Bool) (prettyName : PortRef → List Char)
    (state : Bool × List (List Char)) (entry : ModuleEntry PortRef Params) :
    Bool × List (List Char) :=
  let ports := entry.2.module.getUnconnectedPorts connected true
  (!ports.isEmpty, state.2 ++ ports.map (portLine prettyName))

/-- `print_system_ports`: the lines that it writes. -/
def printSystemPorts (moduleMap : ModuleMap PortRef Params) (connected : PortRef → Bool)
    (prettyName : PortRef → List Char) : List (List Char) :=
  let (portsPrinted, lines) := moduleMap.entries.foldl (printModulePorts connected prettyName)
    (false, ["Ports exposed by the system:\n".toList])
  if !portsPrinted then lines ++ ["  No ports\n".toList] else lines

/-- The unconnected port at a place of the system: the module's name in the map, the path to the
owner and the name of the port. -/
def exposedPortAt (moduleMap : ModuleMap PortRef Params) (connected : PortRef → Bool)
    (place : List Char × List ℕ × List Char) : Option (Module.PortWithFullName PortRef) :=
  match moduleMap.lookup place.1 with
  | none => none
  | some pair => pair.module.unconnectedPortAt connected place.2

/-- The listing has one line for each unconnected port of the system, and the line for an empty
listing if and only if it has no such line. -/
def ListsPorts (moduleMap : ModuleMap PortRef Params) (connected : PortRef → Bool)
    (prettyName : PortRef → List Char) : Prop :=
  ∃ listed, Enumerates (exposedPortAt moduleMap connected) listed ∧
    printSystemPorts moduleMap connected prettyName =
      "Ports exposed by the system:\n".toList :: (listed.map (portLine prettyName) ++
        if listed = [] then ["  No ports\n".toList] else [])

/-- If a module of the system has an unconnected port, then so has the one visited last. -/
def LastModuleDecides (moduleMap : ModuleMap PortRef Params) (connected : PortRef → Bool) : Prop :=
  ∀ last ∈ moduleMap.entries.getLast?,
    (∃ entry ∈ moduleMap.entries, entry.2.module.HasUnconnectedPort connected) →
      last.2.module.HasUnconnectedPort connected

variable {moduleMap : ModuleMap PortRef Params} {connected : PortRef → Bool}
  {prettyName : PortRef → List Char}

/-- The ports that the loop over the map lists, in its order. -/
def systemPorts (moduleMap : ModuleMap PortRef Params) (connected : PortRef → Bool) :
    List (Module.PortWithFullName PortRef) :=
  moduleMap.entries.flatMap fun entry => entry.2.module.getUnconnectedPorts connected true

/-- `ports_printed` after the loop over the map. -/
def portsPrinted (moduleMap : ModuleMap PortRef Params) (connected : PortRef → Bool) : Bool :=
  moduleMap.entries.getLast?.any fun last =>
    !(last.2.module.getUnconnectedPorts connected true).isEmpty

theorem enumerates_systemPorts (moduleMap : ModuleMap PortRef Params) (connected : PortRef → Bool) :
    Enumerates (exposedPortAt moduleMap connected) (systemPorts moduleMap connected) := by
  have parts := (Enumerates.lookup moduleMap).flatMap fun entry _ =>
    Module.enumerates_getUnconnectedPorts connected entry.2.module
  have byKey : exposedPortAt moduleMap connected = fun place =>
      ((moduleMap.lookup place.1).map (Sigma.mk place.1)).bind
        fun entry : ModuleEntry PortRef Params =>
          entry.2.module.unconnectedPortAt connected place.2 := by
    funext place
    rw [exposedPortAt]
    cases moduleMap.lookup place.1 <;> rfl
  rw [byKey]
  exact parts

theorem systemPorts_ne_nil_iff :
    systemPorts moduleMap connected ≠ [] ↔
      ∃ entry ∈ moduleMap.entries, entry.2.module.HasUnconnectedPort connected := by
  simp only [systemPorts, ne_eq, List.flatMap_eq_nil_iff, not_forall, exists_prop]
  simp only [← ne_eq, Module.getUnconnectedPorts_ne_nil_iff]

theorem portsPrinted_iff :
    portsPrinted moduleMap connected = true ↔
      ∃ last ∈ moduleMap.entries.getLast?, last.2.module.HasUnconnectedPort connected := by
  rw [portsPrinted]
  cases moduleMap.entries.getLast? with
  | none => simp
  | some last =>
      simp only [Option.any_some, Bool.not_eq_true', List.isEmpty_eq_false_iff,
        Module.getUnconnectedPorts_ne_nil_iff, Option.mem_some_iff, exists_eq_left']

/-- A visit appends the lines of its module, and the flag is that of the last visit. -/
theorem foldl_printModulePorts (entries : List (ModuleEntry PortRef Params))
    (lines : List (List Char)) :
    entries.foldl (printModulePorts connected prettyName) (false, lines) =
      (entries.getLast?.any fun last =>
          !(last.2.module.getUnconnectedPorts connected true).isEmpty,
        lines ++ (entries.flatMap fun entry =>
          entry.2.module.getUnconnectedPorts connected true).map (portLine prettyName)) := by
  induction entries using List.reverseRec with
  | nil => simp
  | append_singleton entries last induction =>
      rw [List.foldl_append, induction]
      simp [printModulePorts]

theorem printSystemPorts_eq :
    printSystemPorts moduleMap connected prettyName =
      "Ports exposed by the system:\n".toList ::
        ((systemPorts moduleMap connected).map (portLine prettyName) ++
          if portsPrinted moduleMap connected = true then [] else ["  No ports\n".toList]) := by
  rw [printSystemPorts, foldl_printModulePorts]
  change (if !portsPrinted moduleMap connected then _ else _) = _
  cases portsPrinted moduleMap connected with
  | false => simp [systemPorts]
  | true => simp [systemPorts]

/-- The listing is right if and only if the flag says at the end whether a port was printed. -/
theorem listsPorts_iff_flag :
    ListsPorts moduleMap connected prettyName ↔
      (systemPorts moduleMap connected ≠ [] ↔ portsPrinted moduleMap connected = true) := by
  constructor
  · rintro ⟨listed, enumerates, printed⟩
    have same : listed.Perm (systemPorts moduleMap connected) :=
      enumerates.perm (enumerates_systemPorts moduleMap connected)
    have empty : listed = [] ↔ systemPorts moduleMap connected = [] := by
      rw [← List.length_eq_zero_iff, same.length_eq, List.length_eq_zero_iff]
    -- both listings have the same number of lines for ports, hence as many after them
    rw [printSystemPorts_eq] at printed
    have lengths := congrArg List.length printed
    simp only [List.length_cons, List.length_append, List.length_map, same.length_eq, empty,
      Nat.add_right_cancel_iff, Nat.add_left_cancel_iff] at lengths
    by_cases none : systemPorts moduleMap connected = []
    · rw [if_pos none] at lengths
      refine iff_of_false (not_not.mpr none) fun set => ?_
      rw [if_pos set] at lengths
      cases lengths
    · rw [if_neg none] at lengths
      refine iff_of_true none (by_contra fun unset => ?_)
      rw [if_neg unset] at lengths
      cases lengths
  · intro flag
    refine ⟨_, enumerates_systemPorts moduleMap connected, ?_⟩
    rw [printSystemPorts_eq]
    by_cases none : systemPorts moduleMap connected = []
    · rw [if_pos none, if_neg fun set => flag.mpr set none]
    · rw [if_neg none, if_pos (flag.mp none)]

/-- The listing is complete and says that there are no ports only when there are none, if and only
if the module that is visited last has an unconnected port or no module has one. -/
theorem listsPorts_iff :
    ListsPorts moduleMap connected prettyName ↔ LastModuleDecides moduleMap connected := by
  rw [listsPorts_iff_flag, portsPrinted_iff, systemPorts_ne_nil_iff]
  constructor
  · intro flag last isLast exposed
    obtain ⟨visited, isVisited, has⟩ := flag.mp exposed
    obtain rfl := Option.mem_unique isLast isVisited
    exact has
  · intro decides
    constructor
    · rintro ⟨entry, member, has⟩
      have nonempty : moduleMap.entries ≠ [] := List.ne_nil_of_mem member
      have isLast := List.getLast?_eq_getLast_of_ne_nil nonempty
      exact ⟨_, isLast, decides _ isLast ⟨entry, member, has⟩⟩
    · rintro ⟨last, isLast, has⟩
      exact ⟨last, List.mem_of_getLast? isLast, has⟩

/-- A system of two modules; the one that is visited last has no port. -/
def sourceThenIdle : ModuleMap ℕ Unit :=
  (AList.singleton "idle".toList ⟨.mk "idle".toList ∅ [], ()⟩).insert "source".toList
    ⟨.mk "source".toList (.singleton "out".toList 0) [], ()⟩

/-- The port of the first module is printed, and then the line for an empty listing. -/
theorem not_listsPorts_sourceThenIdle :
    ¬ ListsPorts sourceThenIdle (fun _ => false) fun _ => "OutPort<int>".toList := by
  rw [listsPorts_iff_flag]
  decide

end SimoSim

end Simo
