import Simo.SimoSim.Endpoint

/-!
# Listed ports as endpoints

The program can list the ports that are not connected before it binds those that the configuration
names.  A listed name is the name of the owner, a separator and the name of the port.  The name of a
nested module has a separator of its own, so that the listed names of its ports are not endpoints.
-/

namespace Simo.SimoSim

variable {PortRef Params : Type*}

/-- What initialization leaves in the map: each module has the name of its key, and the modules
below it have the names that their parents give them. -/
structure Initialized (moduleMap : ModuleMap PortRef Params) : Prop where
  keyed : ∀ entry ∈ moduleMap.entries, entry.2.module.name_ = entry.1
  childrenNamed : ∀ entry ∈ moduleMap.entries, entry.2.module.ChildrenNamed

/-- Every listed port can be named as an endpoint: the listed name leads back to that port. -/
def ListedPortsResolve (moduleMap : ModuleMap PortRef Params) (connected : PortRef → Bool) : Prop :=
  ∀ entry ∈ moduleMap.entries, ∀ listed ∈ entry.2.module.getUnconnectedPorts connected true,
    resolveEndpoint moduleMap listed.fullName = some listed.port

/-- Every unconnected port belongs to a top-level module, and the module's and the port's names can
stand in an endpoint. -/
def UnconnectedPortsPlain (moduleMap : ModuleMap PortRef Params) (connected : PortRef → Bool) :
    Prop :=
  ∀ entry ∈ moduleMap.entries, ∀ owner, entry.2.module.Contains owner → ∀ name port,
    owner.getPort name = some port → connected port = false →
      ¬ entry.2.module.Nested owner ∧ PlainName entry.1 ∧ PlainName name

variable {moduleMap : ModuleMap PortRef Params} {connected : PortRef → Bool}

/-- The name of a port leads to it if its owner is in the map under its own name. -/
theorem resolveEndpoint_of_plain {key name : List Char} {pair : ModuleParameterPair PortRef Params}
    {port : PortRef} (keyed : moduleMap.lookup key = some pair)
    (found : pair.module.getPort name = some port) (keyName : PlainName key)
    (portName : PlainName name) : resolveEndpoint moduleMap (key ++ '/' :: name) = some port := by
  have parsed := parseModulePortName_append_iff.mpr ⟨rfl, keyName, portName⟩
  simp only [resolveEndpoint, parsed, keyed, found]

/-- The name of a port leads nowhere unless both parts are plain names. -/
theorem plain_of_resolveEndpoint {owner name : List Char} {port : PortRef}
    (resolved : resolveEndpoint moduleMap (owner ++ '/' :: name) = some port) :
    PlainName owner ∧ PlainName name := by
  cases parsed : parseModulePortName (owner ++ '/' :: name) with
  | none => simp [resolveEndpoint, parsed] at resolved
  | some found => exact (parseModulePortName_append_iff.mp parsed).2

/-- The listed names lead back to their ports if and only if no nested module has an unconnected
port, and an unconnected port of a top-level module and the module itself have plain names. -/
theorem listedPortsResolve_iff (initialized : Initialized moduleMap) (connected : PortRef → Bool) :
    ListedPortsResolve moduleMap connected ↔ UnconnectedPortsPlain moduleMap connected := by
  obtain ⟨keyed, childrenNamed⟩ := initialized
  constructor
  · intro resolve entry member owner contains name port found unconnected
    have own : ⟨owner.nameOfChild name, port⟩ ∈ owner.ownUnconnectedPorts connected :=
      Module.mem_ownUnconnectedPorts.mpr ⟨name, port, found, unconnected, rfl⟩
    have listed := Module.mem_getUnconnectedPorts.mpr ⟨owner, contains, own⟩
    obtain ⟨ownerName, portName⟩ := plain_of_resolveEndpoint (resolve entry member _ listed)
    have top : ¬ entry.2.module.Nested owner := fun nested =>
      ownerName.2 ((childrenNamed entry member).separator_mem nested)
    refine ⟨top, ?_, portName⟩
    rcases Module.contains_iff.mp contains with rfl | nested
    · exact keyed entry member ▸ ownerName
    · exact absurd nested top
  · intro plain entry member listed inListing
    obtain ⟨owner, contains, own⟩ := Module.mem_getUnconnectedPorts.mp inListing
    obtain ⟨name, port, found, unconnected, rfl⟩ := Module.mem_ownUnconnectedPorts.mp own
    obtain ⟨top, keyName, portName⟩ := plain entry member owner contains name port found unconnected
    rcases Module.contains_iff.mp contains with rfl | nested
    · rw [Module.nameOfChild, keyed entry member]
      exact resolveEndpoint_of_plain (AList.mem_lookup_iff.mpr member) found keyName portName
    · exact absurd nested top

/-- A map with one module `root`, which has a port, and children. -/
def rootMap (children : List (Module ℕ)) : ModuleMap ℕ Unit :=
  .singleton "root".toList ⟨.mk "root".toList (.singleton "out".toList 0) children, ()⟩

theorem listedPortsResolve_flat : ListedPortsResolve (rootMap []) fun _ => false := by
  apply (listedPortsResolve_iff _ _).mpr
  · intro entry member owner contains name port found _
    cases List.mem_singleton.mp member
    have top : ¬ Module.Nested (.mk "root".toList (.singleton "out".toList 0) []) owner := by
      rintro ⟨child, inside, -⟩
      cases inside
    obtain rfl := (Module.contains_iff.mp contains).resolve_right top
    cases List.mem_singleton.mp (AList.mem_lookup_iff.mp found)
    exact ⟨top, by decide, by decide⟩
  · refine ⟨fun entry member => ?_, fun entry member => ?_⟩
    · cases List.mem_singleton.mp member
      rfl
    · cases List.mem_singleton.mp member
      exact Module.childrenNamed_of_childless rfl

/-- A child with the name and the port of the library's own test. -/
def nestedChild : Module ℕ := .mk "root/child".toList (.singleton "unconnected".toList 1) []

/-- The port of the child is listed as `root/child/unconnected`, which is not an endpoint. -/
theorem not_listedPortsResolve_nested :
    Initialized (rootMap [nestedChild]) ∧
      ¬ ListedPortsResolve (rootMap [nestedChild]) fun _ => false := by
  refine ⟨⟨fun entry member => ?_, fun entry member => ?_⟩, fun resolve => ?_⟩
  · cases List.mem_singleton.mp member
    rfl
  · cases List.mem_singleton.mp member
    refine .node (fun child inside => ?_) fun child inside => ?_
    · cases List.mem_singleton.mp inside
      exact ⟨"child".toList, by decide⟩
    · cases List.mem_singleton.mp inside
      exact Module.childrenNamed_of_childless rfl
  · have resolved := resolve _ (List.mem_singleton_self _)
      ⟨"root/child/unconnected".toList, 1⟩ (by decide)
    revert resolved
    decide

end Simo.SimoSim
