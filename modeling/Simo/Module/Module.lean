import Mathlib.Data.List.AList

/-!
# Modules and their ports

A module owns ports, under names, and child modules.  Only the names of its own ports lead to a
port; the listing of unconnected ports descends to the children and writes a port under the name of
the module that owns it.
-/

namespace Simo

/-- A module: its name, its ports in the order in which the unordered map visits them, and its
children. -/
inductive Module (PortRef : Type*) where
  | mk (name_ : List Char) (ports : AList fun _ : List Char => PortRef)
      (children : List (Module PortRef))

namespace Module

variable {PortRef : Type*}

def name_ : Module PortRef → List Char
  | mk name_ _ _ => name_

def ports : Module PortRef → AList fun _ : List Char => PortRef
  | mk _ ports _ => ports

def children : Module PortRef → List (Module PortRef)
  | mk _ _ children => children

def nameOfChild (module : Module PortRef) (child : List Char) : List Char :=
  module.name_ ++ '/' :: child

/-- `get_port`: the port of this name, unless it is null. -/
def getPort (module : Module PortRef) (name : List Char) : Option PortRef :=
  module.ports.lookup name

structure PortWithFullName (PortRef : Type*) where
  fullName : List Char
  port : PortRef
deriving DecidableEq

/-- The loop of `get_unconnected_ports` over the module's own ports. -/
def ownUnconnectedPorts (connected : PortRef → Bool) (module : Module PortRef) :
    List (PortWithFullName PortRef) :=
  (module.ports.entries.filter fun entry => !connected entry.2).map fun entry =>
    ⟨module.nameOfChild entry.1, entry.2⟩

/-- `get_unconnected_ports`, where `connected` says which ports are connected. -/
def getUnconnectedPorts (connected : PortRef → Bool) (includeNestedComponents : Bool) :
    Module PortRef → List (PortWithFullName PortRef)
  | mk name_ ports children =>
      let ret := (mk name_ ports children).ownUnconnectedPorts connected
      if !includeNestedComponents then ret
      else ret ++ ofChildren connected includeNestedComponents children
where
  /-- The loop over the children. -/
  ofChildren (connected : PortRef → Bool) (includeNestedComponents : Bool) :
      List (Module PortRef) → List (PortWithFullName PortRef)
    | [] => []
    | child :: rest =>
        child.getUnconnectedPorts connected includeNestedComponents ++
          ofChildren connected includeNestedComponents rest

/-! ## The modules of a tree -/

/-- Induction on module trees: what holds of a module if it holds of its children holds of all. -/
@[elab_as_elim]
theorem childrenInduction {motive : Module PortRef → Prop}
    (step : ∀ module : Module PortRef, (∀ child ∈ module.children, motive child) → motive module) :
    ∀ module, motive module
  | mk name_ ports children =>
      have below : ∀ child ∈ children, motive child := fun child _ => childrenInduction step child
      step (mk name_ ports children) below

/-- The module is the root of a tree or in the tree of one of its children. -/
inductive Contains : Module PortRef → Module PortRef → Prop
  | self (module : Module PortRef) : Contains module module
  | child {module child owner : Module PortRef} (member : child ∈ module.children)
      (below : Contains child owner) : Contains module owner

/-- The module is below the root of a tree. -/
def Nested (module owner : Module PortRef) : Prop := ∃ child ∈ module.children, child.Contains owner

theorem contains_iff {module owner : Module PortRef} :
    module.Contains owner ↔ owner = module ∨ module.Nested owner := by
  constructor
  · intro contains
    cases contains with
    | self => exact .inl rfl
    | child member below => exact .inr ⟨_, member, below⟩
  · rintro (rfl | ⟨child, member, below⟩)
    · exact .self owner
    · exact .child member below

theorem mem_ownUnconnectedPorts {connected : PortRef → Bool} {module : Module PortRef}
    {listed : PortWithFullName PortRef} :
    listed ∈ module.ownUnconnectedPorts connected ↔
      ∃ name port, module.getPort name = some port ∧ connected port = false ∧
        listed = ⟨module.nameOfChild name, port⟩ := by
  simp only [ownUnconnectedPorts, List.mem_map, List.mem_filter, Bool.not_eq_true']
  constructor
  · rintro ⟨⟨name, port⟩, ⟨member, unconnected⟩, rfl⟩
    exact ⟨name, port, AList.mem_lookup_iff.mpr member, unconnected, rfl⟩
  · rintro ⟨name, port, found, unconnected, rfl⟩
    exact ⟨⟨name, port⟩, ⟨AList.mem_lookup_iff.mp found, unconnected⟩, rfl⟩

theorem mem_ofChildren {connected : PortRef → Bool} {includeNestedComponents : Bool}
    {children : List (Module PortRef)} {listed : PortWithFullName PortRef} :
    listed ∈ getUnconnectedPorts.ofChildren connected includeNestedComponents children ↔
      ∃ child ∈ children, listed ∈ child.getUnconnectedPorts connected includeNestedComponents := by
  induction children with
  | nil => simp [getUnconnectedPorts.ofChildren]
  | cons child rest induction => simp [getUnconnectedPorts.ofChildren, induction]

theorem getUnconnectedPorts_nested (connected : PortRef → Bool) (module : Module PortRef) :
    module.getUnconnectedPorts connected true = module.ownUnconnectedPorts connected ++
      getUnconnectedPorts.ofChildren connected true module.children := by
  cases module
  simp [getUnconnectedPorts, children]

/-- With nested components the listing has the unconnected ports of every module of the tree, each
under the name of its owner. -/
theorem mem_getUnconnectedPorts {connected : PortRef → Bool} {module : Module PortRef}
    {listed : PortWithFullName PortRef} :
    listed ∈ module.getUnconnectedPorts connected true ↔
      ∃ owner, module.Contains owner ∧ listed ∈ owner.ownUnconnectedPorts connected := by
  constructor
  · induction module using childrenInduction with
    | step module induction =>
        rw [getUnconnectedPorts_nested, List.mem_append, mem_ofChildren]
        rintro (own | ⟨child, member, below⟩)
        · exact ⟨module, .self module, own⟩
        · obtain ⟨owner, contains, own⟩ := induction child member below
          exact ⟨owner, .child member contains, own⟩
  · rintro ⟨owner, contains, own⟩
    induction contains with
    | self module =>
        rw [getUnconnectedPorts_nested]
        exact List.mem_append_left _ own
    | child member _ induction =>
        rw [getUnconnectedPorts_nested]
        exact List.mem_append_right _ (mem_ofChildren.mpr ⟨_, member, induction own⟩)

/-! ## Names in a tree -/

/-- Every module below the root has the name that `name_of_child` of its parent gives it. -/
inductive ChildrenNamed : Module PortRef → Prop
  | node {module : Module PortRef}
      (named : ∀ child ∈ module.children, ∃ name, child.name_ = module.nameOfChild name)
      (below : ∀ child ∈ module.children, ChildrenNamed child) : ChildrenNamed module

theorem childrenNamed_of_childless {module : Module PortRef} (childless : module.children = []) :
    module.ChildrenNamed := by
  refine .node ?_ ?_
  · simp [childless]
  · simp [childless]

/-- The name of a module starts with the name of every module above it. -/
theorem ChildrenNamed.exists_name_eq {module owner : Module PortRef} (named : module.ChildrenNamed)
    (contains : module.Contains owner) : ∃ suffix, owner.name_ = module.name_ ++ suffix := by
  induction contains with
  | self => exact ⟨[], (List.append_nil _).symm⟩
  | @child module child owner member _ induction =>
      obtain ⟨named, below⟩ := named
      obtain ⟨suffix, ownerName⟩ := induction (below child member)
      obtain ⟨name, childName⟩ := named child member
      refine ⟨'/' :: (name ++ suffix), ?_⟩
      rw [ownerName, childName, nameOfChild, List.append_assoc, List.cons_append]

/-- The name of a nested module has a separator. -/
theorem ChildrenNamed.separator_mem {module owner : Module PortRef} (named : module.ChildrenNamed)
    (nested : module.Nested owner) : '/' ∈ owner.name_ := by
  obtain ⟨named, below⟩ := named
  obtain ⟨child, member, contains⟩ := nested
  obtain ⟨suffix, ownerName⟩ := (below child member).exists_name_eq contains
  obtain ⟨name, childName⟩ := named child member
  rw [ownerName, childName, nameOfChild]
  simp

end Module

end Simo
