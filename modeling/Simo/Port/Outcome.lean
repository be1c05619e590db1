import Simo.Port.Direction

/-!
# The outcome of a call of connect

A call that succeeds leaves the two ports pointing at each other, in the way of their class, and a
call that fails leaves every pointer alone.  The null pointer is refused by all classes but one: a
bidirectional port casts its argument without looking whether there is one.
-/

namespace Simo

namespace PortClass

/-- Whether ports of a class contain an out port and an in port. -/
def bidirectional {Ty : Type*} : PortClass Ty → Bool
  | bidirectionalPortTyped _ _ => true
  | _ => false

variable {Ty : Type*} [DecidableEq Ty]

/-- Only a bidirectional port accepts ports of its own class. -/
theorem bidirectional_of_accepts_self {cls : PortClass Ty} (accepted : cls.accepts cls = true) :
    cls.bidirectional = true := by
  rcases accepts_iff.mp accepted with same | mixed
  · cases cls with
    | bidirectionalPortTyped => rfl
    | _ => cases same
  · cases cls <;> cases mixed

end PortClass

namespace Connections

variable {Ty Id : Type*} (connections : Connections Id)

/-- Two ports point at each other. -/
def Mutual (pointers : PortPtr Id → Option (PortPtr Id)) (port other : PortPtr Id) : Prop :=
  pointers port = some other ∧ pointers other = some port

/-- Two ports are linked as ports of a class are: the contract interfaces too, or what the ports
contain instead of the ports themselves. -/
def Linked (cls : PortClass Ty) (port other : PortPtr Id) : Prop :=
  match cls with
  | .callbackContractOutPort _ _ _ | .callbackContractInPort _ _ _ =>
      Mutual connections.connectingPort port other ∧ Mutual connections.connectedPort port other
  | .bidirectionalPortTyped _ _ =>
      Mutual connections.connectingPort ⟨port.object, .outPort⟩ ⟨other.object, .inPort⟩ ∧
        Mutual connections.connectingPort ⟨port.object, .inPort⟩ ⟨other.object, .outPort⟩
  | _ => Mutual connections.connectingPort port other

variable [DecidableEq Id] {port other : PortPtr Id}

theorem mutual_update (pointers : PortPtr Id → Option (PortPtr Id)) (apart : port ≠ other) :
    Mutual (Function.update (Function.update pointers port (some other)) other (some port))
      port other := by
  constructor
  · rw [Function.update_of_ne apart, Function.update_self]
  · rw [Function.update_self]

/-- Ports that have been joined are linked. -/
theorem linked_join {cls : PortClass Ty}
    (apart : cls.bidirectional = false → port ≠ other) :
    (connections.join cls port other).Linked cls port other := by
  cases cls with
  | bidirectionalPortTyped =>
      -- a port connected to itself is linked to itself by both calls
      refine ⟨⟨?_, ?_⟩, mutual_update _ (by simp)⟩ <;>
        by_cases same : port.object = other.object <;>
          simp [join, link, Function.update_apply, same]
  | callbackContractOutPort | callbackContractInPort =>
      exact ⟨mutual_update _ (apart rfl), mutual_update _ (apart rfl)⟩
  | _ => exact mutual_update _ (apart rfl)

end Connections

section Outcome

variable {Ty Id : Type*}

/-- A pointer to a port, with the class of that port. -/
structure PortRef (classOf : Id → PortClass Ty) where
  ptr : PortPtr Id
  cls : PortClass Ty
  hasType : typeOf classOf ptr = some cls

variable [DecidableEq Ty] [DecidableEq Id] {classOf : Id → PortClass Ty}

/-- The call returns.  With true, there is another port and both are linked; with false, as for the
null pointer, all pointers are as before. -/
def TotalAndAtomic (connections : Connections Id) (this : PortRef classOf)
    (other : Option (PortRef classOf)) : Prop :=
  ∃ success after,
    connect classOf connections this.ptr (other.map PortRef.ptr) = some (success, after) ∧
      (success = true → ∃ port, other = some port ∧ after.Linked this.cls this.ptr port.ptr) ∧
      (success = false → after = connections) ∧
      (other = none → success = false)

theorem totalAndAtomic_of_some (connections : Connections Id) (this port : PortRef classOf) :
    TotalAndAtomic connections this (some port) := by
  have outcome := connect_eq connections this.hasType port.hasType
  by_cases accepted : this.cls.accepts port.cls = true
  · rw [if_pos accepted] at outcome
    refine ⟨true, _, outcome, fun _ => ⟨port, rfl, connections.linked_join fun single same => ?_⟩,
      nofun, nofun⟩
    have sameClass := port.hasType
    rw [← same, this.hasType] at sameClass
    rw [← Option.some.inj sameClass] at accepted
    rw [PortClass.bidirectional_of_accepts_self accepted] at single
    cases single
  · rw [if_neg accepted] at outcome
    exact ⟨false, _, outcome, nofun, fun _ => rfl, nofun⟩

/-- The call with the null pointer returns unless the port is bidirectional, and it changes
nothing. -/
theorem connect_none (connections : Connections Id) (this : PortRef classOf) :
    connect classOf connections this.ptr none =
      if this.cls.bidirectional then none else some (false, connections) := by
  obtain ⟨ptr, cls, hasType⟩ := this
  cases cls <;> (rw [connect, hasType]; rfl)

/-- A call of connect is total, and atomic when it fails, if and only if it does not hand the null
pointer to a bidirectional port. -/
theorem totalAndAtomic_iff (connections : Connections Id) (this : PortRef classOf)
    (other : Option (PortRef classOf)) :
    TotalAndAtomic connections this other ↔ ¬ (this.cls.bidirectional = true ∧ other = none) := by
  cases other with
  | some port => exact iff_of_true (totalAndAtomic_of_some connections this port) nofun
  | none =>
      have outcome := connect_none connections this
      constructor
      · rintro ⟨success, after, returns, -⟩ ⟨bidirectional, -⟩
        rw [if_pos bidirectional] at outcome
        cases outcome.symm.trans returns
      · intro allowed
        rw [if_neg fun bidirectional => allowed ⟨bidirectional, rfl⟩] at outcome
        exact ⟨false, connections, outcome, nofun, fun _ => rfl, fun _ => rfl⟩

/-- A bidirectional port. -/
def lonely : Unit → PortClass Nat := fun _ => .bidirectionalPortTyped 0 1

/-- A bidirectional port asked to connect to the null pointer does not return. -/
theorem not_totalAndAtomic_null :
    ¬ TotalAndAtomic .new (⟨⟨(), .whole⟩, _, rfl⟩ : PortRef lonely) none := by
  rintro ⟨success, after, returns, -⟩
  cases returns

end Outcome

end Simo
