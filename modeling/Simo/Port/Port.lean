import Mathlib.Logic.Function.Basic

/-!
# Ports

A port is an object of one of seven classes, over types for payloads, return values and contracts.
Connecting is a virtual method: the class of the port that initiates decides to which class it
casts the other port, and which pointers it sets.  Pointers range over the ports of a program and
the two ports that every bidirectional port contains.  Objects keep their class, so the classes
are given by a fixed function and only the pointers change.
-/

namespace Simo

/-- The classes of the library's ports. -/
inductive PortClass (Ty : Type*) where
  | outPort (payload : Ty)
  | inPort (payload : Ty)
  | callbackOutPort (payload returnType : Ty)
  | callbackInPort (payload returnType : Ty)
  | callbackContractOutPort (payload returnType contract : Ty)
  | callbackContractInPort (payload returnType contract : Ty)
  | bidirectionalPortTyped (outPayload inPayload : Ty)
deriving DecidableEq

namespace PortClass

variable {Ty : Type*}

/-- The base class below `Port`, if any. -/
def base : PortClass Ty → Option (PortClass Ty)
  | callbackContractOutPort payload returnType _ => some (callbackOutPort payload returnType)
  | callbackContractInPort payload returnType _ => some (callbackInPort payload returnType)
  | _ => none

/-- The class is another one or derives from it. -/
def derives [DecidableEq Ty] (dynamicType target : PortClass Ty) : Bool :=
  dynamicType = target || dynamicType.base = some target

end PortClass

/-- What a pointer into a port points at: the port, or a port that a bidirectional one contains. -/
inductive PortMember where
  | whole
  | outPort
  | inPort
deriving DecidableEq

/-- A pointer to a port. -/
structure PortPtr (Id : Type*) where
  object : Id
  member : PortMember
deriving DecidableEq

/-- The pointers between ports. -/
@[ext]
structure Connections (Id : Type*) where
  /-- `connecting_port`. -/
  connectingPort : PortPtr Id → Option (PortPtr Id)
  /-- `connected_port_` of the contract interface. -/
  connectedPort : PortPtr Id → Option (PortPtr Id)

namespace Connections

/-- No port is connected. -/
def new {Id : Type*} : Connections Id where
  connectingPort _ := none
  connectedPort _ := none

variable {Id : Type*} [DecidableEq Id]

/-- Point two ports at each other. -/
def link (connections : Connections Id) (port other : PortPtr Id) : Connections Id :=
  { connections with
    connectingPort := Function.update
      (Function.update connections.connectingPort port (some other)) other (some port) }

/-- Point two contract interfaces at each other. -/
def linkContract (connections : Connections Id) (port other : PortPtr Id) : Connections Id :=
  { connections with
    connectedPort := Function.update
      (Function.update connections.connectedPort port (some other)) other (some port) }

end Connections

section Connect

variable {Ty Id : Type*} [DecidableEq Ty] [DecidableEq Id] (classOf : Id → PortClass Ty)

/-- The class of what a pointer points at; only bidirectional ports contain others. -/
def typeOf (ptr : PortPtr Id) : Option (PortClass Ty) :=
  match ptr.member, classOf ptr.object with
  | .whole, cls => some cls
  | .outPort, .bidirectionalPortTyped outPayload _ => some (.outPort outPayload)
  | .inPort, .bidirectionalPortTyped _ inPayload => some (.inPort inPayload)
  | _, _ => none

/-- `runtime_cast` of a pointer that is not null. -/
def runtimeCast (target : PortClass Ty) (ptr : PortPtr Id) : Option (PortPtr Id) :=
  match typeOf classOf ptr with
  | some cls => if cls.derives target then some ptr else none
  | none => none

/-- The common part of the connect methods of data ports: cast the other port to the complementary
class and link. -/
def connectTo (target : PortClass Ty) (connections : Connections Id) (this : PortPtr Id)
    (other : Option (PortPtr Id)) : Bool × Connections Id :=
  match other with
  | none => (false, connections)
  | some other =>
      match runtimeCast classOf target other with
      | none => (false, connections)
      | some otherCasted => (true, connections.link this otherCasted)

def OutPort.connect (payload : Ty) : Connections Id → PortPtr Id → Option (PortPtr Id) →
    Bool × Connections Id :=
  connectTo classOf (.inPort payload)

def InPort.connect (payload : Ty) : Connections Id → PortPtr Id → Option (PortPtr Id) →
    Bool × Connections Id :=
  connectTo classOf (.outPort payload)

def CallbackOutPort.connect (payload returnType : Ty) :
    Connections Id → PortPtr Id → Option (PortPtr Id) → Bool × Connections Id :=
  connectTo classOf (.callbackInPort payload returnType)

def CallbackInPort.connect (payload returnType : Ty) :
    Connections Id → PortPtr Id → Option (PortPtr Id) → Bool × Connections Id :=
  connectTo classOf (.callbackOutPort payload returnType)

/-- The common part of the connect methods of contract ports: cast the other port to the
complementary contract class, link the contracts, and go on as the base class does. -/
def connectContractTo (target : PortClass Ty)
    (connectBase : Connections Id → PortPtr Id → Option (PortPtr Id) → Bool × Connections Id)
    (connections : Connections Id) (this : PortPtr Id) (other : Option (PortPtr Id)) :
    Bool × Connections Id :=
  match other with
  | none => (false, connections)
  | some other =>
      match runtimeCast classOf target other with
      | none => (false, connections)
      | some otherCasted =>
          connectBase (connections.linkContract this otherCasted) this (some otherCasted)

def CallbackContractOutPort.connect (payload returnType contract : Ty) :
    Connections Id → PortPtr Id → Option (PortPtr Id) → Bool × Connections Id :=
  connectContractTo classOf (.callbackContractInPort payload returnType contract)
    (CallbackOutPort.connect classOf payload returnType)

def CallbackContractInPort.connect (payload returnType contract : Ty) :
    Connections Id → PortPtr Id → Option (PortPtr Id) → Bool × Connections Id :=
  connectContractTo classOf (.callbackContractOutPort payload returnType contract)
    (CallbackInPort.connect classOf payload returnType)

/-- The one connect method that casts without a test for null; the cast reads the object, so there
is no result for the null pointer. -/
def BidirectionalPortTyped.connect (outPayload inPayload : Ty) (connections : Connections Id)
    (this : PortPtr Id) (other : Option (PortPtr Id)) : Option (Bool × Connections Id) :=
  match other with
  | none => none
  | some other =>
      match runtimeCast classOf (.bidirectionalPortTyped inPayload outPayload) other with
      | none => some (false, connections)
      | some otherCasted =>
          let (success, connections) := OutPort.connect classOf outPayload connections
            ⟨this.object, .outPort⟩ (some ⟨otherCasted.object, .inPort⟩)
          if success then
            some (InPort.connect classOf inPayload connections ⟨this.object, .inPort⟩
              (some ⟨otherCasted.object, .outPort⟩))
          else some (false, connections)

/-- `Port::connect`, dispatched on the class of the port that initiates. -/
def connect (connections : Connections Id) (this : PortPtr Id) (other : Option (PortPtr Id)) :
    Option (Bool × Connections Id) :=
  match typeOf classOf this with
  | some (.outPort payload) => some (OutPort.connect classOf payload connections this other)
  | some (.inPort payload) => some (InPort.connect classOf payload connections this other)
  | some (.callbackOutPort payload returnType) =>
      some (CallbackOutPort.connect classOf payload returnType connections this other)
  | some (.callbackInPort payload returnType) =>
      some (CallbackInPort.connect classOf payload returnType connections this other)
  | some (.callbackContractOutPort payload returnType contract) =>
      some (CallbackContractOutPort.connect classOf payload returnType contract connections this
        other)
  | some (.callbackContractInPort payload returnType contract) =>
      some (CallbackContractInPort.connect classOf payload returnType contract connections this
        other)
  | some (.bidirectionalPortTyped outPayload inPayload) =>
      BidirectionalPortTyped.connect classOf outPayload inPayload connections this other
  | none => none

end Connect

/-! ## What a call of connect does -/

namespace PortClass

variable {Ty : Type*} [DecidableEq Ty]

/-- The class at the other end of a connection. -/
def complement : PortClass Ty → PortClass Ty
  | outPort payload => inPort payload
  | inPort payload => outPort payload
  | callbackOutPort payload returnType => callbackInPort payload returnType
  | callbackInPort payload returnType => callbackOutPort payload returnType
  | callbackContractOutPort payload returnType contract =>
      callbackContractInPort payload returnType contract
  | callbackContractInPort payload returnType contract =>
      callbackContractOutPort payload returnType contract
  | bidirectionalPortTyped outPayload inPayload => bidirectionalPortTyped inPayload outPayload

/-- Whether a port of the first class, when it initiates, accepts a port of the second. -/
def accepts (cls other : PortClass Ty) : Bool := other.derives cls.complement

variable {cls : PortClass Ty}

/-- A contract port is also a plain callback port. -/
theorem derives_callbackInPort {payload returnType contract : Ty}
    (derives : cls.derives (.callbackContractInPort payload returnType contract) = true) :
    cls.derives (.callbackInPort payload returnType) = true := by
  cases cls <;> simp_all [PortClass.derives, base]

theorem derives_callbackOutPort {payload returnType contract : Ty}
    (derives : cls.derives (.callbackContractOutPort payload returnType contract) = true) :
    cls.derives (.callbackOutPort payload returnType) = true := by
  cases cls <;> simp_all [PortClass.derives, base]

theorem eq_of_derives_bidirectional {outPayload inPayload : Ty}
    (derives : cls.derives (.bidirectionalPortTyped outPayload inPayload) = true) :
    cls = .bidirectionalPortTyped outPayload inPayload := by
  cases cls <;> simp_all [PortClass.derives, base]

end PortClass

/-- The pointers after a port of the given class has connected to another. -/
def Connections.join {Id Ty : Type*} [DecidableEq Id] (connections : Connections Id)
    (cls : PortClass Ty) (this other : PortPtr Id) : Connections Id :=
  match cls with
  | .callbackContractOutPort _ _ _ | .callbackContractInPort _ _ _ =>
      (connections.linkContract this other).link this other
  | .bidirectionalPortTyped _ _ =>
      (connections.link ⟨this.object, .outPort⟩ ⟨other.object, .inPort⟩).link
        ⟨this.object, .inPort⟩ ⟨other.object, .outPort⟩
  | _ => connections.link this other

section Connect

variable {Ty Id : Type*} {classOf : Id → PortClass Ty} {this other : PortPtr Id}
  {cls otherCls : PortClass Ty}

/-- A bidirectional port is a whole object, and it contains an out port and an in port. -/
theorem typeOf_members {outPayload inPayload : Ty}
    (hasType : typeOf classOf other = some (.bidirectionalPortTyped outPayload inPayload)) :
    typeOf classOf ⟨other.object, .outPort⟩ = some (.outPort outPayload) ∧
      typeOf classOf ⟨other.object, .inPort⟩ = some (.inPort inPayload) := by
  obtain ⟨object, member⟩ := other
  rw [typeOf] at hasType
  split at hasType
  next =>
    have same := Option.some.inj hasType
    exact ⟨by simp_all [typeOf], by simp_all [typeOf]⟩
  all_goals cases hasType

variable [DecidableEq Ty]

theorem runtimeCast_eq (target : PortClass Ty) (hasType : typeOf classOf other = some otherCls) :
    runtimeCast classOf target other = if otherCls.derives target then some other else none := by
  rw [runtimeCast, hasType]

variable [DecidableEq Id]

theorem connectTo_eq (target : PortClass Ty) (connections : Connections Id)
    (hasType : typeOf classOf other = some otherCls) :
    connectTo classOf target connections this (some other) =
      if otherCls.derives target then (true, connections.link this other)
      else (false, connections) := by
  rw [connectTo, runtimeCast_eq target hasType]
  by_cases derives : otherCls.derives target = true
  · simp [derives]
  · simp [derives]

theorem connectContractTo_eq {target : PortClass Ty}
    {connectBase : Connections Id → PortPtr Id → Option (PortPtr Id) → Bool × Connections Id}
    (connections : Connections Id) (hasType : typeOf classOf other = some otherCls)
    (accepted : otherCls.derives target = true → ∀ connections,
      connectBase connections this (some other) = (true, connections.link this other)) :
    connectContractTo classOf target connectBase connections this (some other) =
      if otherCls.derives target then (true, (connections.linkContract this other).link this other)
      else (false, connections) := by
  rw [connectContractTo, runtimeCast_eq target hasType]
  by_cases derives : otherCls.derives target = true
  · simp [derives, accepted derives]
  · simp [derives]

/-- A call of connect succeeds or fails by the classes of the two ports alone. -/
theorem connect_eq (connections : Connections Id) (thisType : typeOf classOf this = some cls)
    (otherType : typeOf classOf other = some otherCls) :
    connect classOf connections this (some other) =
      some (if cls.accepts otherCls then (true, connections.join cls this other)
        else (false, connections)) := by
  cases cls with
  | outPort | inPort | callbackOutPort | callbackInPort =>
      rw [connect, thisType]
      exact congrArg some (connectTo_eq _ connections otherType)
  | callbackContractOutPort payload returnType contract =>
      rw [connect, thisType]
      refine congrArg some (connectContractTo_eq connections otherType fun derives later => ?_)
      exact (connectTo_eq _ later otherType).trans
        (if_pos (PortClass.derives_callbackInPort derives))
  | callbackContractInPort payload returnType contract =>
      rw [connect, thisType]
      refine congrArg some (connectContractTo_eq connections otherType fun derives later => ?_)
      exact (connectTo_eq _ later otherType).trans
        (if_pos (PortClass.derives_callbackOutPort derives))
  | bidirectionalPortTyped outPayload inPayload =>
      simp only [connect, thisType, BidirectionalPortTyped.connect, runtimeCast_eq _ otherType,
        PortClass.accepts, PortClass.complement]
      by_cases derives : otherCls.derives (.bidirectionalPortTyped inPayload outPayload) = true
      · rw [PortClass.eq_of_derives_bidirectional derives] at otherType
        obtain ⟨outType, inType⟩ := typeOf_members otherType
        have first : OutPort.connect classOf outPayload connections ⟨this.object, .outPort⟩
            (some ⟨other.object, .inPort⟩) = (true, connections.link ⟨this.object, .outPort⟩
              ⟨other.object, .inPort⟩) :=
          (connectTo_eq _ connections inType).trans (if_pos (by simp [PortClass.derives]))
        have second : ∀ later : Connections Id, InPort.connect classOf inPayload later
            ⟨this.object, .inPort⟩ (some ⟨other.object, .outPort⟩) = (true, later.link
              ⟨this.object, .inPort⟩ ⟨other.object, .outPort⟩) := fun later =>
          (connectTo_eq _ later outType).trans (if_pos (by simp [PortClass.derives]))
        simp [derives, first, second, Connections.join]
      · simp [derives]

end Connect

end Simo
