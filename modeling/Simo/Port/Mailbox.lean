import Simo.Port.Outcome
import Simo.Support.OneSlot

/-!
# Data ports as mailboxes

The payload that an out port sends stays in the out port, where the connected in port looks at it,
takes it or clears it.  So an out port and an in port that point at each other are a mailbox with
one slot, and a pair of connected bidirectional ports are two of them, one for each direction.
Out ports live in a heap `Slots` for every type of payloads; what a move leaves of a payload is
unspecified and a parameter.
-/

namespace Simo

/-- `PORT_STATE`. -/
inductive PortState where
  | empty
  | filled
deriving DecidableEq, Repr

/-- `SEND_OUTCOME`. -/
inductive SendOutcome where
  | new
  | replaced
deriving DecidableEq, Repr

/-- The data of an out port. -/
structure OutPort (Payload : Type*) where
  storage : Payload
  state_ : PortState

namespace OutPort

variable {Payload : Type*}

/-- A port that has not sent anything. -/
def fresh (storage : Payload) : OutPort Payload := ⟨storage, .empty⟩

def send (port : OutPort Payload) (payload : Payload) : SendOutcome × OutPort Payload :=
  let port := { port with storage := payload }
  match port.state_ with
  | .empty => (.new, { port with state_ := .filled })
  | .filled => (.replaced, { port with state_ := .filled })

def clear (port : OutPort Payload) : OutPort Payload := { port with state_ := .empty }

def state (port : OutPort Payload) : PortState := port.state_

/-- The payload in the slot. -/
def content (port : OutPort Payload) : Option Payload :=
  match port.state_ with
  | .empty => none
  | .filled => some port.storage

theorem content_send (port : OutPort Payload) (payload : Payload) :
    (port.send payload).2.content = some payload := by
  obtain ⟨storage, _ | _⟩ := port <;> rfl

theorem outcome_send (port : OutPort Payload) (payload : Payload) :
    decide ((port.send payload).1 = .new) = port.content.isNone := by
  obtain ⟨storage, _ | _⟩ := port <;> rfl

theorem state_eq (port : OutPort Payload) :
    decide (port.state = .filled) = port.content.isSome := by
  obtain ⟨storage, _ | _⟩ := port <;> rfl

end OutPort

/-- The out ports of a program, by the type of their payloads. -/
abbrev Slots {Ty : Type*} (Id : Type*) (Val : Ty → Type*) :=
  ∀ payload : Ty, PortPtr Id → OutPort (Val payload)

section Operations

variable {Ty Id : Type*} {Val : Ty → Type*} [DecidableEq Ty] [DecidableEq Id]

/-- Replace one out port. -/
def Slots.set (slots : Slots Id Val) (payload : Ty) (ptr : PortPtr Id)
    (port : OutPort (Val payload)) : Slots Id Val :=
  Function.update slots payload (Function.update (slots payload) ptr port)

@[simp]
theorem Slots.set_self (slots : Slots Id Val) (payload : Ty) (ptr : PortPtr Id)
    (port : OutPort (Val payload)) : slots.set payload ptr port payload ptr = port := by
  simp [set]

theorem Slots.set_of_ne (slots : Slots Id Val) {payload other : Ty} {ptr another : PortPtr Id}
    (port : OutPort (Val payload)) (apart : payload ≠ other ∨ ptr ≠ another) :
    slots.set payload ptr port other another = slots other another := by
  by_cases same : payload = other
  · subst same
    simp [set, Ne.symm (apart.resolve_left fun apart => apart rfl)]
  · rw [set, Function.update_of_ne (Ne.symm same)]

variable (moved : ∀ payload, Val payload → Val payload) (connections : Connections Id)
  (payload : Ty)

/-- `InPort::receive`; there is no result where an assertion fails. -/
def InPort.receive (slots : Slots Id Val) (this : PortPtr Id) :
    Option (Val payload × Slots Id Val) :=
  match connections.connectingPort this with
  | none => none
  | some connectingPort =>
      let port := slots payload connectingPort
      if port.state = .empty then none
      else
        let outP := port.storage
        let port := { port with storage := moved payload port.storage }
        some (outP, slots.set payload connectingPort port.clear)

/-- `InPort::peek`: the payload that the result points at. -/
def InPort.peek (slots : Slots Id Val) (this : PortPtr Id) : Option (Val payload) :=
  match connections.connectingPort this with
  | none => none
  | some connectingPort =>
      let port := slots payload connectingPort
      if port.state = .empty then none else some port.storage

def InPort.clear (slots : Slots Id Val) (this : PortPtr Id) : Slots Id Val :=
  match connections.connectingPort this with
  | none => slots
  | some connectingPort => slots.set payload connectingPort (slots payload connectingPort).clear

/-! ## The methods of a bidirectional port -/

namespace BidirectionalPortTyped

def sendOut (slots : Slots Id Val) (this : Id) (value : Val payload) :
    SendOutcome × Slots Id Val :=
  let outPort : PortPtr Id := ⟨this, .outPort⟩
  let (outcome, port) := (slots payload outPort).send value
  (outcome, slots.set payload outPort port)

def clearOut (slots : Slots Id Val) (this : Id) : Slots Id Val :=
  let outPort : PortPtr Id := ⟨this, .outPort⟩
  slots.set payload outPort (slots payload outPort).clear

def clearIn (slots : Slots Id Val) (this : Id) : Slots Id Val :=
  InPort.clear connections payload slots ⟨this, .inPort⟩

def peekIn (slots : Slots Id Val) (this : Id) : Option (Val payload) :=
  InPort.peek connections payload slots ⟨this, .inPort⟩

end BidirectionalPortTyped

/-! ## Histories of operations -/

/-- One operation on an out port and an in port. -/
inductive MailboxStep (outPort inPort : PortPtr Id) :
    Slots Id Val → OneSlot.Event (Val payload) → Slots Id Val → Prop
  | send (slots : Slots Id Val) (value : Val payload) :
      MailboxStep outPort inPort slots
        (.send value (((slots payload outPort).send value).1 = .new))
        (slots.set payload outPort ((slots payload outPort).send value).2)
  | peek (slots : Slots Id Val) :
      MailboxStep outPort inPort slots (.look (InPort.peek connections payload slots inPort)) slots
  | receive {slots after : Slots Id Val} {value : Val payload}
      (returns : InPort.receive moved connections payload slots inPort = some (value, after)) :
      MailboxStep outPort inPort slots (.receive value) after
  | clearOut (slots : Slots Id Val) :
      MailboxStep outPort inPort slots (.clear ((slots payload outPort).state = .filled))
        (slots.set payload outPort (slots payload outPort).clear)
  | clearIn (slots : Slots Id Val) :
      MailboxStep outPort inPort slots (.clear ((slots payload outPort).state = .filled))
        (InPort.clear connections payload slots inPort)

/-- An operation on one of two bidirectional ports, with its answer.  The answer of a clear, which
no caller sees, is whether it empties a filled slot. -/
inductive EndEvent (Out In : Type*) where
  | sendOut (payload : Out) (fresh : Bool)
  | clearOut (discards : Bool)
  | peekIn (seen : Option In)
  | clearIn (discards : Bool)

namespace EndEvent

/-- What an operation does to the payloads that the port sends. -/
def outgoing {Out In : Type*} : EndEvent Out In → Option (OneSlot.Event Out)
  | sendOut payload fresh => some (.send payload fresh)
  | clearOut discards => some (.clear discards)
  | peekIn _ | clearIn _ => none

/-- What an operation does to the payloads that the port is sent. -/
def incoming {Out In : Type*} : EndEvent Out In → Option (OneSlot.Event In)
  | sendOut _ _ | clearOut _ => none
  | peekIn seen => some (.look seen)
  | clearIn discards => some (.clear discards)

end EndEvent

/-- One operation on a bidirectional port. -/
inductive EndStep (outPayload inPayload : Ty) (this : Id) :
    Slots Id Val → EndEvent (Val outPayload) (Val inPayload) → Slots Id Val → Prop
  | sendOut (slots : Slots Id Val) (value : Val outPayload) :
      EndStep outPayload inPayload this slots
        (.sendOut value ((BidirectionalPortTyped.sendOut outPayload slots this value).1 = .new))
        (BidirectionalPortTyped.sendOut outPayload slots this value).2
  | clearOut (slots : Slots Id Val) :
      EndStep outPayload inPayload this slots
        (.clearOut ((slots outPayload ⟨this, .outPort⟩).state = .filled))
        (BidirectionalPortTyped.clearOut outPayload slots this)
  | peekIn (slots : Slots Id Val) :
      EndStep outPayload inPayload this slots
        (.peekIn (BidirectionalPortTyped.peekIn connections inPayload slots this)) slots
  | clearIn (slots : Slots Id Val) :
      EndStep outPayload inPayload this slots
        (.clearIn (BidirectionalPortTyped.peekIn connections inPayload slots this).isSome)
        (BidirectionalPortTyped.clearIn connections inPayload slots this)

/-- One operation on either of two bidirectional ports. -/
inductive PairStep (outPayload inPayload : Ty) (a b : Id) : Slots Id Val →
    EndEvent (Val outPayload) (Val inPayload) ⊕ EndEvent (Val inPayload) (Val outPayload) →
      Slots Id Val → Prop
  | first {before after : Slots Id Val} {event : EndEvent (Val outPayload) (Val inPayload)} :
      EndStep connections outPayload inPayload a before event after →
      PairStep outPayload inPayload a b before (.inl event) after
  | second {before after : Slots Id Val} {event : EndEvent (Val inPayload) (Val outPayload)} :
      EndStep connections inPayload outPayload b before event after →
      PairStep outPayload inPayload a b before (.inr event) after

end Operations

/-! ## Every slot is a mailbox -/

section Mailbox

variable {Ty Id : Type*} {Val : Ty → Type*} [DecidableEq Ty] [DecidableEq Id]
  {moved : ∀ payload, Val payload → Val payload} {connections : Connections Id}
  {payload outPayload inPayload : Ty} {outPort inPort : PortPtr Id} {a b : Id}
  {before after slots : Slots Id Val}

omit [DecidableEq Ty] [DecidableEq Id] in
theorem peek_eq (points : connections.connectingPort inPort = some outPort) :
    InPort.peek connections payload slots inPort = (slots payload outPort).content := by
  rw [InPort.peek, points]
  dsimp only
  rw [OutPort.content, OutPort.state]
  cases (slots payload outPort).state_ <;> rfl

theorem clear_eq (points : connections.connectingPort inPort = some outPort) :
    InPort.clear connections payload slots inPort =
      slots.set payload outPort (slots payload outPort).clear := by
  rw [InPort.clear, points]

/-- A payload is received from a filled slot only, and leaves it empty. -/
theorem receive_eq_some (points : connections.connectingPort inPort = some outPort)
    {value : Val payload}
    (returns : InPort.receive moved connections payload slots inPort = some (value, after)) :
    (slots payload outPort).content = some value ∧
      ∃ port : OutPort (Val payload), port.content = none ∧
        after = slots.set payload outPort port := by
  rw [InPort.receive, points] at returns
  dsimp only at returns
  split at returns
  next => cases returns
  next filled =>
    obtain ⟨rfl, rfl⟩ := Prod.mk.inj (Option.some.inj returns)
    refine ⟨?_, _, rfl, rfl⟩
    rw [OutPort.state] at filled
    rw [OutPort.content]
    cases state : (slots payload outPort).state_ with
    | empty => exact (filled state).elim
    | filled => rfl

/-- An operation follows the law of the mailbox in the out port and changes no other one. -/
theorem MailboxStep.law (points : connections.connectingPort inPort = some outPort)
    {event : OneSlot.Event (Val payload)}
    (step : MailboxStep moved connections payload outPort inPort before event after) :
    OneSlot.Law (before payload outPort).content event (after payload outPort).content ∧
      ∃ port, after = before.set payload outPort port := by
  cases step with
  | send value =>
      refine ⟨?_, _, rfl⟩
      rw [OutPort.outcome_send, Slots.set_self, OutPort.content_send]
      exact .send _ value
  | peek =>
      rw [peek_eq points]
      exact ⟨.look _, before payload outPort, by simp [Slots.set]⟩
  | receive returns =>
      obtain ⟨filled, port, empty, rfl⟩ := receive_eq_some points returns
      rw [filled, Slots.set_self, empty]
      exact ⟨.receive _, port, rfl⟩
  | clearOut =>
      refine ⟨?_, _, rfl⟩
      rw [OutPort.state_eq, Slots.set_self]
      exact .clear _
  | clearIn =>
      rw [clear_eq points]
      refine ⟨?_, _, rfl⟩
      rw [OutPort.state_eq, Slots.set_self]
      exact .clear _

/-- An operation on a bidirectional port concerns the payloads that it sends or those that it is
sent, and follows the law of the mailbox in the out port that they are in. -/
theorem EndStep.cases {this : Id} {peer : PortPtr Id}
    (points : connections.connectingPort ⟨this, .inPort⟩ = some peer)
    {event : EndEvent (Val outPayload) (Val inPayload)}
    (step : EndStep connections outPayload inPayload this before event after) :
    (∃ seen port, event.outgoing = some seen ∧ event.incoming = none ∧
        OneSlot.Law (before outPayload ⟨this, .outPort⟩).content seen port.content ∧
        after = before.set outPayload ⟨this, .outPort⟩ port) ∨
      ∃ seen port, event.outgoing = none ∧ event.incoming = some seen ∧
        OneSlot.Law (before inPayload peer).content seen port.content ∧
        after = before.set inPayload peer port := by
  cases step with
  | sendOut value =>
      refine .inl ⟨_, ((before outPayload ⟨this, .outPort⟩).send value).2, rfl, rfl, ?_, rfl⟩
      change OneSlot.Law _
        (.send value (((before outPayload ⟨this, .outPort⟩).send value).1 = .new)) _
      rw [OutPort.outcome_send, OutPort.content_send]
      exact .send _ value
  | clearOut =>
      refine .inl ⟨_, _, rfl, rfl, ?_, rfl⟩
      rw [OutPort.state_eq]
      exact .clear _
  | peekIn =>
      refine .inr ⟨_, before inPayload peer, rfl, rfl, ?_, by simp [Slots.set]⟩
      rw [BidirectionalPortTyped.peekIn, peek_eq points]
      exact .look _
  | clearIn =>
      refine .inr ⟨_, _, rfl, rfl, ?_, clear_eq points⟩
      rw [BidirectionalPortTyped.peekIn, peek_eq points]
      exact .clear _

/-- The part of an operation on two bidirectional ports that concerns the payloads from the first to
the second. -/
def towardsSecond {Out In : Type*} :
    EndEvent Out In ⊕ EndEvent In Out → Option (OneSlot.Event Out)
  | .inl event => event.outgoing
  | .inr event => event.incoming

/-- The part that concerns the payloads from the second to the first. -/
def towardsFirst {Out In : Type*} :
    EndEvent Out In ⊕ EndEvent In Out → Option (OneSlot.Event In)
  | .inl event => event.incoming
  | .inr event => event.outgoing

/-- An operation on two connected bidirectional ports concerns one direction, and follows the law of
the mailbox in the slot of this direction. -/
theorem PairStep.cases
    (linked : connections.Linked (.bidirectionalPortTyped outPayload inPayload) ⟨a, .whole⟩
      ⟨b, .whole⟩)
    {event : EndEvent (Val outPayload) (Val inPayload) ⊕ EndEvent (Val inPayload) (Val outPayload)}
    (step : PairStep connections outPayload inPayload a b before event after) :
    (∃ seen port, towardsSecond event = some seen ∧ towardsFirst event = none ∧
        OneSlot.Law (before outPayload ⟨a, .outPort⟩).content seen port.content ∧
        after = before.set outPayload ⟨a, .outPort⟩ port) ∨
      ∃ seen port, towardsSecond event = none ∧ towardsFirst event = some seen ∧
        OneSlot.Law (before inPayload ⟨b, .outPort⟩).content seen port.content ∧
        after = before.set inPayload ⟨b, .outPort⟩ port := by
  obtain ⟨⟨-, toSecond⟩, toFirst, -⟩ := linked
  cases step with
  | first step => exact EndStep.cases toFirst step
  | second step =>
      rcases EndStep.cases toSecond step with
        ⟨seen, port, out, none_, law, same⟩ | ⟨seen, port, none_, in_, law, same⟩
      · exact .inr ⟨seen, port, none_, out, law, same⟩
      · exact .inl ⟨seen, port, in_, none_, law, same⟩

/-- New out ports, whatever their storage holds. -/
def Slots.fresh (storage : ∀ payload : Ty, PortPtr Id → Val payload) : Slots Id Val :=
  fun payload ptr => .fresh (storage payload ptr)

omit [DecidableEq Ty] [DecidableEq Id] in
/-- What is seen of a history in one slot is accounted for, when all that happens in this slot obeys
the law of the mailbox. -/
theorem accounted_slot {α : Type*} {step : Slots Id Val → α → Slots Id Val → Prop}
    {steps : List (Transition (Slots Id Val) α)}
    {storage : ∀ payload : Ty, PortPtr Id → Val payload} (payload : Ty) (ptr : PortPtr Id)
    (image : α → Option (OneSlot.Event (Val payload)))
    (path : StepPath step (.fresh storage) steps slots)
    (obeys : ∀ before label after, step before label after →
      (∃ seen, image label = some seen ∧
          OneSlot.Law (before payload ptr).content seen (after payload ptr).content) ∨
        (image label = none ∧ after payload ptr = before payload ptr)) :
    OneSlot.Accounted ((steps.map Transition.label).filterMap image)
      (slots payload ptr).content := by
  obtain ⟨visible, inSlot, labels⟩ := path.exists_image (fun slots => (slots payload ptr).content)
    image fun before label after taken =>
      (obeys before label after taken).imp_right (And.imp_right (congrArg OutPort.content))
  rw [← labels]
  exact OneSlot.accounted inSlot

/-- A history of operations on an out port and an in port that point at each other. -/
theorem accounted_mailbox (points : connections.connectingPort inPort = some outPort)
    {storage : ∀ payload : Ty, PortPtr Id → Val payload}
    {steps : List (Transition (Slots Id Val) (OneSlot.Event (Val payload)))}
    (history : StepPath (MailboxStep moved connections payload outPort inPort) (.fresh storage)
      steps slots) :
    OneSlot.Accounted (steps.map Transition.label) (slots payload outPort).content := by
  have all := accounted_slot payload outPort some history fun before event after step =>
    .inl ⟨event, rfl, (step.law points).1⟩
  rwa [List.filterMap_some] at all

/-- Both directions of a history of operations on two connected bidirectional ports. -/
theorem accounted_directions
    (linked : connections.Linked (.bidirectionalPortTyped outPayload inPayload) ⟨a, .whole⟩
      ⟨b, .whole⟩) (apart : a ≠ b) {storage : ∀ payload : Ty, PortPtr Id → Val payload}
    {steps : List (Transition (Slots Id Val)
      (EndEvent (Val outPayload) (Val inPayload) ⊕ EndEvent (Val inPayload) (Val outPayload)))}
    (history : StepPath (PairStep connections outPayload inPayload a b) (.fresh storage) steps
      slots) :
    OneSlot.Accounted ((steps.map Transition.label).filterMap towardsSecond)
        (slots outPayload ⟨a, .outPort⟩).content ∧
      OneSlot.Accounted ((steps.map Transition.label).filterMap towardsFirst)
        (slots inPayload ⟨b, .outPort⟩).content := by
  have others : ∀ member, (⟨a, member⟩ : PortPtr Id) ≠ ⟨b, member⟩ := fun member same =>
    apart (congrArg PortPtr.object same)
  constructor
  · refine accounted_slot outPayload ⟨a, .outPort⟩ towardsSecond history fun _ _ _ step => ?_
    rcases PairStep.cases linked step with
      ⟨seen, port, here, -, law, rfl⟩ | ⟨seen, port, silent, -, -, rfl⟩
    · exact .inl ⟨seen, here, by rwa [Slots.set_self]⟩
    · exact .inr ⟨silent, Slots.set_of_ne _ _ (.inr (others _).symm)⟩
  · refine accounted_slot inPayload ⟨b, .outPort⟩ towardsFirst history fun _ _ _ step => ?_
    rcases PairStep.cases linked step with
      ⟨seen, port, -, silent, -, rfl⟩ | ⟨seen, port, -, here, law, rfl⟩
    · exact .inr ⟨silent, Slots.set_of_ne _ _ (.inr (others _))⟩
    · exact .inl ⟨seen, here, by rwa [Slots.set_self]⟩

/-- An operation on two connected bidirectional ports changes no slot but the one of its
direction. -/
theorem PairStep.frame
    (linked : connections.Linked (.bidirectionalPortTyped outPayload inPayload) ⟨a, .whole⟩
      ⟨b, .whole⟩)
    {event : EndEvent (Val outPayload) (Val inPayload) ⊕ EndEvent (Val inPayload) (Val outPayload)}
    (step : PairStep connections outPayload inPayload a b before event after) (payload : Ty)
    (ptr : PortPtr Id) (changed : after payload ptr ≠ before payload ptr) :
    (payload = outPayload ∧ ptr = ⟨a, .outPort⟩ ∧ towardsFirst event = none) ∨
      (payload = inPayload ∧ ptr = ⟨b, .outPort⟩ ∧ towardsSecond event = none) := by
  have only : ∀ {slot : Ty} {place : PortPtr Id} {port : OutPort (Val slot)},
      after = before.set slot place port → payload = slot ∧ ptr = place := by
    rintro slot place port rfl
    by_contra elsewhere
    rw [← and_comm, not_and_or] at elsewhere
    exact changed (Slots.set_of_ne _ _ (elsewhere.symm.imp Ne.symm Ne.symm))
  rcases PairStep.cases linked step with ⟨seen, port, -, silent, -, same⟩ |
    ⟨seen, port, silent, -, -, same⟩
  · exact .inl ⟨(only same).1, (only same).2, silent⟩
  · exact .inr ⟨(only same).1, (only same).2, silent⟩

/-- Data ports are one-slot mailboxes without silent loss.  For an out port and an in port that
point at each other every history accounts for all payloads.  For two bidirectional ports that are
linked every interleaving of operations does so for each direction, and no operation touches a slot
of another direction or another port. -/
theorem mailboxes_account (moved : ∀ payload, Val payload → Val payload)
    (connections : Connections Id) (storage : ∀ payload : Ty, PortPtr Id → Val payload) :
    (∀ payload outPort inPort steps (slots : Slots Id Val),
      Connections.Mutual connections.connectingPort outPort inPort →
      StepPath (MailboxStep moved connections payload outPort inPort) (.fresh storage) steps slots →
      OneSlot.Accounted (steps.map Transition.label) (slots payload outPort).content) ∧
    ∀ outPayload inPayload a b steps (slots : Slots Id Val),
      connections.Linked (.bidirectionalPortTyped outPayload inPayload) ⟨a, .whole⟩ ⟨b, .whole⟩ →
      a ≠ b →
      StepPath (PairStep connections outPayload inPayload a b) (.fresh storage) steps slots →
      OneSlot.Accounted ((steps.map Transition.label).filterMap towardsSecond)
          (slots outPayload ⟨a, .outPort⟩).content ∧
        OneSlot.Accounted ((steps.map Transition.label).filterMap towardsFirst)
          (slots inPayload ⟨b, .outPort⟩).content ∧
        ∀ step ∈ steps, ∀ payload ptr, step.target payload ptr ≠ step.source payload ptr →
          (payload = outPayload ∧ ptr = ⟨a, .outPort⟩ ∧ towardsFirst step.label = none) ∨
            (payload = inPayload ∧ ptr = ⟨b, .outPort⟩ ∧ towardsSecond step.label = none) := by
  refine ⟨fun _ _ _ _ _ connected history => accounted_mailbox connected.2 history, ?_⟩
  intro outPayload inPayload a b steps slots linked apart history
  obtain ⟨second, first⟩ := accounted_directions linked apart history
  exact ⟨second, first, fun step member => (history.step_of_mem member).frame linked⟩

/-- An out port 0 and an in port 1, and two bidirectional ports 2 and 3. -/
def connectedPorts : Connections Nat :=
  (Connections.new.join (.outPort 0 : PortClass Nat) ⟨0, .whole⟩ ⟨1, .whole⟩).join
    (.bidirectionalPortTyped 0 1 : PortClass Nat) ⟨2, .whole⟩ ⟨3, .whole⟩

/-- A payload that is overwritten, one that is received and one that is cleared; and payloads that
cross each other between bidirectional ports. -/
theorem mailboxes_account_connected :
    (∃ steps, ∃ slots : Slots Nat fun _ : Nat => Nat,
      StepPath (MailboxStep (fun _ _ => 0) connectedPorts 0 ⟨0, .whole⟩ ⟨1, .whole⟩)
        (.fresh fun _ _ => 0) steps slots ∧
      steps.map Transition.label = [.send 5 true, .look (some 5), .send 6 false, .receive 6,
        .send 7 true, .clear true, .look none] ∧
      OneSlot.Accounted (steps.map Transition.label) (slots 0 ⟨0, .whole⟩).content) ∧
    ∃ steps, ∃ slots : Slots Nat fun _ : Nat => Nat,
      StepPath (PairStep connectedPorts 0 1 2 3) (.fresh fun _ _ => 0) steps slots ∧
      steps.map Transition.label = [.inl (.sendOut 5 true), .inr (.sendOut 6 true),
        .inr (.peekIn (some 5)), .inl (.clearIn true), .inl (.clearOut true)] ∧
      OneSlot.Accounted ((steps.map Transition.label).filterMap towardsSecond)
        (slots 0 ⟨2, .outPort⟩).content := by
  have both := mailboxes_account (fun (_ : Nat) (_ : Nat) => (0 : Nat)) connectedPorts fun _ _ => 0
  constructor
  · have history : StepPath (MailboxStep (fun _ _ => 0) connectedPorts 0 ⟨0, .whole⟩ ⟨1, .whole⟩)
        (.fresh fun _ _ => 0 : Slots Nat fun _ : Nat => Nat) _ _ :=
      .snoc (.snoc (.snoc (.snoc (.snoc (.snoc (.snoc .nil (.send _ 5)) (.peek _)) (.send _ 6))
        (.receive rfl)) (.send _ 7)) (.clearIn _)) (.peek _)
    exact ⟨_, _, history, rfl, both.1 0 ⟨0, .whole⟩ ⟨1, .whole⟩ _ _ ⟨rfl, rfl⟩ history⟩
  · have history : StepPath (PairStep connectedPorts 0 1 2 3)
        (.fresh fun _ _ => 0 : Slots Nat fun _ : Nat => Nat) _ _ :=
      .snoc (.snoc (.snoc (.snoc (.snoc .nil (.first (.sendOut _ 5))) (.second (.sendOut _ 6)))
        (.second (.peekIn _))) (.first (.clearIn _))) (.first (.clearOut _))
    exact ⟨_, _, history, rfl, (both.2 0 1 2 3 _ _ ⟨⟨rfl, rfl⟩, rfl, rfl⟩ (by decide) history).1⟩

end Mailbox
end Simo
