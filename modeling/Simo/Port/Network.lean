import Simo.Port.Mailbox
import Simo.Port.Matching

/-!
# Data and connections together

A program connects ports and sends through them in any order, so an out port can be taken from one
in port and given to another while there is a payload in it, and an in port that is left behind
still looks into the out port.  The payloads are in the out ports and connecting does not touch
them: whoever asks, every slot remains one mailbox.
-/

namespace Simo

/-- The pointers between the ports of a program and what its out ports hold. -/
structure Network {Ty : Type*} (Id : Type*) (Val : Ty → Type*) where
  connections : Connections Id
  slots : Slots Id Val

/-- A call on a port, with its answer. -/
inductive NetworkEvent {Ty : Type*} (Id : Type*) (Val : Ty → Type*) where
  | connect (call : ConnectCall Id)
  /-- An operation of the caller on the payloads in a slot. -/
  | data (payload : Ty) (slot caller : PortPtr Id) (event : OneSlot.Event (Val payload))
  /-- A look through an in port that is not connected. -/
  | look (payload : Ty) (caller : PortPtr Id) (seen : Option (Val payload))
  /-- A clear through an in port that is not connected. -/
  | clear (caller : PortPtr Id)

section Network

variable {Ty Id : Type*} {Val : Ty → Type*} [DecidableEq Ty] [DecidableEq Id]

/-- One call.  The in port of a bidirectional port is not received from: its method returns a
reference to a value that is gone. -/
inductive NetworkStep (classOf : Id → PortClass Ty) (moved : ∀ payload, Val payload → Val payload) :
    Network Id Val → NetworkEvent Id Val → Network Id Val → Prop
  | connect {before after : Connections Id} {call : ConnectCall Id} (slots : Slots Id Val)
      (taken : Connecting classOf before call after) :
      NetworkStep classOf moved ⟨before, slots⟩ (.connect call) ⟨after, slots⟩
  | send (network : Network Id Val) {payload : Ty} {port : PortPtr Id}
      (hasType : typeOf classOf port = some (.outPort payload)) (value : Val payload) :
      NetworkStep classOf moved network
        (.data payload port port
          (.send value (((network.slots payload port).send value).1 = .new)))
        { network with
          slots := network.slots.set payload port ((network.slots payload port).send value).2 }
  | clearOut (network : Network Id Val) {payload : Ty} {port : PortPtr Id}
      (hasType : typeOf classOf port = some (.outPort payload)) :
      NetworkStep classOf moved network
        (.data payload port port (.clear ((network.slots payload port).state = .filled)))
        { network with
          slots := network.slots.set payload port (network.slots payload port).clear }
  | receive {network : Network Id Val} {payload : Ty} {port : Id} {slot : PortPtr Id}
      (hasType : classOf port = .inPort payload)
      (points : network.connections.connectingPort ⟨port, .whole⟩ = some slot)
      {value : Val payload} {after : Slots Id Val}
      (returns : InPort.receive moved network.connections payload network.slots ⟨port, .whole⟩ =
        some (value, after)) :
      NetworkStep classOf moved network (.data payload slot ⟨port, .whole⟩ (.receive value))
        { network with slots := after }
  | peek {network : Network Id Val} {payload : Ty} {port slot : PortPtr Id}
      (hasType : typeOf classOf port = some (.inPort payload))
      (points : network.connections.connectingPort port = some slot) :
      NetworkStep classOf moved network
        (.data payload slot port
          (.look (InPort.peek network.connections payload network.slots port)))
        network
  | clearIn {network : Network Id Val} {payload : Ty} {port slot : PortPtr Id}
      (hasType : typeOf classOf port = some (.inPort payload))
      (points : network.connections.connectingPort port = some slot) :
      NetworkStep classOf moved network
        (.data payload slot port (.clear ((network.slots payload slot).state = .filled)))
        { network with
          slots := InPort.clear network.connections payload network.slots port }
  | peekUnconnected {network : Network Id Val} {payload : Ty} {port : PortPtr Id}
      (hasType : typeOf classOf port = some (.inPort payload))
      (unconnected : network.connections.connectingPort port = none) :
      NetworkStep classOf moved network
        (.look payload port (InPort.peek network.connections payload network.slots port)) network
  | clearUnconnected {network : Network Id Val} {payload : Ty} {port : PortPtr Id}
      (hasType : typeOf classOf port = some (.inPort payload))
      (unconnected : network.connections.connectingPort port = none) :
      NetworkStep classOf moved network (.clear port)
        { network with
          slots := InPort.clear network.connections payload network.slots port }

/-- The operations on the payloads of one slot. -/
def NetworkEvent.within (payload : Ty) (slot : PortPtr Id) :
    NetworkEvent Id Val → Option (OneSlot.Event (Val payload))
  | .data payload' slot' _ event =>
      if same : payload' = payload then
        if slot' = slot then some (same ▸ event) else none
      else none
  | _ => none

/-- Who operates on a slot for payloads of some type: the out port that it belongs to, or an in port
for the same payloads that points at this one. -/
structure Operates (classOf : Id → PortClass Ty) (connections : Connections Id) (payload : Ty)
    (slot caller : PortPtr Id) : Prop where
  slotType : typeOf classOf slot = some (.outPort payload)
  callerCases : caller = slot ∨
    typeOf classOf caller = some (.inPort payload) ∧ connections.connectingPort caller = some slot

/-! ## The types of connected ports -/

namespace PortClass

/-- An in port is connected to an out port only. -/
theorem eq_outPort_of_accepts {payload : Ty} {peer : PortClass Ty}
    (accepted : (inPort payload).accepts peer = true ∨ peer.accepts (inPort payload) = true) :
    peer = .outPort payload := by
  rcases accepted with accepted | accepted
  · exact (accepts_iff.mp accepted).resolve_right fun mixed => by cases peer <;> cases mixed
  · rcases accepts_iff.mp accepted with complementary | mixed
    · exact eq_complement_comm.mp complementary
    · cases mixed

/-- A bidirectional port is connected to one with the types inverted only. -/
theorem eq_bidirectional_of_accepts {outPayload inPayload : Ty} {peer : PortClass Ty}
    (accepted : (bidirectionalPortTyped outPayload inPayload).accepts peer = true ∨
      peer.accepts (bidirectionalPortTyped outPayload inPayload) = true) :
    peer = .bidirectionalPortTyped inPayload outPayload := by
  rcases accepted with accepted | accepted
  · exact (accepts_iff.mp accepted).resolve_right fun mixed => by cases peer <;> cases mixed
  · rcases accepts_iff.mp accepted with complementary | mixed
    · exact eq_complement_comm.mp complementary
    · cases mixed

end PortClass

variable {classOf : Id → PortClass Ty} {moved : ∀ payload, Val payload → Val payload}

/-- The pointers are those of a pairing of ports one of which has accepted the other. -/
structure Plugged (classOf : Id → PortClass Ty) (mate : Pairing Id) (connections : Connections Id) :
    Prop where
  represents : connections.Represents classOf mate
  accepted : ∀ port peer, mate port = some peer →
    (classOf port).accepts (classOf peer) = true ∨ (classOf peer).accepts (classOf port) = true

omit [DecidableEq Id] in
theorem plugged_new (classOf : Id → PortClass Ty) : Plugged classOf (fun _ => none) .new :=
  ⟨Connections.represents_new classOf, nofun⟩

theorem exists_plugged_of_connecting {before after : Connections Id} {call : ConnectCall Id}
    (plugged : ∃ mate, Plugged classOf mate before)
    (taken : Connecting classOf before call after) : ∃ mate, Plugged classOf mate after := by
  obtain ⟨mate, represents, accepted⟩ := plugged
  rcases taken.cases with ⟨-, rfl⟩ | ⟨other, -, now, rfl⟩
  · exact ⟨mate, represents, accepted⟩
  · refine ⟨mate.pair call.this other, represents.join now, fun port peer partner => ?_⟩
    rw [Pairing.pair_apply] at partner
    split at partner
    next here =>
      rw [here, ← Option.some.inj partner]
      exact .inr now
    next =>
      split at partner
      next here =>
        rw [here, ← Option.some.inj partner]
        exact .inl now
      next => exact accepted port peer partner

omit [DecidableEq Id] in
/-- An in port points at an out port for the same payloads. -/
theorem Plugged.slotType {mate : Pairing Id} {connections : Connections Id}
    (plugged : Plugged classOf mate connections) {payload : Ty} {port slot : PortPtr Id}
    (hasType : typeOf classOf port = some (.inPort payload))
    (points : connections.connectingPort port = some slot) :
    typeOf classOf slot = some (.outPort payload) := by
  obtain ⟨-, partner, member⟩ := plugged.represents.connectingPort_eq_some.mp points
  have accepted := plugged.accepted _ _ partner
  obtain ⟨object, whole | outPort | inPort⟩ := port
  · obtain ⟨peer, _⟩ := slot
    obtain rfl := member
    have cls : classOf object = .inPort payload := Option.some.inj hasType
    rw [cls] at accepted
    exact congrArg some (PortClass.eq_outPort_of_accepts accepted)
  · rw [typeOf] at hasType
    split at hasType <;> simp_all
  · obtain ⟨peer, _⟩ := slot
    obtain rfl := member
    cases cls : classOf object with
    | bidirectionalPortTyped outPayload inPayload =>
        rw [typeOf, cls] at hasType
        obtain rfl := PortClass.inPort.inj (Option.some.inj hasType)
        rw [cls] at accepted
        have peerClass := PortClass.eq_bidirectional_of_accepts accepted
        have whole : typeOf classOf ⟨peer, .whole⟩ = _ := congrArg some peerClass
        exact (typeOf_members whole).1
    | _ => simp [typeOf, cls] at hasType

/-! ## Every step obeys the law of the slot it concerns -/

variable {before after network : Network Id Val}

/-- An operation on payloads follows the law of the mailbox in its slot, changes no other slot and
no pointer. -/
theorem NetworkStep.law {payload : Ty} {slot caller : PortPtr Id}
    {event : OneSlot.Event (Val payload)}
    (taken : NetworkStep classOf moved before (.data payload slot caller event) after) :
    OneSlot.Law (before.slots payload slot).content event (after.slots payload slot).content ∧
      (∃ port, after.slots = before.slots.set payload slot port) ∧
      after.connections = before.connections := by
  cases taken with
  | send network hasType value =>
      refine ⟨?_, ⟨_, rfl⟩, rfl⟩
      dsimp only
      rw [OutPort.outcome_send, Slots.set_self, OutPort.content_send]
      exact .send _ value
  | clearOut network hasType =>
      refine ⟨?_, ⟨_, rfl⟩, rfl⟩
      dsimp only
      rw [OutPort.state_eq, Slots.set_self]
      exact .clear _
  | receive hasType points returns =>
      obtain ⟨law, changed⟩ := (MailboxStep.receive returns).law points
      exact ⟨law, changed, rfl⟩
  | peek hasType points =>
      have look : MailboxStep moved before.connections payload slot caller before.slots _ _ :=
        .peek before.slots
      exact ⟨(look.law points).1, (look.law points).2, rfl⟩
  | clearIn hasType points =>
      have clear : MailboxStep moved before.connections payload slot caller before.slots _ _ :=
        .clearIn before.slots
      exact ⟨(clear.law points).1, (clear.law points).2, rfl⟩

/-- The other calls leave all payloads alone. -/
theorem NetworkStep.slots_eq {label : NetworkEvent Id Val}
    (taken : NetworkStep classOf moved before label after)
    (other : ∀ payload slot caller event, label ≠ .data payload slot caller event) :
    after.slots = before.slots := by
  cases taken with
  | connect | peekUnconnected => rfl
  | clearUnconnected _ unconnected => rw [InPort.clear, unconnected]
  | _ => exact (other _ _ _ _ rfl).elim

/-- A call on a port other than connect leaves the pointers alone. -/
theorem NetworkStep.connections_cases {label : NetworkEvent Id Val}
    (taken : NetworkStep classOf moved before label after) :
    (∃ call, label = .connect call ∧
        Connecting classOf before.connections call after.connections) ∨
      ((∀ call, label ≠ .connect call) ∧ after.connections = before.connections) := by
  cases taken with
  | connect slots taken => exact .inl ⟨_, rfl, taken⟩
  | _ => exact .inr ⟨nofun, rfl⟩

/-- What a call does in one slot. -/
theorem NetworkStep.within_cases {label : NetworkEvent Id Val}
    (taken : NetworkStep classOf moved before label after) (payload : Ty) (slot : PortPtr Id) :
    (∃ seen, label.within payload slot = some seen ∧
        OneSlot.Law (before.slots payload slot).content seen (after.slots payload slot).content) ∨
      (label.within payload slot = none ∧
        after.slots payload slot = before.slots payload slot) := by
  cases label with
  | data payload' slot' caller event =>
      obtain ⟨law, ⟨port, changed⟩, -⟩ := taken.law
      by_cases here : payload' = payload ∧ slot' = slot
      · obtain ⟨rfl, rfl⟩ := here
        exact .inl ⟨event, by simp [NetworkEvent.within], law⟩
      · rw [not_and_or] at here
        refine .inr ⟨?_, by rw [changed, Slots.set_of_ne _ _ here]⟩
        rcases here with otherType | otherSlot
        · simp [NetworkEvent.within, otherType]
        · simp [NetworkEvent.within, otherSlot]
  | _ => exact .inr ⟨rfl, by rw [taken.slots_eq nofun]⟩

/-! ## Histories of a network -/

/-- A call of connect that succeeds takes a port away from a third one. -/
def Replugs (classOf : Id → PortClass Ty)
    (step : Transition (Network Id Val) (NetworkEvent Id Val)) : Prop :=
  ∃ call, step.label = .connect call ∧
    ¬ JoinsUnattached classOf ⟨step.source.connections, call, step.target.connections⟩

namespace Network

/-- The pointers of a network have the types they should have. -/
def Typed (classOf : Id → PortClass Ty) (network : Network Id Val) : Prop :=
  ∃ mate, Plugged classOf mate network.connections

/-- The pointers of a network are mutual. -/
def Matched (classOf : Id → PortClass Ty) (network : Network Id Val) : Prop :=
  Matching classOf network.connections

theorem Typed.step {label : NetworkEvent Id Val} (typed : before.Typed classOf)
    (taken : NetworkStep classOf moved before label after) : after.Typed classOf := by
  rcases taken.connections_cases with ⟨call, -, connecting⟩ | ⟨-, same⟩
  · exact exists_plugged_of_connecting typed connecting
  · rwa [Typed, same]

theorem Matched.step {label : NetworkEvent Id Val} (matched : before.Matched classOf)
    (typed : before.Typed classOf) (taken : NetworkStep classOf moved before label after)
    (keeps : ¬ Replugs classOf ⟨before, label, after⟩) : after.Matched classOf := by
  rcases taken.connections_cases with ⟨call, labelled, connecting⟩ | ⟨-, same⟩
  · obtain ⟨mate, plugged⟩ := typed
    have joins := not_not.mp fun takes => keeps ⟨call, labelled, takes⟩
    exact (matching_step_iff plugged.represents connecting matched).mpr joins
  · rwa [Matched, same]

end Network

/-- Whoever operates on a slot is entitled to. -/
theorem NetworkStep.operates (typed : before.Typed classOf)
    {payload : Ty} {slot caller : PortPtr Id} {event : OneSlot.Event (Val payload)}
    (taken : NetworkStep classOf moved before (.data payload slot caller event) after) :
    Operates classOf before.connections payload slot caller := by
  obtain ⟨mate, plugged⟩ := typed
  cases taken with
  | send _ hasType | clearOut _ hasType => exact ⟨hasType, .inl rfl⟩
  | receive hasType points =>
      have callerType : typeOf classOf ⟨_, .whole⟩ = some (.inPort payload) :=
        congrArg some hasType
      exact ⟨plugged.slotType callerType points, .inr ⟨callerType, points⟩⟩
  | peek hasType points | clearIn hasType points =>
      exact ⟨plugged.slotType hasType points, .inr ⟨hasType, points⟩⟩

/-- In every history of connects, sends, looks, receives and clears on any number of ports, every
slot is a mailbox that accounts for all its payloads, whichever ports have asked for them and
however the connections have changed.  Who operates on a slot is its out port or an in port for the
same payloads that points at it at that time; and as long as no call of connect takes a port away
from a third one, this is the in port that the out port points at. -/
theorem network_accounts {storage : ∀ payload : Ty, PortPtr Id → Val payload}
    {steps : List (Transition (Network Id Val) (NetworkEvent Id Val))}
    (history : StepPath (NetworkStep classOf moved) ⟨.new, .fresh storage⟩ steps network) :
    (∀ payload slot, OneSlot.Accounted
        ((steps.map Transition.label).filterMap (NetworkEvent.within payload slot))
        (network.slots payload slot).content) ∧
      (∀ step ∈ steps, ∀ payload slot caller event,
        step.label = .data payload slot caller event →
          Operates classOf step.source.connections payload slot caller) ∧
      ((∀ step ∈ steps, ¬ Replugs classOf step) →
        ∀ step ∈ steps, ∀ payload slot caller event,
          step.label = .data payload slot caller event →
            caller = slot ∨ step.source.connections.connectingPort slot = some caller) := by
  have unplugged : Network.Typed classOf (⟨.new, .fresh storage⟩ : Network Id Val) :=
    ⟨_, plugged_new classOf⟩
  have typed := (history.invariant unplugged fun step member before =>
    before.step (history.step_of_mem member)).2
  have operates : ∀ step ∈ steps, ∀ payload slot caller event,
      step.label = .data payload slot caller event →
        Operates classOf step.source.connections payload slot caller := by
    intro step member payload slot caller event labelled
    exact NetworkStep.operates (typed step member).1 (labelled ▸ history.step_of_mem member)
  refine ⟨fun payload slot => ?_, operates, fun keeps step member payload slot caller event => ?_⟩
  · obtain ⟨visible, inSlot, labels⟩ := history.exists_image
      (fun network => (network.slots payload slot).content) (NetworkEvent.within payload slot)
      fun before label after taken =>
        (taken.within_cases payload slot).imp_right (And.imp_right (congrArg OutPort.content))
    rw [← labels]
    exact OneSlot.accounted inSlot
  · intro labelled
    have initially : Network.Matched classOf (⟨.new, .fresh storage⟩ : Network Id Val) :=
      (matching_iff (Connections.represents_new classOf)).mpr Pairing.symmetric_none
    have matched := (history.invariant initially fun step member before =>
      before.step (typed step member).1 (history.step_of_mem member) (keeps step member)).2
    rcases (operates step member payload slot caller event labelled).callerCases with
      own | ⟨-, points⟩
    · exact .inl own
    · exact .inr (((matched step member).1.symmetric _ _).mp points)

/-- An out port is taken from one in port and given to another while there is a payload in it.  The
port left behind receives the payload, and the other one does not see it a second time. -/
theorem network_accounts_fork :
    ∃ steps, ∃ network : Network ℕ fun _ : ℕ => ℕ,
      StepPath (NetworkStep fork fun _ _ => 0) ⟨.new, .fresh fun _ _ => 0⟩ steps network ∧
      steps.map Transition.label =
        [.connect ⟨0, some 1⟩, .data 0 ⟨0, .whole⟩ ⟨0, .whole⟩ (.send 5 true),
          .connect ⟨0, some 2⟩, .data 0 ⟨0, .whole⟩ ⟨2, .whole⟩ (.look (some 5)),
          .data 0 ⟨0, .whole⟩ ⟨1, .whole⟩ (.receive 5),
          .data 0 ⟨0, .whole⟩ ⟨2, .whole⟩ (.look none)] ∧
      OneSlot.Accounted
        ((steps.map Transition.label).filterMap (NetworkEvent.within 0 ⟨0, .whole⟩))
        (network.slots 0 ⟨0, .whole⟩).content ∧
      ∀ step ∈ steps, ∀ payload slot caller event,
        step.label = .data payload slot caller event →
          Operates fork step.source.connections payload slot caller := by
  have elsewhere : Connecting fork forkJoined ⟨0, some 2⟩
      (forkJoined.link ⟨0, .whole⟩ ⟨2, .whole⟩) := .call rfl
  have sends (network : Network ℕ fun _ : ℕ => ℕ) : NetworkStep fork (fun _ _ => 0) network
      (.data 0 ⟨0, .whole⟩ ⟨0, .whole⟩ (.send 5 _)) _ := .send network rfl 5
  have looks {network : Network ℕ fun _ : ℕ => ℕ}
      (points : network.connections.connectingPort ⟨2, .whole⟩ = some ⟨0, .whole⟩) :
      NetworkStep fork (fun _ _ => 0) network (.data 0 ⟨0, .whole⟩ ⟨2, .whole⟩ (.look _)) network :=
    .peek rfl points
  have receives {network : Network ℕ fun _ : ℕ => ℕ} {after : Slots ℕ fun _ : ℕ => ℕ}
      (points : network.connections.connectingPort ⟨1, .whole⟩ = some ⟨0, .whole⟩)
      (returns : InPort.receive (fun _ _ => 0) network.connections 0 network.slots ⟨1, .whole⟩ =
        some (5, after)) :
      NetworkStep fork (fun _ _ => 0) network (.data 0 ⟨0, .whole⟩ ⟨1, .whole⟩ (.receive 5)) _ :=
    .receive (show fork 1 = .inPort 0 from rfl) points returns
  have history : StepPath (NetworkStep fork fun _ _ => 0)
      (⟨.new, .fresh fun _ _ => 0⟩ : Network ℕ fun _ : ℕ => ℕ) _ _ :=
    .snoc (.snoc (.snoc (.snoc (.snoc (.snoc .nil (.connect _ connecting_fork)) (sends _))
      (.connect _ elsewhere)) (looks rfl)) (receives rfl rfl)) (looks rfl)
  obtain ⟨accounted, operates, -⟩ := network_accounts history
  exact ⟨_, _, history, rfl, accounted 0 ⟨0, .whole⟩, operates⟩

end Network
end Simo
