import Mathlib.Data.List.Chain
import Mathlib.Order.WellFounded
import Simo.Port.Network

/-!
# Calls through callback ports

A callback out port hands a payload to the callback of the in port that it is connected to, which is
called at once.  The callback can send through other out ports before it returns, so that callbacks
call each other to any depth.  If no chain of callbacks goes on for ever, every send returns and no
callback is entered again before it has returned.
-/

namespace Simo

variable {Ty Id World : Type*} [DecidableEq Ty] {classOf : Id → PortClass Ty} {Val : Ty → Type*}

/-- A `CallbackOutPort` for given types of payloads and return values, with a contract or not. -/
abbrev CallbackOut (classOf : Id → PortClass Ty) (payload returnType : Ty) : Type _ :=
  { port : Id // (classOf port).derives (.callbackOutPort payload returnType) = true }

/-- What a callback does with the state of the modules: it sends payloads, and goes on with the
state that it finds then and the answer, until it returns. -/
inductive Activity (classOf : Id → PortClass Ty) (Val : Ty → Type*) (World Result : Type*) where
  | done (world : World) (result : Result)
  | send (world : World) {payload returnType : Ty} (port : CallbackOut classOf payload returnType)
      (value : Val payload)
      (rest : World → Option (Val returnType) → Activity classOf Val World Result)

/-- A call of send: the port in whose callback it ends up, if there is one, and those whose
callbacks are being called, the innermost first. -/
structure SendCall (Id : Type*) {Ty : Type*} (Val : Ty → Type*) where
  source : Id
  payload : Ty
  returnType : Ty
  value : Val payload
  target : Option Id
  running : List Id

/-- The state after some calls, what they lead to, and the calls in the order in which they
start. -/
abbrev SendAnswer (Id World : Type*) {Ty : Type*} (Val : Ty → Type*) (Result : Type*) :=
  World × Result × List (SendCall Id Val)

/-- How a port answers a payload in a state, if it does. -/
abbrev Sender (classOf : Id → PortClass Ty) (Val : Ty → Type*) (World : Type*) :=
  ∀ {payload returnType : Ty}, CallbackOut classOf payload returnType → Val payload → World →
    Option (SendAnswer Id World Val (Option (Val returnType)))

namespace Activity

variable {Result : Type*}

/-- Carry out an activity. -/
def run (send : Sender classOf Val World) :
    Activity classOf Val World Result → Option (SendAnswer Id World Val Result)
  | done world result => some (world, result, [])
  | .send world port value rest =>
      (send port value world).bind fun (world, reply, calls) =>
        ((rest world reply).run send).map fun (world, result, more) =>
          (world, result, calls ++ more)

theorem run_mono {send other : Sender classOf Val World}
    (covers : ∀ {payload returnType : Ty} (port : CallbackOut classOf payload returnType)
      (value : Val payload) (world : World)
      (answer : SendAnswer Id World Val (Option (Val returnType))),
      send port value world = some answer → other port value world = some answer)
    {activity : Activity classOf Val World Result} {answer : SendAnswer Id World Val Result}
    (runs : activity.run send = some answer) : activity.run other = some answer := by
  induction activity generalizing answer with
  | done world result => exact runs
  | send world port value rest induction =>
      rw [run] at runs ⊢
      obtain ⟨⟨after, reply, calls⟩, sent, goesOn⟩ := Option.bind_eq_some_iff.mp runs
      obtain ⟨final, ran, rfl⟩ := Option.map_eq_some_iff.mp goesOn
      rw [covers _ _ _ _ sent, Option.bind_some]
      dsimp only
      rw [induction after reply ran]
      rfl

/-- Some answers make the activity send through a port. -/
inductive MaySend (port : Id) : Activity classOf Val World Result → Prop
  | now {world : World} {payload returnType : Ty} {out : CallbackOut classOf payload returnType}
      {value : Val payload} {rest : World → Option (Val returnType) →
        Activity classOf Val World Result}
      (same : out.1 = port) : MaySend port (.send world out value rest)
  | later {world : World} {payload returnType : Ty} {out : CallbackOut classOf payload returnType}
      {value : Val payload} {rest : World → Option (Val returnType) →
        Activity classOf Val World Result}
      (after : World) (reply : Option (Val returnType)) (sends : MaySend port (rest after reply)) :
      MaySend port (.send world out value rest)

/-- A property of all calls that the ports make. -/
theorem forall_calls {send : Sender classOf Val World} {good : SendCall Id Val → Prop}
    {activity : Activity classOf Val World Result}
    (each : ∀ {payload returnType : Ty} (port : CallbackOut classOf payload returnType),
      activity.MaySend port.1 → ∀ (value : Val payload) (world : World) answer,
        send port value world = some answer → ∀ call ∈ answer.2.2, good call)
    {answer : SendAnswer Id World Val Result} (runs : activity.run send = some answer) :
    ∀ call ∈ answer.2.2, good call := by
  induction activity generalizing answer with
  | done world result =>
      obtain rfl := Option.some.inj runs
      exact fun call member => (List.not_mem_nil member).elim
  | send world port value rest induction =>
      rw [run] at runs
      obtain ⟨⟨after, reply, calls⟩, sent, goesOn⟩ := Option.bind_eq_some_iff.mp runs
      obtain ⟨⟨final, result, more⟩, ran, rfl⟩ := Option.map_eq_some_iff.mp goesOn
      intro call member
      rcases List.mem_append.mp member with first | later
      · exact each port (.now rfl) value world _ sent call first
      · exact induction after reply (fun port sends => each port (.later after reply sends)) ran
          call later

end Activity

/-- Callback ports: the pointers between them and the callbacks, each read at the types of the
pointer that leads to it. -/
structure CallbackNetwork (classOf : Id → PortClass Ty) (Val : Ty → Type*) (World : Type*) where
  connections : Connections Id
  callback_ : ∀ payload returnType : Ty, Id →
    Option (Val payload → World → Activity classOf Val World (Val returnType))

namespace CallbackNetwork

/-- The in port at which a port points, with its callback, if both are set. -/
def receiver (network : CallbackNetwork classOf Val World) {payload returnType : Ty}
    (port : CallbackOut classOf payload returnType) :
    Option (Id × (Val payload → World → Activity classOf Val World (Val returnType))) :=
  (network.connections.connectingPort ⟨port.1, .whole⟩).bind fun connectingPort =>
    (network.callback_ payload returnType connectingPort.object).map (connectingPort.object, ·)

/-- `CallbackOutPort::send` with `CallbackInPort::receive`, with a bound on the depth of the calls.
Callbacks that return nothing return a value without content here. -/
def send (network : CallbackNetwork classOf Val World) :
    ℕ → List Id → Sender classOf Val World
  | 0, _, _, _, _, _, _ => none
  | depth + 1, running, payload, returnType, port, value, world =>
      match network.receiver port with
      | none => some (world, none, [⟨port.1, payload, returnType, value, none, running⟩])
      | some (target, callback) =>
          ((callback value world).run (network.send depth (target :: running))).map
            fun (world, result, calls) => (world, some result,
              ⟨port.1, payload, returnType, value, some target, running⟩ :: calls)

/-- The callback of one in port can call that of another. -/
def Triggers (network : CallbackNetwork classOf Val World) (caller callee : Id) : Prop :=
  ∃ payload returnType callback value world port,
    network.callback_ payload returnType caller = some callback ∧
    (callback value world).MaySend port ∧
    ∃ peer, network.connections.connectingPort ⟨port, .whole⟩ = some peer ∧ peer.object = callee

/-- No chain of callbacks that call each other goes on for ever. -/
def Hierarchical (network : CallbackNetwork classOf Val World) : Prop :=
  WellFounded fun callee caller => network.Triggers caller callee

/-! ## Sends return -/

variable {network : CallbackNetwork classOf Val World}

/-- Nothing is called, or the callback of the receiver is. -/
theorem send_eq_some_iff {depth : ℕ} {running : List Id} {payload returnType : Ty}
    {port : CallbackOut classOf payload returnType} {value : Val payload} {world : World}
    {answer : SendAnswer Id World Val (Option (Val returnType))} :
    network.send (depth + 1) running port value world = some answer ↔
      (network.receiver port = none ∧
        answer = (world, none, [⟨port.1, payload, returnType, value, none, running⟩])) ∨
      ∃ target callback after result calls, network.receiver port = some (target, callback) ∧
        (callback value world).run (network.send depth (target :: running)) =
          some (after, result, calls) ∧
        answer = (after, some result,
          ⟨port.1, payload, returnType, value, some target, running⟩ :: calls) := by
  rw [send]
  cases found : network.receiver port with
  | none => simp [eq_comm]
  | some receiver =>
      obtain ⟨target, callback⟩ := receiver
      simp only [Option.map_eq_some_iff, Prod.exists, reduceCtorEq, false_and, false_or,
        Option.some.injEq, Prod.mk.injEq]
      constructor
      · rintro ⟨after, result, calls, ran, rfl⟩
        exact ⟨target, callback, after, result, calls, ⟨rfl, rfl⟩, ran, rfl⟩
      · rintro ⟨_, _, after, result, calls, ⟨rfl, rfl⟩, ran, rfl⟩
        exact ⟨after, result, calls, ran, rfl⟩

/-- What returns within a bound on the depth returns the same within a larger one. -/
theorem send_succ {depth : ℕ} {running : List Id} {payload returnType : Ty}
    {port : CallbackOut classOf payload returnType} {value : Val payload} {world : World}
    {answer : SendAnswer Id World Val (Option (Val returnType))}
    (returns : network.send depth running port value world = some answer) :
    network.send (depth + 1) running port value world = some answer := by
  induction depth generalizing running payload returnType world with
  | zero => cases returns
  | succ depth induction =>
      refine send_eq_some_iff.mpr ((send_eq_some_iff.mp returns).imp_right ?_)
      rintro ⟨target, callback, after, result, calls, found, ran, same⟩
      exact ⟨target, callback, after, result, calls, found,
        Activity.run_mono (fun _ _ _ _ returned => induction returned) ran, same⟩

theorem send_mono {depth more : ℕ} (bound : depth ≤ more) {running : List Id}
    {payload returnType : Ty} {port : CallbackOut classOf payload returnType} {value : Val payload}
    {world : World} {answer : SendAnswer Id World Val (Option (Val returnType))}
    (returns : network.send depth running port value world = some answer) :
    network.send more running port value world = some answer := by
  induction bound with
  | refl => exact returns
  | step _ induction => exact send_succ induction

/-- An activity comes to its end if the callbacks that it can call do. -/
theorem exists_run {Result : Type*} {running : List Id}
    {activity : Activity classOf Val World Result}
    (answered : ∀ {payload returnType : Ty} (port : CallbackOut classOf payload returnType),
      activity.MaySend port.1 → ∀ (value : Val payload) (world : World),
        ∃ depth answer, network.send depth running port value world = some answer) :
    ∃ depth answer, activity.run (network.send depth running) = some answer := by
  induction activity with
  | done world result => exact ⟨0, _, rfl⟩
  | send world port value rest induction =>
      obtain ⟨depth, ⟨after, reply, calls⟩, sent⟩ := answered port (.now rfl) value world
      obtain ⟨depth', ⟨final, result, more⟩, ran⟩ := induction after reply
        fun port sends => answered port (.later after reply sends)
      refine ⟨max depth depth', (final, result, calls ++ more), ?_⟩
      rw [Activity.run, send_mono (le_max_left ..) sent, Option.bind_some]
      dsimp only
      rw [Activity.run_mono (fun _ _ _ _ returned => send_mono (le_max_right ..) returned) ran]
      rfl

theorem receiver_eq_some_iff {payload returnType : Ty}
    {port : CallbackOut classOf payload returnType} {target : Id}
    {callback : Val payload → World → Activity classOf Val World (Val returnType)} :
    network.receiver port = some (target, callback) ↔
      (∃ peer, network.connections.connectingPort ⟨port.1, .whole⟩ = some peer ∧
        peer.object = target) ∧
      network.callback_ payload returnType target = some callback := by
  simp only [receiver, Option.bind_eq_some_iff, Option.map_eq_some_iff, Prod.mk.injEq]
  constructor
  · rintro ⟨peer, points, _, found, rfl, rfl⟩
    exact ⟨⟨peer, points, rfl⟩, found⟩
  · rintro ⟨⟨peer, points, rfl⟩, found⟩
    exact ⟨peer, points, callback, found, rfl, rfl⟩

/-- A send returns if the callback that it calls does. -/
theorem exists_send_of_run {running : List Id} {payload returnType : Ty}
    (port : CallbackOut classOf payload returnType) (value : Val payload) (world : World)
    (runs : ∀ target callback, network.receiver port = some (target, callback) →
      ∃ depth answer, (callback value world).run (network.send depth (target :: running)) =
        some answer) :
    ∃ depth answer, network.send depth running port value world = some answer := by
  cases found : network.receiver port with
  | none => exact ⟨1, _, send_eq_some_iff.mpr (.inl ⟨found, rfl⟩)⟩
  | some receiver =>
      obtain ⟨target, callback⟩ := receiver
      obtain ⟨depth, ⟨after, result, calls⟩, ran⟩ := runs target callback found
      exact ⟨depth + 1, _, send_eq_some_iff.mpr
        (.inr ⟨target, callback, after, result, calls, found, ran, rfl⟩)⟩

/-- Callbacks return if no chain of them goes on for ever. -/
theorem exists_run_callback (hierarchical : network.Hierarchical) {target : Id}
    {payload returnType : Ty}
    {callback : Val payload → World → Activity classOf Val World (Val returnType)}
    (found : network.callback_ payload returnType target = some callback) (running : List Id)
    (value : Val payload) (world : World) :
    ∃ depth answer, (callback value world).run (network.send depth running) = some answer := by
  induction target using hierarchical.induction generalizing payload returnType running world with
  | _ caller induction =>
      refine exists_run fun port sends next state => exists_send_of_run port next state ?_
      intro callee inner receives
      obtain ⟨points, stored⟩ := receiver_eq_some_iff.mp receives
      exact induction callee ⟨_, _, callback, value, world, port.1, found, sends, points⟩ stored
        (callee :: running) next state

/-! ## No callback is entered twice -/

/-- The ports whose callbacks are being called have been triggered one by the other. -/
def Nested (network : CallbackNetwork classOf Val World) (running : List Id) : Prop :=
  running.IsChain fun callee caller => network.Triggers caller callee

theorem Nested.nodup (hierarchical : network.Hierarchical) {running : List Id}
    (nested : network.Nested running) : running.Nodup := by
  have below := hierarchical.transGen
  have apart : running.Pairwise (Relation.TransGen fun callee caller =>
      network.Triggers caller callee) := by
    rw [← List.isChain_iff_pairwise]
    exact nested.imp fun _ _ => .single
  refine apart.imp fun {callee caller} triggered => ?_
  rintro rfl
  exact below.irrefl.irrefl _ triggered

/-- What holds of a call: it goes from an out port at its types to the callback at which this port
points, if there is one, and the callbacks that are being called have triggered each other. -/
structure Delivers (network : CallbackNetwork classOf Val World) (call : SendCall Id Val) :
    Prop where
  source : (classOf call.source).derives (.callbackOutPort call.payload call.returnType) = true
  target : ∀ target, call.target = some target ↔
    (∃ peer, network.connections.connectingPort ⟨call.source, .whole⟩ = some peer ∧
      peer.object = target) ∧
    (network.callback_ call.payload call.returnType target).isSome
  nested : network.Nested (call.target.toList ++ call.running)

/-- Every call that a send leads to is delivered. -/
theorem delivers_of_send {depth : ℕ} {running : List Id} {payload returnType : Ty}
    {port : CallbackOut classOf payload returnType} {value : Val payload} {world : World}
    {answer : SendAnswer Id World Val (Option (Val returnType))} (nested : network.Nested running)
    (deeper : ∀ peer, network.connections.connectingPort ⟨port.1, .whole⟩ = some peer →
      network.Nested (peer.object :: running))
    (returns : network.send depth running port value world = some answer) :
    ∀ call ∈ answer.2.2, network.Delivers call := by
  induction depth generalizing running payload returnType world with
  | zero => cases returns
  | succ depth induction =>
      rcases send_eq_some_iff.mp returns with ⟨found, rfl⟩ |
        ⟨target, callback, after, result, calls, found, ran, rfl⟩
      · intro call member
        obtain rfl := List.mem_singleton.mp member
        refine ⟨port.2, fun target => ⟨nofun, fun ⟨points, stored⟩ => ?_⟩, nested⟩
        obtain ⟨callback, stored⟩ := Option.isSome_iff_exists.mp stored
        cases found.symm.trans (receiver_eq_some_iff.mpr ⟨points, stored⟩)
      · obtain ⟨⟨peer, points, rfl⟩, stored⟩ := receiver_eq_some_iff.mp found
        have inner := deeper peer points
        refine List.forall_mem_cons.mpr ⟨⟨port.2, fun target => ?_, inner⟩, ?_⟩
        · constructor
          · rintro ⟨⟩
            exact ⟨⟨peer, points, rfl⟩, stored ▸ rfl⟩
          · rintro ⟨⟨other, same, rfl⟩, -⟩
            rw [Option.some.inj (points.symm.trans same)]
        · refine Activity.forall_calls (fun port' sends value' world' answer' sent => ?_) ran
          refine induction inner (fun peer' points' => ?_) sent
          exact List.isChain_cons_cons.mpr ⟨⟨_, _, callback, value, world, port'.1, stored, sends,
            peer', points', rfl⟩, inner⟩

end CallbackNetwork

/-! ## Networks that have been connected -/

namespace PortClass

variable {payload returnType : Ty} {cls peer : PortClass Ty}

theorem cases_of_derives (out : cls.derives (.callbackOutPort payload returnType) = true) :
    cls = .callbackOutPort payload returnType ∨
      ∃ contract, cls = .callbackContractOutPort payload returnType contract := by
  cases cls <;> simp_all [derives, base]

/-- A callback out port is connected to a callback in port for the same types only. -/
theorem derives_of_accepts (out : cls.derives (.callbackOutPort payload returnType) = true)
    (accepted : cls.accepts peer = true ∨ peer.accepts cls = true) :
    peer.derives (.callbackInPort payload returnType) = true := by
  rcases cases_of_derives out with rfl | ⟨contract, rfl⟩
  · rcases accepted with accepted | accepted
    · exact accepted
    · rcases accepts_iff.mp accepted with complementary | mixed
      · rw [eq_complement_comm.mp complementary]
        simp [derives, complement]
      · cases mixed
  · rcases accepted with accepted | accepted
    · exact derives_callbackInPort accepted
    · rcases accepts_iff.mp accepted with complementary | mixed
      · rw [eq_complement_comm.mp complementary]
        simp [derives, complement, base]
      · -- the peer is a plain port that has taken the contract port
        rw [← complement_complement peer, ← Option.some.inj mixed]
        simp [derives, complement]

end PortClass

namespace CallbackNetwork

variable [DecidableEq Id]

/-- Two pairs of callback ports. -/
def relay : ℕ → PortClass Unit
  | 0 | 2 => .callbackOutPort () ()
  | _ => .callbackInPort () ()

/-- The callback of the first pair sends through the second pair and passes the answer on. -/
def relayCallback (_ _ : Unit) : ℕ → Option (ℕ → ℕ → Activity relay (fun _ => ℕ) ℕ ℕ)
  | 1 => some fun value world =>
      .send (world + 1) (⟨2, rfl⟩ : CallbackOut relay () ()) (value + 1)
        fun world reply => .done world (reply.getD 0)
  | 3 => some fun value world => .done (world + 1) (2 * value)
  | _ => none

def relayConnections : Connections ℕ :=
  (Connections.new.link ⟨0, .whole⟩ ⟨1, .whole⟩).link ⟨2, .whole⟩ ⟨3, .whole⟩

theorem hierarchical_relay : Hierarchical ⟨relayConnections, relayCallback⟩ := by
  have ascends (caller callee : ℕ)
      (triggers : Triggers ⟨relayConnections, relayCallback⟩ caller callee) :
      3 - callee < 3 - caller := by
    obtain ⟨payload, returnType, callback, value, world, port, stored, sends, peer, points, rfl⟩ :=
      triggers
    dsimp only [relayCallback] at stored
    split at stored
    next =>
      obtain rfl := Option.some.inj stored
      cases sends with
      | now same =>
          subst same
          cases points
          decide
      | later after reply sends => cases sends
    next =>
      obtain rfl := Option.some.inj stored
      cases sends
    next => cases stored
  exact Subrelation.wf (fun {callee caller} => ascends caller callee)
    (measure fun port => 3 - port).wf

end CallbackNetwork
end Simo
