import Simo.Port.Matching

/-!
# Contracts follow the data

A contract port has two pointers to its peer: the connecting pointer that data takes, and the one of
its contract interface.  Contract ports set both.  A plain callback port that initiates sets only
the first, so a contract port that it takes over keeps the contract of its old peer.
-/

namespace Simo

/-- Why a contract cannot be verified. -/
inductive VerifyContractError where
  | noConnectedPort
  | noConnectedPortContract
  | noPredicate
deriving DecidableEq

/-- The fields of a contract interface besides the pointer to its peer. -/
structure ContractInterface (Contract : Type*) where
  contract_ : Option Contract
  connectedPortContractPredicate_ : Option (Contract → Bool)

variable {Ty Id Contract : Type*}

/-- `verify_connected_port_contract` of a port. -/
def verifyConnectedPortContract (interface : PortPtr Id → ContractInterface Contract)
    (connections : Connections Id) (port : PortPtr Id) : Except VerifyContractError Bool :=
  match connections.connectedPort port with
  | none => .error .noConnectedPort
  | some connectedPort =>
      match (interface connectedPort).contract_ with
      | none => .error .noConnectedPortContract
      | some contract =>
          match (interface port).connectedPortContractPredicate_ with
          | none => .error .noPredicate
          | some predicate => .ok (predicate contract)

/-- The contract peer of a port, if set, is the port that data goes to, and what is verified is the
contract of that port. -/
structure VerifiesPeer (Contract : Type*) (connections : Connections Id) : Prop where
  peer : ∀ port peer, connections.connectedPort port = some peer →
    connections.connectingPort port = some peer
  evaluates : ∀ (interface : PortPtr Id → ContractInterface Contract) port value,
    verifyConnectedPortContract interface connections port = .ok value →
    ∃ peer contract predicate, connections.connectingPort port = some peer ∧
      (interface peer).contract_ = some contract ∧
      (interface port).connectedPortContractPredicate_ = some predicate ∧
      value = predicate contract

/-- A verification that comes to a result has applied the predicate to the contract peer's
contract. -/
theorem exists_of_verify {interface : PortPtr Id → ContractInterface Contract}
    {connections : Connections Id} {port : PortPtr Id} {value : Bool}
    (verified : verifyConnectedPortContract interface connections port = .ok value) :
    ∃ peer contract predicate, connections.connectedPort port = some peer ∧
      (interface peer).contract_ = some contract ∧
      (interface port).connectedPortContractPredicate_ = some predicate ∧
      value = predicate contract := by
  rw [verifyConnectedPortContract] at verified
  split at verified
  next => cases verified
  next peer connected =>
    split at verified
    next => cases verified
    next contract stored =>
      split at verified
      next => cases verified
      next predicate set =>
        exact ⟨peer, contract, predicate, connected, stored, set, (Except.ok.inj verified).symm⟩

theorem verifiesPeer_iff {connections : Connections Id} :
    VerifiesPeer Contract connections ↔ ∀ port peer, connections.connectedPort port = some peer →
      connections.connectingPort port = some peer := by
  constructor
  · exact VerifiesPeer.peer
  · intro follows
    refine ⟨follows, fun interface port value verified => ?_⟩
    obtain ⟨peer, contract, predicate, connected, rest⟩ := exists_of_verify verified
    exact ⟨peer, contract, predicate, follows port peer connected, rest⟩

/-- Only contract ports have contract peers, and are them. -/
def ContractsTyped (classOf : Id → PortClass Ty) (connections : Connections Id) : Prop :=
  ∀ port peer, connections.connectedPort port = some peer →
    port.member = .whole ∧ (classOf port.object).base ≠ none ∧ (classOf peer.object).base ≠ none

namespace PortClass

variable {cls other : PortClass Ty}

theorem holdsPointer_whole_of_contract (contract : cls.base ≠ none) :
    cls.holdsPointer .whole = true := by
  cases cls <;> first | rfl | exact (contract rfl).elim

theorem base_complement_eq_none : cls.complement.base = none ↔ cls.base = none := by
  rw [base_complement, Option.map_eq_none_iff]

theorem Mixed.plain (mixed : cls.Mixed other) : cls.base = none :=
  base_complement_eq_none.mp (base_of_base mixed)

/-- A contract port accepts contract ports only. -/
theorem eq_complement_of_contract [DecidableEq Ty] (contract : cls.base ≠ none)
    (accepted : cls.accepts other = true) : other = cls.complement :=
  (accepts_iff.mp accepted).resolve_right fun mixed => contract mixed.plain

end PortClass

variable [DecidableEq Id] {connections : Connections Id}

namespace Connections

/-- Only contract ports that initiate change contract peers. -/
theorem connectedPort_join_of_plain {cls : PortClass Ty} (plain : cls.base = none)
    (this other : PortPtr Id) :
    (connections.join cls this other).connectedPort = connections.connectedPort := by
  cases cls <;> first | rfl | cases plain

/-- Contract ports set both pointers. -/
theorem join_of_contract {cls : PortClass Ty} (contract : cls.base ≠ none)
    (this other : PortPtr Id) :
    (connections.join cls this other).connectedPort =
        Pairing.pair connections.connectedPort this other ∧
      (connections.join cls this other).connectingPort =
        Pairing.pair connections.connectingPort this other := by
  cases cls <;> first | exact ⟨rfl, rfl⟩ | exact (contract rfl).elim

/-- Ports that take no part in a call keep their connecting pointer. -/
theorem connectingPort_join_of_ne (cls : PortClass Ty) {this other : Id} {ptr : PortPtr Id}
    (first : ptr.object ≠ this) (second : ptr.object ≠ other) :
    (connections.join cls ⟨this, .whole⟩ ⟨other, .whole⟩).connectingPort ptr =
      connections.connectingPort ptr := by
  rw [connectingPort_join, if_neg (fun both => second both.2), if_neg (fun both => first both.2)]

end Connections

/-- No plain callback port takes over a contract port whose contract peer is set. -/
def KeepsContracts (classOf : Id → PortClass Ty)
    (step : Transition (Connections Id) (ConnectCall Id)) : Prop :=
  ∀ other, step.label.other = some other → (classOf step.label.this).Mixed (classOf other) →
    step.source.connectedPort ⟨other, .whole⟩ = none

section History

variable [DecidableEq Ty] {classOf : Id → PortClass Ty} {before after : Connections Id}
  {call : ConnectCall Id}

theorem contractsTyped_of_connecting (typed : ContractsTyped classOf before)
    (step : Connecting classOf before call after) : ContractsTyped classOf after := by
  rcases step.cases with ⟨-, rfl⟩ | ⟨other, -, accepted, rfl⟩
  · exact typed
  · intro port peer
    by_cases plain : (classOf call.this).base = none
    · rw [Connections.connectedPort_join_of_plain plain]
      exact typed port peer
    · have otherContract : (classOf other).base ≠ none := by
        rw [PortClass.eq_complement_of_contract plain accepted]
        exact mt PortClass.base_complement_eq_none.mp plain
      rw [(Connections.join_of_contract plain _ _).1, Pairing.pair_apply]
      split
      next here =>
        rintro ⟨⟩
        exact here ▸ ⟨rfl, otherContract, plain⟩
      next =>
        split
        next here =>
          rintro ⟨⟩
          exact here ▸ ⟨rfl, plain, otherContract⟩
        next => exact typed port peer

omit [DecidableEq Ty] in
/-- A plain port that initiates leaves the contract peers where the data goes, unless the port it
takes over has one. -/
theorem VerifiesPeer.join_of_plain (verifies : VerifiesPeer Contract before)
    (typed : ContractsTyped classOf before) {this other : Id}
    (plain : (classOf this).base = none)
    (free : (classOf other).base = none ∨ before.connectedPort ⟨other, .whole⟩ = none) :
    VerifiesPeer Contract (before.join (classOf this) ⟨this, .whole⟩ ⟨other, .whole⟩) := by
  refine verifiesPeer_iff.mpr fun port peer => ?_
  rw [Connections.connectedPort_join_of_plain plain]
  intro connected
  obtain ⟨whole, contract, -⟩ := typed port peer connected
  rw [Connections.connectingPort_join_of_ne]
  · exact verifies.peer port peer connected
  · exact fun same => contract (same ▸ plain)
  · intro same
    obtain ⟨object, member⟩ := port
    subst whole same
    rcases free with otherPlain | unset
    · exact contract otherPlain
    · cases unset.symm.trans connected

omit [DecidableEq Ty] in
/-- Contract ports get a contract peer where their data goes. -/
theorem VerifiesPeer.join_of_contract (verifies : VerifiesPeer Contract before)
    {cls : PortClass Ty} (contract : cls.base ≠ none) (this other : PortPtr Id) :
    VerifiesPeer Contract (before.join cls this other) := by
  refine verifiesPeer_iff.mpr fun port peer => ?_
  obtain ⟨contracts, pointers⟩ := Connections.join_of_contract contract this other
  rw [contracts, pointers, Pairing.pair_apply, Pairing.pair_apply]
  split
  next => exact id
  next =>
    split
    next => exact id
    next => exact verifies.peer port peer

/-- A call keeps the contract peers where the data goes if and only if it does not take over a
contract port whose contract peer is set. -/
theorem verifiesPeer_step_iff (typed : ContractsTyped classOf before)
    (step : Connecting classOf before call after) (verifies : VerifiesPeer Contract before) :
    VerifiesPeer Contract after ↔ KeepsContracts classOf ⟨before, call, after⟩ := by
  rcases step.cases with ⟨refused, rfl⟩ | ⟨other, named, accepted, rfl⟩
  · refine iff_of_true verifies fun other named mixed => ?_
    cases (PortClass.accepts_iff.mpr (.inr mixed)).symm.trans (refused other named)
  rcases PortClass.accepts_iff.mp accepted with complementary | mixed
  · -- two plain ports or two contract ports
    refine iff_of_true ?_ ?_
    · by_cases plain : (classOf call.this).base = none
      · have otherPlain : (classOf other).base = none := by
          rw [complementary]
          exact PortClass.base_complement_eq_none.mpr plain
        exact verifies.join_of_plain typed plain (.inl otherPlain)
      · exact verifies.join_of_contract plain _ _
    · intro other' named' mixed
      obtain rfl := Option.some.inj (named.symm.trans named')
      exact (mixed.not_complement complementary).elim
  · -- a plain port takes over a contract port
    have plain := mixed.plain
    constructor
    · intro still other' named' _
      obtain rfl := Option.some.inj (named.symm.trans named')
      by_contra set
      obtain ⟨peer, connected⟩ := Option.ne_none_iff_exists'.mp set
      obtain ⟨-, contract, peerContract⟩ := typed _ _ connected
      have points := still.peer ⟨other, .whole⟩ peer
        (by rw [Connections.connectedPort_join_of_plain plain]; exact connected)
      have holds := PortClass.holdsPointer_whole_of_contract contract
      rw [PortClass.holdsPointer_of_accepts accepted] at holds
      rw [Connections.connectingPort_join, if_pos ⟨holds, rfl⟩] at points
      obtain rfl := Option.some.inj points
      exact peerContract plain
    · intro keeps
      exact verifies.join_of_plain typed plain (.inr (keeps other named mixed))

/-- In a history of connect calls the contract that is verified is that of the port that data goes
to, after each call, if and only if no plain callback port takes over a contract port whose contract
peer is set. -/
theorem verifies_peer_throughout_iff {connections : Connections Id}
    {steps : List (Transition (Connections Id) (ConnectCall Id))}
    (history : StepPath (Connecting classOf) .new steps connections) :
    (∀ step ∈ steps, VerifiesPeer Contract step.target) ↔
      ∀ step ∈ steps, KeepsContracts classOf step := by
  have typed : ContractsTyped classOf (.new : Connections Id) := nofun
  have initially : VerifiesPeer Contract (.new : Connections Id) := verifiesPeer_iff.mpr nofun
  exact history.forall_target_iff typed initially (fun _ _ _ => contractsTyped_of_connecting)
    fun _ _ _ => verifiesPeer_step_iff

end History

/-- A contract pair for the payload 0, and a plain port that sends to the same kind of port. -/
def rivals : ℕ → PortClass ℕ
  | 0 => .callbackContractOutPort 0 1 2
  | 1 => .callbackContractInPort 0 1 2
  | _ => .callbackOutPort 0 1

/-- The contract pair connected. -/
def rivalsJoined : Connections ℕ :=
  (Connections.new.linkContract ⟨0, .whole⟩ ⟨1, .whole⟩).link ⟨0, .whole⟩ ⟨1, .whole⟩

theorem connecting_rivals : Connecting rivals .new ⟨0, some 1⟩ rivalsJoined := .call rfl

theorem verifies_peer_throughout_iff_rivals :
    ∃ steps connections, StepPath (Connecting rivals) .new steps connections ∧
      steps.map Transition.label = [⟨0, some 1⟩] ∧
      ((∀ step ∈ steps, VerifiesPeer ℕ step.target) ↔
        ∀ step ∈ steps, KeepsContracts rivals step) :=
  ⟨_, _, .snoc .nil connecting_rivals, rfl,
    verifies_peer_throughout_iff (.snoc .nil connecting_rivals)⟩

/-- The plain port takes the receiving contract port over, which goes on verifying the contract of
its old peer. -/
theorem not_verifiesPeer_rivals :
    ∃ steps connections, StepPath (Connecting rivals) .new steps connections ∧
      steps.map Transition.label = [⟨0, some 1⟩, ⟨2, some 1⟩] ∧
      connections.connectedPort ⟨1, .whole⟩ = some ⟨0, .whole⟩ ∧
      connections.connectingPort ⟨1, .whole⟩ = some ⟨2, .whole⟩ ∧
      ¬ VerifiesPeer ℕ connections := by
  have takesOver : Connecting rivals rivalsJoined ⟨2, some 1⟩
      (rivalsJoined.link ⟨2, .whole⟩ ⟨1, .whole⟩) := .call rfl
  refine ⟨_, _, .snoc (.snoc .nil connecting_rivals) takesOver, rfl, rfl, rfl, fun verifies => ?_⟩
  cases verifies.peer ⟨1, .whole⟩ ⟨0, .whole⟩ rfl

end Simo
