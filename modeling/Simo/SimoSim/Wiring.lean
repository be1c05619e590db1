import Simo.SimoSim.Connect

/-!
# The wiring that a configuration makes

Connecting a port takes it away from the port it was connected to.  So all connections of a
configuration are in place at the end exactly when none of its ports is to be connected to two
others, and then the order of the connections does not matter.
-/

namespace Simo

namespace Connections

variable {Ty Id : Type*} [DecidableEq Id] {connections : Connections Id} {cls cls' : PortClass Ty}
  {left right left' right' : Id}

theorem connectedPort_join (connections : Connections Id) (cls : PortClass Ty)
    (this other : PortPtr Id) :
    (connections.join cls this other).connectedPort =
      if cls.base.isNone then connections.connectedPort
      else Pairing.pair connections.connectedPort this other := by
  by_cases plain : cls.base = none
  · rw [connectedPort_join_of_plain plain, plain]
    rfl
  · rw [(join_of_contract plain this other).1, if_neg (by simpa using plain)]

/-- A port that takes no part in a call keeps its contract peer. -/
theorem connectedPort_join_of_ne (connections : Connections Id) (cls : PortClass Ty)
    {ptr : PortPtr Id} (first : ptr.object ≠ left) (second : ptr.object ≠ right) :
    (connections.join cls ⟨left, .whole⟩ ⟨right, .whole⟩).connectedPort ptr =
      connections.connectedPort ptr := by
  rw [connectedPort_join]
  split
  next => rfl
  next =>
    exact Pairing.pair_apply_of_ne (fun same => first (same ▸ rfl)) fun same => second (same ▸ rfl)

/-- Two connections without a common port. -/
def Apart (left right left' right' : Id) : Prop :=
  left ≠ left' ∧ left ≠ right' ∧ right ≠ left' ∧ right ≠ right'

/-- Ports stay linked while others connect. -/
theorem linked_join_of_apart (apart : Apart left right left' right')
    (linked : connections.Linked cls ⟨left, .whole⟩ ⟨right, .whole⟩) :
    (connections.join cls' ⟨left', .whole⟩ ⟨right', .whole⟩).Linked cls ⟨left, .whole⟩
      ⟨right, .whole⟩ := by
  obtain ⟨first, second, third, fourth⟩ := apart
  have data {member member' : PortMember}
      (before : Mutual connections.connectingPort ⟨left, member⟩ ⟨right, member'⟩) :
      Mutual (connections.join cls' ⟨left', .whole⟩ ⟨right', .whole⟩).connectingPort
        ⟨left, member⟩ ⟨right, member'⟩ :=
    ⟨(connectingPort_join_of_ne cls' first second).trans before.1,
      (connectingPort_join_of_ne cls' third fourth).trans before.2⟩
  have contracts
      (before : Mutual connections.connectedPort ⟨left, .whole⟩ ⟨right, .whole⟩) :
      Mutual (connections.join cls' ⟨left', .whole⟩ ⟨right', .whole⟩).connectedPort
        ⟨left, .whole⟩ ⟨right, .whole⟩ :=
    ⟨(connectedPort_join_of_ne connections cls' first second).trans before.1,
      (connectedPort_join_of_ne connections cls' third fourth).trans before.2⟩
  cases cls with
  | bidirectionalPortTyped => exact ⟨data linked.1, data linked.2⟩
  | callbackContractOutPort | callbackContractInPort => exact ⟨data linked.1, contracts linked.2⟩
  | _ => exact data linked

/-- Connections without a common port can be made in either order. -/
theorem join_join_of_apart (connections : Connections Id) (cls cls' : PortClass Ty)
    (apart : Apart left right left' right') :
    (connections.join cls ⟨left, .whole⟩ ⟨right, .whole⟩).join cls' ⟨left', .whole⟩
        ⟨right', .whole⟩ =
      (connections.join cls' ⟨left', .whole⟩ ⟨right', .whole⟩).join cls ⟨left, .whole⟩
        ⟨right, .whole⟩ := by
  obtain ⟨first, second, third, fourth⟩ := apart
  refine Connections.ext (funext fun ptr => ?_) ?_
  · by_cases inside : ptr.object = left ∨ ptr.object = right
    · have outside : ptr.object ≠ left' ∧ ptr.object ≠ right' := by
        rcases inside with same | same
        · exact same ▸ ⟨first, second⟩
        · exact same ▸ ⟨third, fourth⟩
      rw [connectingPort_join_of_ne cls' outside.1 outside.2, connectingPort_join,
        connectingPort_join, connectingPort_join_of_ne cls' outside.1 outside.2]
    · obtain ⟨notLeft, notRight⟩ := not_or.mp inside
      rw [connectingPort_join_of_ne cls notLeft notRight, connectingPort_join,
        connectingPort_join_of_ne cls notLeft notRight, connectingPort_join]
  · simp only [connectedPort_join]
    split_ifs
    · rfl
    · rfl
    · rfl
    · exact Pairing.pair_pair_comm _ (by simpa using first) (by simpa using second)
        (by simpa using third) (by simpa using fourth)

omit [DecidableEq Id] in
/-- The pointers of linked ports. -/
theorem Linked.connectingPort (linked : connections.Linked cls ⟨left, .whole⟩ ⟨right, .whole⟩)
    {member : PortMember} (holds : cls.holdsPointer member = true) :
    connections.connectingPort ⟨left, member⟩ = some ⟨right, member.opposite⟩ ∧
      connections.connectingPort ⟨right, member⟩ = some ⟨left, member.opposite⟩ := by
  cases cls with
  | bidirectionalPortTyped =>
      cases member with
      | whole => cases holds
      | outPort => exact ⟨linked.1.1, linked.2.2⟩
      | inPort => exact ⟨linked.2.1, linked.1.2⟩
  | callbackContractOutPort | callbackContractInPort =>
      cases member with
      | whole => exact linked.1
      | _ => cases holds
  | _ =>
      cases member with
      | whole => exact linked
      | _ => cases holds

section Accepted

variable [DecidableEq Ty] {classOf : Id → PortClass Ty}

theorem linked_join_of_accepts (connections : Connections Id)
    (accepted : (classOf left).accepts (classOf right) = true) :
    (connections.join (classOf left) ⟨left, .whole⟩ ⟨right, .whole⟩).Linked (classOf left)
      ⟨left, .whole⟩ ⟨right, .whole⟩ := by
  refine connections.linked_join fun single same => ?_
  cases same
  rw [PortClass.bidirectional_of_accepts_self accepted] at single
  cases single

/-- Ports that accept each other can be connected from either end. -/
theorem join_of_accepts (connections : Connections Id)
    (accepted : (classOf left).accepts (classOf right) = true)
    (accepted' : (classOf right).accepts (classOf left) = true) :
    connections.join (classOf right) ⟨right, .whole⟩ ⟨left, .whole⟩ =
      connections.join (classOf left) ⟨left, .whole⟩ ⟨right, .whole⟩ := by
  rw [PortClass.eq_complement_of_accepts accepted accepted', ← join_comm]

/-- Ports stay linked while a connection is made without them or between the two of them. -/
theorem linked_join_of_apart_or_same (accepted : (classOf left).accepts (classOf right) = true)
    (accepted' : (classOf left').accepts (classOf right') = true)
    (place : Apart left right left' right' ∨ left' = left ∧ right' = right ∨
      left' = right ∧ right' = left)
    (linked : connections.Linked (classOf left) ⟨left, .whole⟩ ⟨right, .whole⟩) :
    (connections.join (classOf left') ⟨left', .whole⟩ ⟨right', .whole⟩).Linked (classOf left)
      ⟨left, .whole⟩ ⟨right, .whole⟩ := by
  rcases place with apart | ⟨rfl, rfl⟩ | ⟨rfl, rfl⟩
  · exact linked_join_of_apart apart linked
  · exact linked_join_of_accepts connections accepted
  · rw [join_of_accepts connections accepted accepted']
    exact linked_join_of_accepts connections accepted

end Accepted

end Connections

namespace SimoSim

variable {Ty Id Params : Type*} [DecidableEq Ty] [DecidableEq Id] {classOf : Id → PortClass Ty}
  {connections : Connections Id} {ends ends' : List (Id × Id)}

/-- The left port of each pair accepts the right one. -/
def Accepted (classOf : Id → PortClass Ty) (ends : List (Id × Id)) : Prop :=
  ∀ ports ∈ ends, (classOf ports.1).accepts (classOf ports.2) = true

/-- Linked ports stay linked when all further connections are exclusive with theirs. -/
theorem linked_joinAll {left right : Id} (accepted : Accepted classOf ends)
    (accepted' : (classOf left).accepts (classOf right) = true)
    (place : ∀ ports ∈ ends, Connections.Apart left right ports.1 ports.2 ∨
      ports.1 = left ∧ ports.2 = right ∨ ports.1 = right ∧ ports.2 = left)
    (linked : connections.Linked (classOf left) ⟨left, .whole⟩ ⟨right, .whole⟩) :
    (joinAll classOf connections ends).Linked (classOf left) ⟨left, .whole⟩ ⟨right, .whole⟩ := by
  induction ends generalizing connections with
  | nil => exact linked
  | cons ports ends induction =>
      obtain ⟨acceptedHere, acceptedLater⟩ := List.forall_mem_cons.mp accepted
      obtain ⟨placeHere, placeLater⟩ := List.forall_mem_cons.mp place
      exact induction acceptedLater placeLater
        (Connections.linked_join_of_apart_or_same accepted' acceptedHere placeHere linked)

/-- Exclusive connections are all in place in the end. -/
theorem linked_joinAll_of_exclusive (accepted : Accepted classOf ends)
    (exclusive : Pairing.Exclusive ends) {left right : Id} (member : (left, right) ∈ ends) :
    (joinAll classOf connections ends).Linked (classOf left) ⟨left, .whole⟩ ⟨right, .whole⟩ := by
  obtain ⟨before, after, rfl⟩ := List.append_of_mem member
  have joined : Pairing.Joined (before ++ (left, right) :: after) left right := .inl member
  rw [joinAll, List.foldl_append, List.foldl_cons]
  refine linked_joinAll (fun ports inAfter => accepted ports ?_) (accepted _ member)
    (fun ports inAfter => exclusive.apart_or_same joined (.inl ?_))
    (Connections.linked_join_of_accepts _ (accepted _ member))
  all_goals simp [inAfter]

/-- Exclusive connections can be made in any order. -/
theorem joinAll_perm (connections : Connections Id) (exclusive : Pairing.Exclusive ends)
    (accepted : Accepted classOf ends) (perm : ends.Perm ends') :
    joinAll classOf connections ends = joinAll classOf connections ends' := by
  refine perm.foldl_eq' ?_ connections
  rintro ⟨left, right⟩ member ⟨left', right'⟩ member' later
  rcases exclusive.apart_or_same (.inl member) (.inl member') with apart | ⟨rfl, rfl⟩ | ⟨rfl, rfl⟩
  · exact later.join_join_of_apart _ _ apart
  · rfl
  · simp only [Connections.join_of_accepts _ (accepted _ member) (accepted _ member')]

/-- The pairing of the ports is that of their connections, the later ones in the place of the
earlier ones. -/
theorem represents_joinAll {mate : Pairing Id} (represents : connections.Represents classOf mate)
    (accepted : Accepted classOf ends) :
    (joinAll classOf connections ends).Represents classOf (mate.pairAll ends) := by
  induction ends generalizing connections mate with
  | nil => exact represents
  | cons ports ends induction =>
      obtain ⟨here, later⟩ := List.forall_mem_cons.mp accepted
      exact induction (represents.join here) later

/-- All connections are in place if and only if no port is in connections with two others. -/
theorem linked_joinAll_iff (connections : Connections Id) (accepted : Accepted classOf ends) :
    (∀ left right, (left, right) ∈ ends →
      (joinAll classOf connections ends).Linked (classOf left) ⟨left, .whole⟩ ⟨right, .whole⟩) ↔
      Pairing.Exclusive ends := by
  constructor
  · intro placed
    -- a port that is linked to another one holds a pointer to it
    have points {port other : Id} (joined : Pairing.Joined ends port other) {member : PortMember}
        (holds : (classOf port).holdsPointer member = true) :
        (joinAll classOf connections ends).connectingPort ⟨port, member⟩ =
          some ⟨other, member.opposite⟩ := by
      rcases joined with first | second
      · exact ((placed port other first).connectingPort holds).1
      · have alike := PortClass.holdsPointer_of_accepts (accepted _ second)
        exact ((placed other port second).connectingPort (alike ▸ holds)).2
    intro port other other' joined joined'
    obtain ⟨member, holds⟩ := (classOf port).exists_holdsPointer
    exact congrArg PortPtr.object (Option.some.inj ((points joined holds).symm.trans
      (points joined' holds)))
  · exact fun exclusive left right => linked_joinAll_of_exclusive accepted exclusive

omit [DecidableEq Ty] in
/-- A port that no connection names keeps its pointers. -/
theorem joinAll_apply_of_not_joined {ptr : PortPtr Id}
    (unnamed : ∀ other, ¬ Pairing.Joined ends ptr.object other) :
    (joinAll classOf connections ends).connectingPort ptr = connections.connectingPort ptr ∧
      (joinAll classOf connections ends).connectedPort ptr = connections.connectedPort ptr := by
  induction ends generalizing connections with
  | nil => exact ⟨rfl, rfl⟩
  | cons ports ends induction =>
      have apart : ptr.object ≠ ports.1 ∧ ptr.object ≠ ports.2 :=
        ⟨fun same => unnamed ports.2 (Pairing.joined_cons.mpr (.inl ⟨same, rfl⟩)),
          fun same => unnamed ports.1 (Pairing.joined_cons.mpr (.inr (.inl ⟨same, rfl⟩)))⟩
      have rest : ∀ other, ¬ Pairing.Joined ends ptr.object other := fun other joined =>
        unnamed other (Pairing.joined_cons.mpr (.inr (.inr joined)))
      have later := @induction
        (connections.join (classOf ports.1) ⟨ports.1, .whole⟩ ⟨ports.2, .whole⟩) rest
      rw [Connections.connectingPort_join_of_ne _ apart.1 apart.2,
        Connections.connectedPort_join_of_ne _ _ apart.1 apart.2] at later
      exact later

/-! ## The configuration -/

section Configuration

variable {moduleMap : ModuleMap Id Params} {list list' : List Endpoints}
  {after : Connections Id}

omit [DecidableEq Id] in
theorem accepted_endsOf (joinable : ∀ endpoints ∈ list, Joinable classOf moduleMap endpoints) :
    Accepted classOf (endsOf moduleMap list) := by
  rintro ⟨left, right⟩ member
  obtain ⟨endpoints, listed, resolves⟩ := mem_endsOf.mp member
  obtain ⟨left', right', resolves', accepted⟩ := joinable endpoints listed
  cases resolves.1.symm.trans resolves'.1
  cases resolves.2.symm.trans resolves'.2
  exact accepted

/-- What the loop has done when it gets through. -/
theorem eq_joinAll_of_connectAll
    (through : connectAll classOf moduleMap connections list = some (.ok after)) :
    after = joinAll classOf connections (endsOf moduleMap list) := by
  have joinable := joinable_of_connectAll through
  cases (connectAll_of_joinable joinable connections).symm.trans through
  rfl

/-- A module with an out port, and one with two in ports for the same payload. -/
def sourceAndSink : ModuleMap ℕ Unit :=
  AList.insert "source".toList ⟨.mk "source".toList (.singleton "out".toList 0) [], ()⟩
    (.singleton "sink".toList ⟨.mk "sink".toList
      ((AList.singleton "in".toList 1).insert "spare".toList 2) [], ()⟩)

/-- One connection, made from either end. -/
def bothEnds : List Endpoints :=
  [("source/out".toList, "sink/in".toList), ("sink/in".toList, "source/out".toList)]

/-- The pointers of that connection. -/
def bothEndsJoined : Connections ℕ := joinAll fork .new [(0, 1), (1, 0)]

theorem connectAll_bothEnds :
    connectAll fork sourceAndSink .new bothEnds = some (.ok bothEndsJoined) := rfl

theorem exclusive_bothEnds : Pairing.Exclusive (endsOf sourceAndSink bothEnds) := by
  have ends : endsOf sourceAndSink bothEnds = [(0, 1), (1, 0)] := rfl
  rw [ends]
  intro a b c joined joined'
  simp only [Pairing.Joined, List.mem_cons, Prod.mk.injEq, List.not_mem_nil, or_false]
    at joined joined'
  omega

/-- When the loop gets through, all connections of the configuration are in place if and only if no
port is to be connected to two others.  Ports that the configuration does not name are as before. -/
theorem connectAll_wires
    (through : connectAll classOf moduleMap connections list = some (.ok after)) :
    ((∀ endpoints ∈ list, ∀ left right, Resolves moduleMap endpoints left right →
      after.Linked (classOf left) ⟨left, .whole⟩ ⟨right, .whole⟩) ↔
        Pairing.Exclusive (endsOf moduleMap list)) ∧
    ∀ ptr : PortPtr Id, (∀ other, ¬ Pairing.Joined (endsOf moduleMap list) ptr.object other) →
      after.connectingPort ptr = connections.connectingPort ptr ∧
        after.connectedPort ptr = connections.connectedPort ptr := by
  obtain rfl := eq_joinAll_of_connectAll through
  have accepted := accepted_endsOf (joinable_of_connectAll through)
  refine ⟨?_, fun ptr unnamed => joinAll_apply_of_not_joined unnamed⟩
  rw [← linked_joinAll_iff connections accepted]
  constructor
  · intro placed left right member
    obtain ⟨endpoints, listed, resolves⟩ := mem_endsOf.mp member
    exact placed endpoints listed left right resolves
  · intro placed endpoints listed left right resolves
    exact placed left right (mem_endsOf.mpr ⟨endpoints, listed, resolves⟩)

theorem connectAll_wires_bothEnds :
    ((∀ endpoints ∈ bothEnds, ∀ left right, Resolves sourceAndSink endpoints left right →
      bothEndsJoined.Linked (fork left) ⟨left, .whole⟩ ⟨right, .whole⟩) ↔
        Pairing.Exclusive (endsOf sourceAndSink bothEnds)) ∧
    ∀ ptr : PortPtr ℕ,
      (∀ other, ¬ Pairing.Joined (endsOf sourceAndSink bothEnds) ptr.object other) →
        bothEndsJoined.connectingPort ptr = Connections.new.connectingPort ptr ∧
          bothEndsJoined.connectedPort ptr = Connections.new.connectedPort ptr :=
  connectAll_wires connectAll_bothEnds

theorem connectAll_of_perm (exclusive : Pairing.Exclusive (endsOf moduleMap list))
    (perm : list.Perm list')
    (through : connectAll classOf moduleMap connections list = some (.ok after)) :
    connectAll classOf moduleMap connections list' = some (.ok after) := by
  have joinable := joinable_of_connectAll through
  have ends : (endsOf moduleMap list).Perm (endsOf moduleMap list') := perm.filterMap _
  rw [connectAll_of_joinable (fun endpoints member => joinable endpoints (perm.mem_iff.mpr member)),
    ← joinAll_perm connections exclusive (accepted_endsOf joinable) ends,
    ← eq_joinAll_of_connectAll through]

/-- When no port is to be connected to two others, the order of the connections in the
configuration does not matter. -/
theorem connectAll_perm_iff (exclusive : Pairing.Exclusive (endsOf moduleMap list))
    (perm : list.Perm list') (connections after : Connections Id) :
    connectAll classOf moduleMap connections list = some (.ok after) ↔
      connectAll classOf moduleMap connections list' = some (.ok after) := by
  have ends : (endsOf moduleMap list).Perm (endsOf moduleMap list') := perm.filterMap _
  have exclusive' := (Pairing.exclusive_iff_of_joined fun _ _ =>
    Pairing.joined_of_perm ends).mp exclusive
  exact ⟨connectAll_of_perm exclusive perm, connectAll_of_perm exclusive' perm.symm⟩

theorem connectAll_perm_iff_bothEnds :
    connectAll fork sourceAndSink .new bothEnds = some (.ok bothEndsJoined) ↔
      connectAll fork sourceAndSink .new bothEnds.reverse = some (.ok bothEndsJoined) :=
  connectAll_perm_iff exclusive_bothEnds (List.reverse_perm bothEnds).symm .new bothEndsJoined

theorem represents_of_history {steps : List (Transition (Connections Id) (ConnectCall Id))}
    (history : StepPath (Connecting classOf) .new steps connections) :
    ∃ mate, connections.Represents classOf mate := by
  induction history with
  | nil => exact ⟨_, Connections.represents_new classOf⟩
  | snoc _ last induction => exact represents_of_connecting induction last

/-- When the ports were matched before, and no port is to be connected to two others, the loop
leaves them matched if and only if it names, with a port, the port that it was connected to. -/
theorem matching_connectAll_iff {steps : List (Transition (Connections Id) (ConnectCall Id))}
    (history : StepPath (Connecting classOf) .new steps connections)
    (matching : Matching classOf connections)
    (exclusive : Pairing.Exclusive (endsOf moduleMap list))
    (through : connectAll classOf moduleMap connections list = some (.ok after)) :
    Matching classOf after ↔
      ∀ port peer : PortPtr Id, connections.connectingPort port = some peer →
        (∃ other, Pairing.Joined (endsOf moduleMap list) port.object other) →
        ∃ other, Pairing.Joined (endsOf moduleMap list) peer.object other := by
  obtain ⟨mate, represents⟩ := represents_of_history history
  obtain rfl := eq_joinAll_of_connectAll through
  have accepted := accepted_endsOf (joinable_of_connectAll through)
  rw [matching_iff (represents_joinAll represents accepted),
    Pairing.symmetric_pairAll_iff ((matching_iff represents).mp matching) exclusive]
  constructor
  · rintro taken port peer points ⟨other, joined⟩
    exact taken _ _ _ joined (represents.connectingPort_eq_some.mp points).2.1
  · intro taken port other peer joined partner
    obtain ⟨member, holds⟩ := (classOf port).exists_holdsPointer
    exact taken _ _ (represents.connectingPort_of_mate partner holds) ⟨other, joined⟩

/-- The source connected to the spare port. -/
def spareJoined : Connections ℕ := Connections.new.link ⟨0, .whole⟩ ⟨2, .whole⟩

theorem connecting_spare : Connecting fork .new ⟨0, some 2⟩ spareJoined := .call rfl

theorem matching_spare : Matching fork spareJoined := by
  have initially : Matching fork (.new : Connections ℕ) :=
    (matching_iff (Connections.represents_new fork)).mpr Pairing.symmetric_none
  apply (matching_step_iff (Connections.represents_new fork) connecting_spare initially).mpr
  rintro other - - port peer points
  cases points

theorem object_of_spare {port peer : PortPtr ℕ} (points : spareJoined.connectingPort port =
    some peer) : port.object = 0 ∧ peer.object = 2 ∨ port.object = 2 ∧ peer.object = 0 := by
  simp only [spareJoined, Connections.link, Connections.new, Function.update_apply] at points
  split_ifs at points with second first
  · exact .inr ⟨congrArg PortPtr.object second,
      congrArg PortPtr.object (Option.some.inj points).symm⟩
  · exact .inl ⟨congrArg PortPtr.object first,
      congrArg PortPtr.object (Option.some.inj points).symm⟩

/-- The connection to the spare port, once more from its own end. -/
def spareAgain : List Endpoints := [("sink/spare".toList, "source/out".toList)]

theorem exclusive_spareAgain : Pairing.Exclusive (endsOf sourceAndSink spareAgain) := by
  have ends : endsOf sourceAndSink spareAgain = [(2, 0)] := rfl
  rw [ends]
  intro a b c joined joined'
  simp only [Pairing.Joined, List.mem_singleton, Prod.mk.injEq] at joined joined'
  omega

/-- Once the source has been connected to the spare port, a configuration that names both leaves the
ports matched, and one that connects the source elsewhere does not. -/
theorem matching_connectAll_iff_spare :
    Matching fork (joinAll fork spareJoined [(2, 0)]) ∧
      ¬ Matching fork (joinAll fork spareJoined [(0, 1), (1, 0)]) := by
  have history := StepPath.snoc .nil connecting_spare
  constructor
  · apply (matching_connectAll_iff history matching_spare exclusive_spareAgain
      (show connectAll fork sourceAndSink spareJoined spareAgain = some (.ok _) from rfl)).mpr
    intro port peer points _
    have ends : endsOf sourceAndSink spareAgain = [(2, 0)] := rfl
    rw [ends]
    rcases object_of_spare points with ⟨-, back⟩ | ⟨-, back⟩
    · exact back ▸ ⟨0, .inl (List.mem_singleton_self _)⟩
    · exact back ▸ ⟨2, .inr (List.mem_singleton_self _)⟩
  · intro matching
    have taken := (matching_connectAll_iff history matching_spare exclusive_bothEnds
      (show connectAll fork sourceAndSink spareJoined bothEnds = some (.ok _) from rfl)).mp matching
    obtain ⟨other, joined⟩ := taken ⟨0, .whole⟩ ⟨2, .whole⟩ rfl ⟨1, .inl List.mem_cons_self⟩
    have ends : endsOf sourceAndSink bothEnds = [(0, 1), (1, 0)] := rfl
    rw [ends] at joined
    simp [Pairing.Joined] at joined

end Configuration

end SimoSim

end Simo
