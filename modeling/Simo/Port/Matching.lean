import Simo.Port.Direction
import Simo.Support.Pairing
import Simo.Support.Transition

/-!
# Connections as a matching

The pointers that connect calls leave behind are those of a pairing of port objects: a call that
succeeds pairs the two objects, and pairing overwrites their partners without telling the old ones.
So the pointers stay mutual exactly as long as no call takes a port away from a third one.
-/

namespace Simo

/-- The member at the other end of a pointer. -/
def PortMember.opposite : PortMember → PortMember
  | whole => whole
  | outPort => inPort
  | inPort => outPort

@[simp]
theorem PortMember.opposite_opposite (member : PortMember) : member.opposite.opposite = member := by
  cases member <;> rfl

/-! ## Histories of connect calls -/

/-- A call of connect on one port, for another one or for the null pointer. -/
structure ConnectCall (Id : Type*) where
  this : Id
  other : Option Id

/-- `connected` of a port. -/
def connected {Ty Id : Type*} (classOf : Id → PortClass Ty) (connections : Connections Id)
    (port : Id) : Bool :=
  match classOf port with
  | .bidirectionalPortTyped _ _ =>
      (connections.connectingPort ⟨port, .outPort⟩).isSome &&
        (connections.connectingPort ⟨port, .inPort⟩).isSome
  | _ => (connections.connectingPort ⟨port, .whole⟩).isSome

section Connecting

variable {Ty Id : Type*} [DecidableEq Ty] [DecidableEq Id]

/-- One call of connect that returns. -/
inductive Connecting (classOf : Id → PortClass Ty) :
    Connections Id → ConnectCall Id → Connections Id → Prop
  | call {before after : Connections Id} {this : Id} {other : Option Id} {success : Bool}
      (returns : connect classOf before ⟨this, .whole⟩ (other.map (PortPtr.mk · .whole)) =
        some (success, after)) :
      Connecting classOf before ⟨this, other⟩ after

variable {classOf : Id → PortClass Ty} {before after connections : Connections Id}
  {call : ConnectCall Id}

theorem connect_null (connections : Connections Id) (this : PortPtr Id) {success : Bool}
    (returns : connect classOf connections this none = some (success, after)) :
    after = connections := by
  rw [connect] at returns
  split at returns
  all_goals first | exact (Prod.mk.inj (Option.some.inj returns)).2.symm | cases returns

/-- A call that returns leaves the pointers alone, or its two ports are accepted and joined. -/
theorem Connecting.cases (step : Connecting classOf before call after) :
    ((∀ other, call.other = some other →
        (classOf call.this).accepts (classOf other) = false) ∧ after = before) ∨
      ∃ other, call.other = some other ∧ (classOf call.this).accepts (classOf other) = true ∧
        after = before.join (classOf call.this) ⟨call.this, .whole⟩ ⟨other, .whole⟩ := by
  cases step with
  | @call _ this other success returns =>
      cases other with
      | none => exact .inl ⟨nofun, connect_null before _ returns⟩
      | some other =>
          have outcome := (connect_eq before rfl rfl).symm.trans returns
          by_cases accepted : (classOf this).accepts (classOf other) = true
          · rw [if_pos accepted] at outcome
            exact .inr ⟨other, rfl, accepted, (Prod.mk.inj (Option.some.inj outcome)).2.symm⟩
          · rw [if_neg accepted] at outcome
            refine .inl ⟨?_, (Prod.mk.inj (Option.some.inj outcome)).2.symm⟩
            rintro _ ⟨⟩
            exact eq_false_of_ne_true accepted

end Connecting

/-! ## The pairing behind the pointers -/

namespace PortClass

variable {Ty : Type*}

/-- Which members of a port hold a connecting pointer. -/
def holdsPointer : PortClass Ty → PortMember → Bool
  | bidirectionalPortTyped _ _, .whole => false
  | bidirectionalPortTyped _ _, _ => true
  | _, .whole => true
  | _, _ => false

@[simp]
theorem holdsPointer_opposite (cls : PortClass Ty) (member : PortMember) :
    cls.holdsPointer member.opposite = cls.holdsPointer member := by
  cases cls <;> cases member <;> rfl

theorem holdsPointer_complement (cls : PortClass Ty) :
    cls.complement.holdsPointer = cls.holdsPointer := by
  funext member
  cases cls <;> cases member <;> rfl

theorem holdsPointer_of_base {cls parent : PortClass Ty} (derives : cls.base = some parent) :
    parent.holdsPointer = cls.holdsPointer := by
  funext member
  cases cls <;> cases derives <;> cases member <;> rfl

theorem exists_holdsPointer (cls : PortClass Ty) : ∃ member, cls.holdsPointer member = true := by
  cases cls with
  | bidirectionalPortTyped => exact ⟨.outPort, rfl⟩
  | _ => exact ⟨.whole, rfl⟩

variable [DecidableEq Ty]

/-- Ports that connect are built alike. -/
theorem holdsPointer_of_accepts {cls other : PortClass Ty} (accepted : cls.accepts other = true) :
    other.holdsPointer = cls.holdsPointer := by
  rcases accepts_iff.mp accepted with rfl | mixed
  · exact holdsPointer_complement cls
  · rw [← holdsPointer_of_base mixed, holdsPointer_complement]

end PortClass

namespace Connections

variable {Ty Id : Type*} {classOf : Id → PortClass Ty} {mate : Pairing Id}
  {connections : Connections Id}

/-- The connecting pointers between paired objects. -/
def pointers (classOf : Id → PortClass Ty) (mate : Pairing Id) (ptr : PortPtr Id) :
    Option (PortPtr Id) :=
  if (classOf ptr.object).holdsPointer ptr.member then
    (mate ptr.object).map fun peer => ⟨peer, ptr.member.opposite⟩
  else none

/-- The connecting pointers are those of a pairing of objects that are built alike. -/
structure Represents (classOf : Id → PortClass Ty) (mate : Pairing Id)
    (connections : Connections Id) : Prop where
  pointers : connections.connectingPort = pointers classOf mate
  alike : ∀ port peer, mate port = some peer →
    (classOf peer).holdsPointer = (classOf port).holdsPointer

theorem represents_new (classOf : Id → PortClass Ty) :
    Represents classOf (fun _ => none) .new := by
  refine ⟨funext fun ptr => ?_, nofun⟩
  simp [new, Connections.pointers]

namespace Represents

variable (represents : Represents classOf mate connections)

include represents

theorem connectingPort_eq_some {ptr target : PortPtr Id} :
    connections.connectingPort ptr = some target ↔
      (classOf ptr.object).holdsPointer ptr.member = true ∧
        mate ptr.object = some target.object ∧ target.member = ptr.member.opposite := by
  rw [represents.pointers, Connections.pointers]
  split
  next holds =>
    obtain ⟨object, member⟩ := target
    simp [holds, eq_comm]
  next not => simp [not]

theorem connectingPort_of_mate {port peer : Id} (partner : mate port = some peer)
    {member : PortMember} (holds : (classOf port).holdsPointer member = true) :
    connections.connectingPort ⟨port, member⟩ = some ⟨peer, member.opposite⟩ :=
  represents.connectingPort_eq_some.mpr ⟨holds, partner, rfl⟩

end Represents

/-! ## The effect of a call on the pairing -/

variable [DecidableEq Id]

/-- A call that succeeds overwrites the pointers that the two ports hold. -/
theorem connectingPort_join (connections : Connections Id) (cls : PortClass Ty) (this other : Id)
    (ptr : PortPtr Id) :
    (connections.join cls ⟨this, .whole⟩ ⟨other, .whole⟩).connectingPort ptr =
      if cls.holdsPointer ptr.member = true ∧ ptr.object = other then
        some ⟨this, ptr.member.opposite⟩
      else if cls.holdsPointer ptr.member = true ∧ ptr.object = this then
        some ⟨other, ptr.member.opposite⟩
      else connections.connectingPort ptr := by
  obtain ⟨object, member⟩ := ptr
  cases cls with
  | bidirectionalPortTyped =>
      -- the in ports are linked last, in the other direction
      simp only [Connections.join, link, Function.update_apply]
      cases member <;> simp [PortClass.holdsPointer, PortMember.opposite]
      split_ifs with first second <;> simp_all
  | _ =>
      simp only [Connections.join, link, linkContract, Function.update_apply]
      cases member <;> simp [PortClass.holdsPointer, PortMember.opposite]

variable [DecidableEq Ty] {this other : Id}

/-- A call that succeeds pairs its two objects. -/
theorem pointers_join (represents : Represents classOf mate connections)
    (accepted : (classOf this).accepts (classOf other) = true) :
    (connections.join (classOf this) ⟨this, .whole⟩ ⟨other, .whole⟩).connectingPort =
      pointers classOf (mate.pair this other) := by
  have alike := PortClass.holdsPointer_of_accepts accepted
  funext ptr
  rw [connectingPort_join, represents.pointers, pointers, pointers, Pairing.pair_apply]
  by_cases second : ptr.object = other
  · by_cases holds : (classOf this).holdsPointer ptr.member = true
    · simp [second, holds, alike]
    · simp [second, holds, alike]
  · by_cases first : ptr.object = this
    · by_cases holds : (classOf this).holdsPointer ptr.member = true
      · rw [if_neg (fun both => second both.2), if_pos ⟨holds, first⟩, if_neg second, if_pos first,
          first, if_pos holds]
        rfl
      · rw [first, if_neg (fun both => holds both.1), if_neg (fun both => holds both.1),
          if_neg holds, if_neg holds]
    · rw [if_neg (fun both => second both.2), if_neg (fun both => first both.2), if_neg second,
        if_neg first]

theorem Represents.join (represents : Represents classOf mate connections)
    (accepted : (classOf this).accepts (classOf other) = true) :
    Represents classOf (mate.pair this other)
      (connections.join (classOf this) ⟨this, .whole⟩ ⟨other, .whole⟩) := by
  have alike := PortClass.holdsPointer_of_accepts accepted
  refine ⟨pointers_join represents accepted, fun port peer partner => ?_⟩
  rw [Pairing.pair_apply] at partner
  split at partner
  next here => rw [here, alike, Option.some.inj partner]
  next =>
    split at partner
    next here => rw [here, ← Option.some.inj partner, alike]
    next => exact represents.alike port peer partner

end Connections

/-! ## Mutual pointers -/

section Matching

variable {Ty Id : Type*} {classOf : Id → PortClass Ty} {mate : Pairing Id}
  {connections : Connections Id}

/-- The connecting pointers are mutual, and a port that reports to be connected has one peer that
all its pointers lead into, that points back and that reports to be connected. -/
structure Matching (classOf : Id → PortClass Ty) (connections : Connections Id) : Prop where
  symmetric : ∀ port other : PortPtr Id,
    connections.connectingPort port = some other ↔ connections.connectingPort other = some port
  peer : ∀ port, connected classOf connections port = true →
    ∃ peer, connected classOf connections peer = true ∧
      ∀ member target, connections.connectingPort ⟨port, member⟩ = some target →
        target.object = peer ∧ connections.connectingPort target = some ⟨port, member⟩

/-- Neither of two ports is connected to a third one. -/
def Connections.Unattached (connections : Connections Id) (this other : Id) : Prop :=
  ∀ port peer : PortPtr Id, connections.connectingPort port = some peer →
    port.object = this ∨ port.object = other → peer.object = this ∨ peer.object = other

theorem connected_iff (represents : connections.Represents classOf mate) (port : Id) :
    connected classOf connections port = true ↔ (mate port).isSome := by
  rw [connected, represents.pointers]
  split <;> rename_i cls <;> simp [Connections.pointers, cls, PortClass.holdsPointer]

/-- The pointers are mutual if and only if the pairing is. -/
theorem matching_iff (represents : connections.Represents classOf mate) :
    Matching classOf connections ↔ mate.Symmetric := by
  constructor
  · intro matching port peer partner
    obtain ⟨member, holds⟩ := (classOf port).exists_holdsPointer
    have forth := represents.connectingPort_of_mate partner holds
    exact (represents.connectingPort_eq_some.mp ((matching.symmetric _ _).mp forth)).2.1
  · intro symmetric
    have back : ∀ {port other : PortPtr Id}, connections.connectingPort port = some other →
        connections.connectingPort other = some port := by
      intro port other points
      obtain ⟨holds, partner, opposite⟩ := represents.connectingPort_eq_some.mp points
      apply represents.connectingPort_eq_some.mpr
      refine ⟨?_, symmetric _ _ partner, by simp [opposite]⟩
      rw [opposite, represents.alike _ _ partner, PortClass.holdsPointer_opposite, holds]
    refine ⟨fun port other => ⟨back, back⟩, fun port isConnected => ?_⟩
    obtain ⟨peer, partner⟩ :=
      Option.isSome_iff_exists.mp ((connected_iff represents port).mp isConnected)
    refine ⟨peer, ?_, fun member target points => ⟨?_, back points⟩⟩
    · apply (connected_iff represents peer).mpr
      rw [symmetric _ _ partner]
      rfl
    · have same := (represents.connectingPort_eq_some.mp points).2.1
      exact Option.some.inj (same.symm.trans partner)

theorem unattached_iff (represents : connections.Represents classOf mate) (this other : Id) :
    connections.Unattached this other ↔ mate.Free this other := by
  constructor
  · intro unattached port peer partner inside
    obtain ⟨member, holds⟩ := (classOf port).exists_holdsPointer
    exact unattached _ _ (represents.connectingPort_of_mate partner holds) inside
  · intro free port peer points inside
    exact free _ _ (represents.connectingPort_eq_some.mp points).2.1 inside

variable [DecidableEq Ty] [DecidableEq Id]

/-- Every history of connect calls leaves the pointers of a pairing. -/
theorem represents_of_connecting {before after : Connections Id} {call : ConnectCall Id}
    (represented : ∃ mate, before.Represents classOf mate)
    (step : Connecting classOf before call after) : ∃ mate, after.Represents classOf mate := by
  obtain ⟨mate, represents⟩ := represented
  rcases step.cases with ⟨-, rfl⟩ | ⟨other, -, accepted, rfl⟩
  · exact ⟨mate, represents⟩
  · exact ⟨mate.pair call.this other, represents.join accepted⟩

/-- A call that succeeds joins two ports neither of which is connected to a third one. -/
def JoinsUnattached (classOf : Id → PortClass Ty)
    (step : Transition (Connections Id) (ConnectCall Id)) : Prop :=
  ∀ other, step.label.other = some other →
    (classOf step.label.this).accepts (classOf other) = true →
    step.source.Unattached step.label.this other

/-- A call keeps a matching if and only if it does not take a port away from a third one. -/
theorem matching_step_iff {before after : Connections Id} {call : ConnectCall Id}
    (represents : before.Represents classOf mate) (one : Connecting classOf before call after)
    (matching : Matching classOf before) :
    Matching classOf after ↔ JoinsUnattached classOf ⟨before, call, after⟩ := by
  rcases one.cases with ⟨refused, rfl⟩ | ⟨other, named, accepted, rfl⟩
  · refine iff_of_true matching fun other named accepted => ?_
    cases accepted.symm.trans (refused other named)
  · rw [matching_iff (represents.join accepted),
      Pairing.symmetric_pair_iff ((matching_iff represents).mp matching),
      ← unattached_iff represents]
    constructor
    · rintro unattached _ again -
      obtain rfl := Option.some.inj (named.symm.trans again)
      exact unattached
    · exact fun joins => joins other named accepted

/-- Over any number of ports, a history of connect calls leaves a matching after each call if and
only if every call that succeeds joins two ports neither of which is connected to a third one. -/
theorem matching_throughout_iff {connections : Connections Id}
    {steps : List (Transition (Connections Id) (ConnectCall Id))}
    (history : StepPath (Connecting classOf) .new steps connections) :
    (∀ step ∈ steps, Matching classOf step.target) ↔
      ∀ step ∈ steps, JoinsUnattached classOf step := by
  have initially : Matching classOf (.new : Connections Id) :=
    (matching_iff (Connections.represents_new classOf)).mpr Pairing.symmetric_none
  refine history.forall_target_iff ⟨_, Connections.represents_new classOf⟩ initially
    (fun _ _ _ => represents_of_connecting) ?_
  rintro before call after ⟨mate, represents⟩ one matching
  exact matching_step_iff represents one matching

/-- An out port and two in ports for the same payload. -/
def fork : ℕ → PortClass ℕ
  | 0 => .outPort 0
  | _ => .inPort 0

/-- The out port connected to the first in port. -/
def forkJoined : Connections ℕ := Connections.new.link ⟨0, .whole⟩ ⟨1, .whole⟩

theorem connecting_fork : Connecting fork .new ⟨0, some 1⟩ forkJoined := .call rfl

/-- A connection made twice, from either end. -/
theorem matching_throughout_iff_fork :
    ∃ steps connections, StepPath (Connecting fork) .new steps connections ∧
      steps.map Transition.label = [⟨0, some 1⟩, ⟨1, some 0⟩] ∧
      ((∀ step ∈ steps, Matching fork step.target) ↔
        ∀ step ∈ steps, JoinsUnattached fork step) := by
  have again : Connecting fork forkJoined ⟨1, some 0⟩
      (forkJoined.link ⟨1, .whole⟩ ⟨0, .whole⟩) := .call rfl
  have history := StepPath.snoc (.snoc .nil connecting_fork) again
  exact ⟨_, _, history, rfl, matching_throughout_iff history⟩

/-- After a second connection the first in port still reports to be connected to the out port. -/
theorem not_matching_fork :
    ∃ steps connections, StepPath (Connecting fork) .new steps connections ∧
      steps.map Transition.label = [⟨0, some 1⟩, ⟨0, some 2⟩] ∧
      connected fork connections 1 = true ∧
      connections.connectingPort ⟨1, .whole⟩ = some ⟨0, .whole⟩ ∧
      connections.connectingPort ⟨0, .whole⟩ = some ⟨2, .whole⟩ ∧
      ¬ Matching fork connections := by
  have elsewhere : Connecting fork forkJoined ⟨0, some 2⟩
      (forkJoined.link ⟨0, .whole⟩ ⟨2, .whole⟩) := .call rfl
  have history := StepPath.snoc (.snoc .nil connecting_fork) elsewhere
  refine ⟨_, _, history, rfl, rfl, rfl, rfl, fun matching => ?_⟩
  have back := (matching.symmetric ⟨1, .whole⟩ ⟨0, .whole⟩).mp rfl
  cases back

end Matching
end Simo
