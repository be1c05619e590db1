import Simo.Port.Port

/-!
# The direction of a connection

A configuration names the two endpoints of a connection, and the port named first initiates.  A
contract port accepts only a contract port, while a plain callback port also accepts a contract
port, since that is a plain one too.  For such a mixed pair the order of the endpoints matters, and
for no other.
-/

namespace Simo

namespace PortClass

variable {Ty : Type*} {first second : PortClass Ty}

/-- A plain callback port, and a contract port of the complementary direction for the same payload
and return type: the second class derives from the one that the first asks for. -/
def Mixed (first second : PortClass Ty) : Prop := second.base = some first.complement

instance [DecidableEq Ty] (first second : PortClass Ty) : Decidable (first.Mixed second) :=
  inferInstanceAs (Decidable (_ = _))

@[simp]
theorem complement_complement (cls : PortClass Ty) : cls.complement.complement = cls := by
  cases cls <;> rfl

theorem base_complement (cls : PortClass Ty) : cls.complement.base = cls.base.map complement := by
  cases cls <;> rfl

/-- There are no two levels of classes below `Port`. -/
theorem base_of_base {cls parent : PortClass Ty} (derives : cls.base = some parent) :
    parent.base = none := by
  cases cls <;> cases derives <;> rfl

theorem Mixed.not_complement (mixed : first.Mixed second) : second ≠ first.complement := by
  intro same
  have nothing := base_of_base mixed
  rw [← same, mixed] at nothing
  cases nothing

theorem Mixed.not_mixed (mixed : first.Mixed second) : ¬ second.Mixed first := by
  intro converse
  have nothing := base_of_base mixed
  rw [base_complement, converse] at nothing
  cases nothing

theorem eq_complement_comm : second = first.complement ↔ first = second.complement := by
  constructor <;> (rintro rfl; simp)

variable [DecidableEq Ty]

theorem accepts_iff : first.accepts second = true ↔
    second = first.complement ∨ first.Mixed second := by
  simp [accepts, derives, Mixed]

/-- Two classes accept each other alike unless they are mixed. -/
theorem accepts_comm_iff :
    (first.accepts second = true ↔ second.accepts first = true) ↔
      ¬ first.Mixed second ∧ ¬ second.Mixed first := by
  rw [accepts_iff, accepts_iff, eq_complement_comm]
  constructor
  · intro alike
    refine ⟨fun mixed => ?_, fun mixed => ?_⟩
    · rcases alike.mp (.inr mixed) with complementary | converse
      · exact mixed.not_complement (eq_complement_comm.mpr complementary)
      · exact mixed.not_mixed converse
    · rcases alike.mpr (.inr mixed) with complementary | converse
      · exact mixed.not_complement complementary
      · exact mixed.not_mixed converse
  · rintro ⟨notMixed, notMixed'⟩
    exact or_congr_right (iff_of_false notMixed notMixed')

/-- Classes that accept each other are complementary. -/
theorem eq_complement_of_accepts (accepted : first.accepts second = true)
    (accepted' : second.accepts first = true) : second = first.complement := by
  rcases accepts_iff.mp accepted with complementary | mixed
  · exact complementary
  · exact absurd mixed (accepts_comm_iff.mp (iff_of_true accepted accepted')).1

end PortClass

namespace Connections

variable {Id : Type*} [DecidableEq Id] (connections : Connections Id)

theorem pointAtEachOther_comm (pointers : PortPtr Id → Option (PortPtr Id))
    (port other : PortPtr Id) :
    Function.update (Function.update pointers port (some other)) other (some port) =
      Function.update (Function.update pointers other (some port)) port (some other) := by
  rcases eq_or_ne port other with rfl | apart
  · rfl
  · exact Function.update_comm apart _ _ _

theorem link_comm (port other : PortPtr Id) : connections.link port other =
    connections.link other port := by
  rw [link, link, pointAtEachOther_comm]

theorem linkContract_comm (port other : PortPtr Id) : connections.linkContract port other =
    connections.linkContract other port := by
  rw [linkContract, linkContract, pointAtEachOther_comm]

/-- Links between different ports can be made in either order. -/
theorem link_link_comm {port other port' other' : PortPtr Id} (first : port ≠ port')
    (second : port ≠ other') (third : other ≠ port') (fourth : other ≠ other') :
    (connections.link port other).link port' other' =
      (connections.link port' other').link port other := by
  refine Connections.ext (funext fun ptr => ?_) rfl
  simp only [link, Function.update_apply]
  grind

/-- Both ends of a connection make the same one. -/
theorem join_comm {Ty : Type*} (cls : PortClass Ty) (this other : PortPtr Id) :
    connections.join cls this other = connections.join cls.complement other this := by
  cases cls with
  | outPort | inPort | callbackOutPort | callbackInPort =>
      exact connections.link_comm this other
  | callbackContractOutPort | callbackContractInPort =>
      simp only [join, PortClass.complement]
      rw [connections.linkContract_comm, link_comm]
  | bidirectionalPortTyped =>
      simp only [join, PortClass.complement]
      by_cases same : this.object = other.object
      · rw [same]
      · rw [connections.link_comm ⟨other.object, .outPort⟩, link_comm _ ⟨other.object, .inPort⟩]
        apply link_link_comm
        · simp
        · simp [same]
        · simp [Ne.symm same]
        · simp

end Connections

section Symmetry

variable {Ty Id : Type*} [DecidableEq Ty] [DecidableEq Id]

/-- It does not matter which of two ports initiates: both calls return, they succeed alike, and when
they succeed they leave the same pointers. -/
def ConnectSymmetric (classOf : Id → PortClass Ty) (connections : Connections Id)
    (this other : PortPtr Id) : Prop :=
  ∃ result result', connect classOf connections this (some other) = some result ∧
    connect classOf connections other (some this) = some result' ∧
    (result.1 = true ↔ result'.1 = true) ∧
    (result.1 = true → result'.1 = true → result.2 = result'.2)

variable {classOf : Id → PortClass Ty} {this other : PortPtr Id} {cls otherCls : PortClass Ty}

/-- It does not matter which of two ports initiates if and only if they are not a plain callback
port and a contract port of the complementary direction. -/
theorem connectSymmetric_iff (connections : Connections Id)
    (thisType : typeOf classOf this = some cls) (otherType : typeOf classOf other = some otherCls) :
    ConnectSymmetric classOf connections this other ↔
      ¬ cls.Mixed otherCls ∧ ¬ otherCls.Mixed cls := by
  rw [← PortClass.accepts_comm_iff]
  have forth := connect_eq connections thisType otherType
  have back := connect_eq connections otherType thisType
  constructor
  · rintro ⟨result, result', first, second, alike, -⟩
    cases forth.symm.trans first
    cases back.symm.trans second
    by_cases accepted : cls.accepts otherCls = true <;>
      by_cases accepted' : otherCls.accepts cls = true <;> simp_all
  · intro alike
    refine ⟨_, _, forth, back, ?_⟩
    by_cases accepted : cls.accepts otherCls = true
    · have accepted' := alike.mp accepted
      have complementary := PortClass.eq_complement_of_accepts accepted accepted'
      rw [if_pos accepted, if_pos accepted', complementary]
      exact ⟨Iff.rfl, fun _ _ => connections.join_comm cls this other⟩
    · have refused := mt alike.mpr accepted
      rw [if_neg accepted, if_neg refused]
      exact ⟨Iff.rfl, fun _ _ => rfl⟩

/-- Two ports with complementary contracts. -/
def contractPair : Bool → PortClass Nat
  | false => .callbackContractOutPort 0 1 2
  | true => .callbackContractInPort 0 1 2

/-- A plain port that sends, and a contract port that receives. -/
def mixedPair : Bool → PortClass Nat
  | false => .callbackOutPort 0 1
  | true => .callbackContractInPort 0 1 2

theorem connectSymmetric_contracts :
    ConnectSymmetric contractPair .new ⟨false, .whole⟩ ⟨true, .whole⟩ :=
  (connectSymmetric_iff .new rfl rfl).mpr ⟨by decide, by decide⟩

/-- The plain port accepts the contract port, which refuses it. -/
theorem not_connectSymmetric_mixed :
    ¬ ConnectSymmetric mixedPair .new ⟨false, .whole⟩ ⟨true, .whole⟩ := by
  rintro ⟨result, result', first, second, alike, -⟩
  cases first
  cases second
  exact absurd (alike.mp rfl) (by decide)

end Symmetry

end Simo
