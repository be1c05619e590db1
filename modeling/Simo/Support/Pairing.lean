import Mathlib.Logic.Function.Basic

/-!
# Pairings

A pairing gives some elements of a type a partner.  It is symmetric when every partner has the
element as its own partner.  Pairing two elements overwrites what they had before, which leaves the
pairing symmetric exactly when neither of them had a partner elsewhere.
-/

/-- Partial functions that give an element its partner. -/
abbrev Pairing (α : Type*) := α → Option α

namespace Pairing

variable {α : Type*} {mate : Pairing α} {a b : α}

def Symmetric (mate : Pairing α) : Prop := ∀ a b, mate a = some b → mate b = some a

/-- Neither of two elements has a partner besides these two. -/
def Free (mate : Pairing α) (a b : α) : Prop :=
  ∀ x y, mate x = some y → x = a ∨ x = b → y = a ∨ y = b

theorem symmetric_none : Symmetric fun _ : α => none := nofun

variable [DecidableEq α]

/-- Make two elements partners of each other. -/
def pair (mate : Pairing α) (a b : α) : Pairing α :=
  Function.update (Function.update mate a (some b)) b (some a)

theorem pair_apply (x : α) :
    mate.pair a b x = if x = b then some a else if x = a then some b else mate x := by
  rw [pair, Function.update_apply, Function.update_apply]

theorem pair_apply_of_ne {x : α} (first : x ≠ a) (second : x ≠ b) :
    mate.pair a b x = mate x := by
  rw [pair_apply, if_neg second, if_neg first]

/-- Pairs without a common element can be made in either order. -/
theorem pair_pair_comm (mate : Pairing α) {c d : α} (first : a ≠ c) (second : a ≠ d) (third : b ≠ c)
    (fourth : b ≠ d) : (mate.pair a b).pair c d = (mate.pair c d).pair a b := by
  funext x
  simp only [pair_apply]
  by_cases inside : x = a ∨ x = b
  · have outside : x ≠ c ∧ x ≠ d := by
      rcases inside with rfl | rfl
      · exact ⟨first, second⟩
      · exact ⟨third, fourth⟩
    rw [if_neg outside.2, if_neg outside.1, if_neg outside.2, if_neg outside.1]
  · obtain ⟨notFirst, notSecond⟩ := not_or.mp inside
    rw [if_neg notFirst, if_neg notSecond, if_neg notFirst, if_neg notSecond]

/-- The two elements have each other afterwards. -/
theorem pair_apply_of_mem (mate : Pairing α) {x : α} (member : x = a ∨ x = b) :
    ∃ y, (y = a ∨ y = b) ∧ mate.pair a b x = some y ∧ mate.pair a b y = some x := by
  rcases eq_or_ne a b with rfl | apart
  · obtain rfl : x = a := member.elim id id
    exact ⟨x, .inl rfl, by simp [pair_apply], by simp [pair_apply]⟩
  · rcases member with rfl | rfl
    · exact ⟨b, .inr rfl, by simp [pair_apply, apart], by simp [pair_apply]⟩
    · exact ⟨a, .inl rfl, by simp [pair_apply], by simp [pair_apply, apart]⟩

/-- Pairing two elements keeps a pairing symmetric if and only if neither had a partner besides
these two. -/
theorem symmetric_pair_iff (symmetric : mate.Symmetric) :
    (mate.pair a b).Symmetric ↔ mate.Free a b := by
  constructor
  · intro still x y partner member
    by_contra outside
    obtain ⟨first, second⟩ := not_or.mp outside
    have back : mate.pair a b y = some x :=
      (pair_apply_of_ne first second).trans (symmetric x y partner)
    obtain ⟨z, inside, forth, -⟩ := pair_apply_of_mem mate member
    rw [still y x back] at forth
    obtain rfl := Option.some.inj forth
    exact outside inside
  · intro free x y partner
    by_cases member : x = a ∨ x = b
    · obtain ⟨z, -, forth, back⟩ := pair_apply_of_mem mate member
      obtain rfl := Option.some.inj (forth.symm.trans partner)
      exact back
    · obtain ⟨first, second⟩ := not_or.mp member
      rw [pair_apply_of_ne first second] at partner
      have back := symmetric x y partner
      -- a partner among the two would have its own partner outside
      have outside : ¬ (y = a ∨ y = b) := fun inside => member (free y x back inside)
      obtain ⟨third, fourth⟩ := not_or.mp outside
      rw [pair_apply_of_ne third fourth]
      exact back

/-! ## Pairs made one after the other -/

section Several

variable {pairs others : List (α × α)}

/-- Make the elements of each pair partners, in the order of the list. -/
def pairAll (mate : Pairing α) (pairs : List (α × α)) : Pairing α :=
  pairs.foldl (fun mate ends => mate.pair ends.1 ends.2) mate

/-- Two elements are the ends of some pair. -/
def Joined (pairs : List (α × α)) (a b : α) : Prop := (a, b) ∈ pairs ∨ (b, a) ∈ pairs

/-- No element is in pairs with two different ones. -/
def Exclusive (pairs : List (α × α)) : Prop := ∀ a b c, Joined pairs a b → Joined pairs a c → b = c

omit [DecidableEq α] in
theorem joined_comm : Joined pairs a b ↔ Joined pairs b a := or_comm

omit [DecidableEq α] in
theorem joined_of_perm (perm : pairs.Perm others) : Joined pairs a b ↔ Joined others a b := by
  rw [Joined, Joined, perm.mem_iff, perm.mem_iff]

omit [DecidableEq α] in
theorem exclusive_iff_of_joined (same : ∀ a b, Joined pairs a b ↔ Joined others a b) :
    Exclusive pairs ↔ Exclusive others := by
  simp only [Exclusive, same]

omit [DecidableEq α] in
/-- Exclusive pairs that have a common element are made of the same two. -/
theorem Exclusive.apart_or_same (exclusive : Exclusive pairs) {c d : α} (first : Joined pairs a b)
    (second : Joined pairs c d) :
    (a ≠ c ∧ a ≠ d ∧ b ≠ c ∧ b ≠ d) ∨ c = a ∧ d = b ∨ c = b ∧ d = a := by
  by_cases same : a = c
  · subst same
    exact .inr (.inl ⟨rfl, exclusive _ _ _ second first⟩)
  by_cases crossed : a = d
  · subst crossed
    exact .inr (.inr ⟨exclusive _ _ _ (joined_comm.mp second) first, rfl⟩)
  refine .inl ⟨same, crossed, ?_, ?_⟩
  · rintro rfl
    exact crossed (exclusive _ _ _ (joined_comm.mp first) second)
  · rintro rfl
    exact same (exclusive _ _ _ (joined_comm.mp first) (joined_comm.mp second))

omit [DecidableEq α] in
theorem joined_cons {ends : α × α} {x y : α} :
    Joined (ends :: pairs) x y ↔
      x = ends.1 ∧ y = ends.2 ∨ x = ends.2 ∧ y = ends.1 ∨ Joined pairs x y := by
  obtain ⟨a, b⟩ := ends
  simp only [Joined, List.mem_cons, Prod.mk.injEq]
  grind

/-- An element that no pair names keeps its partner. -/
theorem pairAll_apply_of_not_joined {x : α} (unnamed : ∀ y, ¬ Joined pairs x y) :
    mate.pairAll pairs x = mate x := by
  induction pairs generalizing mate with
  | nil => rfl
  | cons ends pairs induction =>
      simp only [joined_cons, not_or, not_and] at unnamed
      refine (induction fun y => (unnamed y).2.2).trans (pair_apply_of_ne ?_ ?_)
      · exact fun same => (unnamed ends.2).1 same rfl
      · exact fun same => (unnamed ends.1).2.1 same rfl

/-- An element that some pair names ends up with a partner from one of its pairs. -/
theorem exists_pairAll_apply {x : α} (named : ∃ y, Joined pairs x y) :
    ∃ y, Joined pairs x y ∧ mate.pairAll pairs x = some y := by
  induction pairs generalizing mate with
  | nil => simp [Joined] at named
  | cons ends pairs induction =>
      by_cases later : ∃ y, Joined pairs x y
      · obtain ⟨y, joined, partner⟩ := @induction (mate.pair ends.1 ends.2) later
        exact ⟨y, joined_cons.mpr (.inr (.inr joined)), partner⟩
      · -- the first pair is the last one that names the element
        obtain ⟨y, here⟩ := named
        have kept : (mate.pair ends.1 ends.2).pairAll pairs x = mate.pair ends.1 ends.2 x :=
          pairAll_apply_of_not_joined (not_exists.mp later)
        rw [pair_apply] at kept
        rcases joined_cons.mp here with ⟨first, -⟩ | ⟨second, -⟩ | joined
        · by_cases second : x = ends.2
          · exact ⟨ends.1, joined_cons.mpr (.inr (.inl ⟨second, rfl⟩)),
              kept.trans (if_pos second)⟩
          · rw [if_neg second, if_pos first] at kept
            exact ⟨ends.2, joined_cons.mpr (.inl ⟨first, rfl⟩), kept⟩
        · exact ⟨ends.1, joined_cons.mpr (.inr (.inl ⟨second, rfl⟩)), kept.trans (if_pos second)⟩
        · exact (later ⟨y, joined⟩).elim

/-- Every pair is in place at the end if and only if no element is in pairs with two others. -/
theorem forall_pairAll_iff_exclusive (mate : Pairing α) (pairs : List (α × α)) :
    (∀ a b, Joined pairs a b → mate.pairAll pairs a = some b) ↔ Exclusive pairs := by
  constructor
  · intro placed a b c first second
    exact Option.some.inj ((placed a b first).symm.trans (placed a c second))
  · intro exclusive a b joined
    obtain ⟨c, other, partner⟩ : ∃ c, Joined pairs a c ∧ mate.pairAll pairs a = some c :=
      exists_pairAll_apply ⟨b, joined⟩
    rw [partner, exclusive a b c joined other]

theorem pairAll_eq_some_iff (exclusive : Exclusive pairs) :
    mate.pairAll pairs a = some b ↔
      Joined pairs a b ∨ (∀ c, ¬ Joined pairs a c) ∧ mate a = some b := by
  have placed := (forall_pairAll_iff_exclusive mate pairs).mpr exclusive
  constructor
  · intro partner
    by_cases named : ∃ c, Joined pairs a c
    · obtain ⟨c, joined⟩ := named
      obtain rfl := Option.some.inj (partner.symm.trans (placed a c joined))
      exact .inl joined
    · have unnamed := not_exists.mp named
      exact .inr ⟨unnamed, (pairAll_apply_of_not_joined unnamed).symm.trans partner⟩
  · rintro (joined | ⟨unnamed, partner⟩)
    · exact placed a b joined
    · exact (pairAll_apply_of_not_joined unnamed).trans partner

/-- Exclusive pairs leave a symmetric pairing symmetric if and only if they take no element away
from one that they do not name. -/
theorem symmetric_pairAll_iff (symmetric : mate.Symmetric) (exclusive : Exclusive pairs) :
    (mate.pairAll pairs).Symmetric ↔
      ∀ a b c, Joined pairs a b → mate a = some c → ∃ d, Joined pairs c d := by
  simp only [Symmetric, pairAll_eq_some_iff exclusive]
  constructor
  · intro still a b c joined partner
    by_contra unnamed
    -- the old partner still has the element, which has another one
    rcases still c a (.inr ⟨not_exists.mp unnamed, symmetric a c partner⟩) with back | ⟨free, -⟩
    · exact unnamed ⟨a, joined_comm.mp back⟩
    · exact free b joined
  · rintro taken a b (joined | ⟨unnamed, partner⟩)
    · exact .inl (joined_comm.mp joined)
    · refine .inr ⟨fun c joined => ?_, symmetric a b partner⟩
      obtain ⟨d, named⟩ := taken b c a joined (symmetric a b partner)
      exact unnamed d named

end Several

end Pairing
