import Simo.Parameter.Parameter
import Simo.Support.PathTrie
import Simo.Support.Pieces

/-!
# Tries of parameters

A `ParameterTrie` is a trie whose keys are the pieces of a name between `/`.  The operations walk
the name piece by piece; each of them is the operation of `Trie` at the path `components name`.
-/

namespace Simo

open Pieces

/-- Separator of the pieces of a name. -/
def parameterNodeSeparator : Char := '/'

/-- Parameters stored by name. -/
abbrev ParameterTrie {Ty : Type*} (Val : Ty → Type*) := Trie (List Char) (Parameter Val)

namespace ParameterTrie

variable {Ty : Type*} {Val : Ty → Type*}

/-- The pieces of a name. -/
def components (name : List Char) : List (List Char) := pieces parameterNodeSeparator name

/-- The first piece of a name and the rest. -/
def splitStringView (name : List Char) : List Char × List Char := cut parameterNodeSeparator name

theorem length_splitStringView_lt {name : List Char} (nonempty : name ≠ []) :
    (splitStringView name).2.length < name.length :=
  length_cut_lt nonempty

theorem components_of_ne_nil {name : List Char} (nonempty : name ≠ []) :
    components name = (splitStringView name).1 :: components (splitStringView name).2 :=
  pieces_of_ne_nil nonempty

def find (trie : ParameterTrie Val) (name : List Char) : Option (Parameter Val) :=
  if name = [] then trie.value
  else
    match Trie.child (splitStringView name).1 trie.children with
    | none => none
    | some child => find child (splitStringView name).2
termination_by name.length
decreasing_by exact length_splitStringView_lt ‹_›

/-- The parameter under a name if it has the given type. -/
def findTyped [DecidableEq Ty] (trie : ParameterTrie Val) (type : Ty) (name : List Char) :
    Option (ParameterTyped Val type) :=
  match trie.find name with
  | none => none
  | some parameter =>
      if same : parameter.type = type then some (same ▸ parameter.typed) else none

/-- What validators read of the parameters of a trie. -/
def readings (trie : ParameterTrie Val) : Readings Val := fun name =>
  (trie.find name).map Parameter.reading

def getSubtrie (trie : ParameterTrie Val) (name : List Char) : Option (ParameterTrie Val) :=
  if name = [] then some trie
  else
    match Trie.child (splitStringView name).1 trie.children with
    | none => none
    | some child => getSubtrie child (splitStringView name).2
termination_by name.length
decreasing_by exact length_splitStringView_lt ‹_›

/-- Store a parameter under a name; nodes on the way are created. -/
def addGeneric (trie : ParameterTrie Val) (name : List Char) (parameter : Parameter Val) :
    ParameterTrie Val :=
  if name = [] then .node (some parameter) trie.children
  else
    let child := (Trie.child (splitStringView name).1 trie.children).getD .empty
    .node trie.value (Trie.setChild (splitStringView name).1
      (addGeneric child (splitStringView name).2 parameter) trie.children)
termination_by name.length
decreasing_by exact length_splitStringView_lt ‹_›

/-- Add a parameter with a value. -/
def add (trie : ParameterTrie Val) (name : List Char) (type : Ty) (value : Val type) :
    ParameterTrie Val :=
  trie.addGeneric name ⟨type, (ParameterTyped.ofValue value).set (.hasValue true)⟩

/-- Add a parameter without a value. -/
def addUnset (trie : ParameterTrie Val) (name : List Char) (type : Ty) [Inhabited (Val type)] :
    ParameterTrie Val :=
  trie.addGeneric name ⟨type, ParameterTyped.unset.set (.hasValue false)⟩

/-- `operator=`: write clones of the other trie's parameters over this one. -/
def assign (trie other : ParameterTrie Val) : ParameterTrie Val :=
  other.overwrite Parameter.clone trie

/-- The copy constructor. -/
def copy (other : ParameterTrie Val) : ParameterTrie Val := assign .empty other

/-! ## The operations on paths -/

theorem find_eq (trie : ParameterTrie Val) (name : List Char) :
    trie.find name = trie.lookup (components name) := by
  induction name using (measure List.length).wf.induction generalizing trie with
  | _ name induction =>
      rw [find]
      split
      next empty => rw [empty]; rfl
      next nonempty =>
        rw [components_of_ne_nil nonempty, Trie.lookup_cons]
        cases Trie.child (splitStringView name).1 trie.children with
        | none => rfl
        | some child => exact induction _ (length_splitStringView_lt nonempty) child

theorem addGeneric_eq (trie : ParameterTrie Val) (name : List Char) (parameter : Parameter Val) :
    trie.addGeneric name parameter = trie.alter (fun _ => some parameter) (components name) := by
  induction name using (measure List.length).wf.induction generalizing trie with
  | _ name induction =>
      rw [addGeneric]
      split
      next empty => rw [empty]; rfl
      next nonempty =>
        rw [components_of_ne_nil nonempty, Trie.alter,
          ← induction _ (length_splitStringView_lt nonempty)]

theorem getSubtrie_eq (trie : ParameterTrie Val) (name : List Char) :
    trie.getSubtrie name = trie.subtrie (components name) := by
  induction name using (measure List.length).wf.induction generalizing trie with
  | _ name induction =>
      rw [getSubtrie]
      split
      next empty => rw [empty]; rfl
      next nonempty =>
        rw [components_of_ne_nil nonempty, Trie.subtrie]
        cases Trie.child (splitStringView name).1 trie.children with
        | none => rfl
        | some child => exact induction _ (length_splitStringView_lt nonempty) child

@[simp]
theorem getSubtrie_nil (trie : ParameterTrie Val) : trie.getSubtrie [] = some trie := by
  rw [getSubtrie, if_pos rfl]

/-! ## Tries that can be built -/

/-- Tries built with `add`, `add_unset` and the setters of stored parameters. -/
inductive Built : ParameterTrie Val → Prop
  | empty : Built .empty
  | add {trie : ParameterTrie Val} (name : List Char) (type : Ty) (value : Val type) :
      Built trie → Built (trie.add name type value)
  | addUnset {trie : ParameterTrie Val} (name : List Char) (type : Ty) [Inhabited (Val type)] :
      Built trie → Built (trie.addUnset name type)
  | set {trie : ParameterTrie Val} {name : List Char} {type : Ty}
      {typed : ParameterTyped Val type} (setter : ParameterTyped.Setter Val type) :
      Built trie → trie.find name = some ⟨type, typed⟩ →
      Built (trie.addGeneric name ⟨type, typed.set setter⟩)

/-- Every parameter of the trie is stored under a name, and every node has distinct keys. -/
structure Named (trie : ParameterTrie Val) : Prop where
  wellFormed : trie.WellFormed
  named : ∀ path parameter, trie.lookup path = some parameter → ∃ name, components name = path

theorem Named.addGeneric {trie : ParameterTrie Val} (isNamed : trie.Named) (name : List Char)
    (parameter : Parameter Val) : (trie.addGeneric name parameter).Named := by
  rw [addGeneric_eq]
  refine ⟨isNamed.wellFormed.alter _ _, fun path stored found => ?_⟩
  rw [Trie.lookup_alter] at found
  split at found
  next here => exact ⟨name, here.symm⟩
  next => exact isNamed.named path stored found

theorem Built.named {trie : ParameterTrie Val} (built : Built trie) : trie.Named := by
  induction built with
  | empty => exact ⟨Trie.wellFormed_empty, by simp⟩
  | add name type value _ induction => exact induction.addGeneric name _
  | addUnset name type _ induction => exact induction.addGeneric name _
  | set setter _ _ induction => exact induction.addGeneric _ _

/-- `all` visits the parameters that `find` finds. -/
theorem Named.all_iff {trie : ParameterTrie Val} (isNamed : trie.Named)
    (p : Parameter Val → Bool) :
    trie.all p = true ↔ ∀ name parameter, trie.find name = some parameter → p parameter = true := by
  rw [Trie.all_iff isNamed.wellFormed]
  constructor
  · intro throughout name parameter found
    exact throughout _ parameter (find_eq trie name ▸ found)
  · intro throughout path parameter found
    obtain ⟨name, rfl⟩ := isNamed.named path parameter found
    exact throughout name parameter (find_eq trie name ▸ found)

/-! ## Copies -/

theorem lookup_copy {trie : ParameterTrie Val} (wellFormed : trie.WellFormed)
    (path : List (List Char)) : trie.copy.lookup path = (trie.lookup path).map Parameter.clone := by
  rw [copy, assign, Trie.lookup_overwrite _ wellFormed, Trie.lookup_empty, Option.or_none]

/-- The copy stores clones under the same names. -/
theorem find_copy {trie : ParameterTrie Val} (wellFormed : trie.WellFormed) (name : List Char) :
    trie.copy.find name = (trie.find name).map Parameter.clone := by
  rw [find_eq, find_eq, lookup_copy wellFormed]

theorem Named.copy {trie : ParameterTrie Val} (isNamed : trie.Named) : trie.copy.Named := by
  refine ⟨isNamed.wellFormed.overwrite Trie.wellFormed_empty, fun path parameter found => ?_⟩
  rw [lookup_copy isNamed.wellFormed, Option.map_eq_some_iff] at found
  obtain ⟨original, stored, -⟩ := found
  exact isNamed.named path original stored

end ParameterTrie
end Simo
