import Simo.Parameter.ParameterTrie

/-!
# The parameters of a module

`Parameters` is a named trie of parameters; `check` validates all of them.  The library copies it
in three ways, and every one of them clones each parameter.  A clone keeps type and value but is
always set and has no validator, so a copy is faithful exactly when nothing was invalid.
-/

namespace Simo

/-- A set of parameters for a module. -/
structure Parameters {Ty : Type*} (Val : Ty → Type*) where
  trie : ParameterTrie Val
  /-- Name given to the module. -/
  name_ : List Char

namespace Parameters

variable {Ty : Type*} {Val : Ty → Type*}

/-- The default check: every parameter validates, and validators read the parameters of the set. -/
def check (parameters : Parameters Val) : Bool :=
  parameters.trie.all (Parameter.validate parameters.trie.readings)

/-- The parameter of a type and name. -/
def get [DecidableEq Ty] (parameters : Parameters Val) (type : Ty) (name : List Char) :
    Option (ParameterTyped Val type) :=
  parameters.trie.findTyped type name

/-- The parameters below a name, if there is a node for it. -/
def getSubtree (parameters : Parameters Val) (name : List Char) : Option (Parameters Val) :=
  (parameters.trie.getSubtrie name).map fun subtrie =>
    { trie := ParameterTrie.assign .empty subtrie, name_ := name }

/-- The implicit copy constructor. -/
def copy (parameters : Parameters Val) : Parameters Val :=
  { trie := parameters.trie.copy, name_ := parameters.name_ }

end Parameters

namespace ParameterTrie

variable {Ty : Type*} {Val : Ty → Type*} {trie copied : ParameterTrie Val}

/-- The ways of copying a trie. -/
inductive CopyOf (trie : ParameterTrie Val) : ParameterTrie Val → Prop
  | copyConstructor : CopyOf trie trie.copy
  | parameters {parameters : Parameters Val} (source : parameters.trie = trie) :
      CopyOf trie parameters.copy.trie
  | subtree {parameters subtree : Parameters Val} (source : parameters.trie = trie)
      (found : parameters.getSubtree [] = some subtree) : CopyOf trie subtree.trie

theorem CopyOf.eq_copy (copyOf : CopyOf trie copied) : copied = trie.copy := by
  cases copyOf with
  | copyConstructor => rfl
  | parameters source => rw [← source]; rfl
  | subtree source found =>
      rw [Parameters.getSubtree, getSubtrie_nil, Option.map_some, source] at found
      rw [← Option.some.inj found]
      rfl

/-- The copy has the same names, with parameters that agree, and checks alike. -/
structure Faithful (copied trie : ParameterTrie Val) : Prop where
  find : ∀ name, Option.Rel (Parameter.Agrees copied.readings trie.readings) (copied.find name)
    (trie.find name)
  check : copied.all (Parameter.validate copied.readings) =
    trie.all (Parameter.validate trie.readings)

/-- A copy of a parameter set says and accepts the same in exactly those cases in which every
parameter of the original validates: none is unset and none is rejected by its validator. -/
theorem faithful_iff (built : Built trie) (copyOf : CopyOf trie copied) :
    Faithful copied trie ↔ trie.all (Parameter.validate trie.readings) = true := by
  rw [copyOf.eq_copy]
  have isNamed := built.named
  constructor
  · intro faithful
    rw [isNamed.all_iff]
    intro name parameter found
    have agrees := faithful.find name
    rw [find_copy isNamed.wellFormed, found] at agrees
    cases agrees with
    | some agrees => exact (Parameter.clone_agrees_iff _ parameter).mp agrees
  · intro valid
    refine ⟨fun name => ?_, ?_⟩
    · rw [find_copy isNamed.wellFormed]
      cases found : trie.find name with
      | none => exact .none
      | some parameter =>
          apply Option.Rel.some
          exact (Parameter.clone_agrees_iff _ parameter).mpr
            ((isNamed.all_iff _).mp valid name parameter found)
    · rw [valid, isNamed.copy.all_iff]
      intro name parameter found
      rw [find_copy isNamed.wellFormed, Option.map_eq_some_iff] at found
      obtain ⟨original, -, rfl⟩ := found
      rfl

/-- The trie of a module that requires `a/b` and has not been given it. -/
def missing : ParameterTrie fun _ : Unit => ℕ := addUnset .empty ['a', '/', 'b'] ()

theorem built_missing : Built missing := .addUnset _ _ .empty

theorem faithful_iff_missing :
    Faithful (Parameters.copy ⟨missing, []⟩).trie missing ↔
      missing.all (Parameter.validate missing.readings) = true :=
  faithful_iff built_missing (.parameters rfl)

/-- The copy of an unset parameter is set and validates. -/
theorem copy_validates_missing :
    Built missing ∧ CopyOf missing missing.copy ∧
      missing.all (Parameter.validate missing.readings) = false ∧
      missing.copy.all (Parameter.validate missing.copy.readings) = true ∧
      ¬ Faithful missing.copy missing := by
  have built : missing =
      .node none [(['a'], .node none [(['b'], .node (some ⟨(), .unset⟩) [])])] := by
    rw [missing, addUnset, addGeneric_eq]
    rfl
  have rejects : missing.all (Parameter.validate missing.readings) = false := by
    generalize missing.readings = readings
    rw [built]
    rfl
  have accepts : missing.copy.all (Parameter.validate missing.copy.readings) = true := by
    generalize missing.copy.readings = readings
    rw [built]
    rfl
  refine ⟨built_missing, .copyConstructor, rejects, accepts, fun faithful => ?_⟩
  have same := faithful.check
  rw [rejects, accepts] at same
  cases same

end ParameterTrie
end Simo
