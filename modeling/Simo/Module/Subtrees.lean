import Simo.Module.Parameters

/-!
# Parameters of nested modules

A module that has children can give each of them the subtree of its parameters under a name, and the
children can do the same with theirs.  The subtrees have clones of the parameters, and there is one
for a name if a parameter has been added below it.
-/

namespace Simo
namespace Parameters

open ParameterTrie

variable {Ty : Type*} {Val : Ty → Type*}

/-- Take a subtree of the parameters, a subtree of that one, and so on. -/
def descend (parameters : Parameters Val) : List (List Char) → Option (Parameters Val)
  | [] => some parameters
  | name :: names => (parameters.getSubtree name).bind fun subtree => subtree.descend names

/-- The pieces of some names. -/
def joined (names : List (List Char)) : List (List Char) := names.flatMap components

section Descend

variable {parameters subtree : Parameters Val} {name : List Char} {names : List (List Char)}

theorem subtrie_eq_none (absent : parameters.getSubtree name = none) :
    parameters.trie.subtrie (components name) = none := by
  rwa [getSubtree, Option.map_eq_none_iff, getSubtrie_eq] at absent

/-- A subtree has clones of what is below its name. -/
theorem lookup_getSubtree (wellFormed : parameters.trie.WellFormed)
    (found : parameters.getSubtree name = some subtree) :
    subtree.name_ = name ∧ subtree.trie.WellFormed ∧
      (∀ path, subtree.trie.lookup path =
        (parameters.trie.lookup (components name ++ path)).map Parameter.clone) ∧
      ∀ path, subtree.trie.hasNode path = parameters.trie.hasNode (components name ++ path) := by
  rw [getSubtree, getSubtrie_eq] at found
  obtain ⟨subtrie, there, rfl⟩ := Option.map_eq_some_iff.mp found
  have below := wellFormed.subtrie there
  refine ⟨rfl, below.overwrite Trie.wellFormed_empty, fun path => ?_, fun path => ?_⟩
  · rw [Trie.lookup_append, there, assign, Trie.lookup_overwrite _ below]
    simp
  · rw [Trie.hasNode_append, there, assign, Trie.hasNode_overwrite _ below, Option.any_some]
    cases path with
    | nil => simp
    | cons key rest => simp [Trie.hasNode_cons, Trie.empty, Trie.child]

theorem isSome_descend (wellFormed : parameters.trie.WellFormed) (names : List (List Char)) :
    (parameters.descend names).isSome = parameters.trie.hasNode (joined names) := by
  induction names generalizing parameters with
  | nil => rfl
  | cons name names induction =>
      rw [descend, joined, List.flatMap_cons, ← joined]
      cases found : parameters.getSubtree name with
      | none =>
          rw [Trie.hasNode_append, subtrie_eq_none found]
          rfl
      | some subtree =>
          obtain ⟨-, below, -, nodes⟩ := lookup_getSubtree wellFormed found
          rw [Option.bind_some, induction below, nodes]

/-- The same for a subtree of a subtree. -/
theorem lookup_descend (wellFormed : parameters.trie.WellFormed) (nonempty : names ≠ [])
    (found : parameters.descend names = some subtree) :
    names.getLast? = some subtree.name_ ∧ subtree.trie.WellFormed ∧
      ∀ path, subtree.trie.lookup path =
        (parameters.trie.lookup (joined names ++ path)).map Parameter.clone := by
  induction names generalizing parameters with
  | nil => exact (nonempty rfl).elim
  | cons name names induction =>
      obtain ⟨first, here, rest⟩ := Option.bind_eq_some_iff.mp found
      obtain ⟨own, below, values, -⟩ := lookup_getSubtree wellFormed here
      cases names with
      | nil =>
          obtain rfl := Option.some.inj rest
          refine ⟨by rw [own]; rfl, below, fun path => ?_⟩
          rw [values, joined, List.flatMap_singleton]
      | cons next names =>
          obtain ⟨last, inner, deeper⟩ := induction below (List.cons_ne_nil next names) rest
          refine ⟨(List.getLast?_cons_cons ..).trans last, inner, fun path => ?_⟩
          have split : joined (name :: next :: names) = components name ++ joined (next :: names) :=
            List.flatMap_cons
          rw [split, List.append_assoc, deeper, values, Option.map_map]
          rfl

end Descend

/-- The nodes of a trie that is built are on the way to its parameters. -/
theorem hasNode_iff {trie : ParameterTrie Val} (built : Built trie) (path : List (List Char)) :
    trie.hasNode path = true ↔
      path = [] ∨ ∃ name parameter, trie.find name = some parameter ∧ path <+: components name := by
  -- what is stored stays stored, under the same names
  have stores {trie : ParameterTrie Val}
      (before : trie.hasNode path = true ↔ path = [] ∨
        ∃ name parameter, trie.find name = some parameter ∧ path <+: components name)
      (added : List Char) (parameter : Parameter Val) :
      (trie.addGeneric added parameter).hasNode path = true ↔ path = [] ∨
        ∃ name other, (trie.addGeneric added parameter).find name = some other ∧
          path <+: components name := by
    simp only [addGeneric_eq, find_eq] at before ⊢
    rw [Trie.hasNode_alter, before]
    simp only [Trie.lookup_alter]
    constructor
    · rintro ((root | ⟨name, other, found, below⟩) | here)
      · exact .inl root
      · by_cases same : components name = components added
        · exact .inr ⟨name, parameter, if_pos same, below⟩
        · exact .inr ⟨name, other, (if_neg same).trans found, below⟩
      · exact .inr ⟨added, parameter, if_pos rfl, here⟩
    · rintro (root | ⟨name, other, found, below⟩)
      · exact .inl (.inl root)
      · split at found
        next same => exact .inr (same ▸ below)
        next => exact .inl (.inr ⟨name, other, found, below⟩)
  induction built with
  | empty => simp [Trie.hasNode_empty, find_eq]
  | add name type value _ induction => exact stores induction name _
  | addUnset name type _ induction => exact stores induction name _
  | set setter _ _ induction => exact stores induction _ _

/-- Every path of pieces that names can have is that of a name. -/
theorem exists_components_eq {path : List (List Char)}
    (whole : ∀ piece ∈ path, parameterNodeSeparator ∉ piece) : ∃ name, components name = path :=
  ⟨_, Pieces.pieces_intercalate_concat whole⟩

theorem notMem_of_mem_joined {names : List (List Char)} {piece : List Char}
    (member : piece ∈ joined names) : parameterNodeSeparator ∉ piece := by
  obtain ⟨name, -, inName⟩ := List.mem_flatMap.mp member
  exact Pieces.not_mem_of_mem_pieces inName

/-- Modules that hand down subtrees of their parameters, level by level, reach a subtree if and only
if a parameter is stored below the pieces of all names.  The subtree has the last name, clones of
the parameters below these pieces, whatever their validators say of them, and it passes the check.
Any single name with the same pieces leads to the same parameters. -/
theorem descend_correct {parameters : Parameters Val} (built : Built parameters.trie)
    (name : List Char) (names : List (List Char)) :
    ((parameters.descend (name :: names)).isSome = true ↔
      joined (name :: names) = [] ∨ ∃ stored parameter,
        parameters.trie.find stored = some parameter ∧
        joined (name :: names) <+: components stored) ∧
    ∀ subtree, parameters.descend (name :: names) = some subtree →
      (name :: names).getLast? = some subtree.name_ ∧
      (∀ below, ∃ stored, components stored = joined (name :: names) ++ components below ∧
        subtree.trie.find below = (parameters.trie.find stored).map Parameter.clone) ∧
      subtree.check = true ∧
      ∀ single, components single = joined (name :: names) →
        ∃ direct, parameters.getSubtree single = some direct ∧
          ∀ below, direct.trie.find below = subtree.trie.find below := by
  have wellFormed := built.named.wellFormed
  refine ⟨?_, fun subtree found => ?_⟩
  · rw [isSome_descend wellFormed, hasNode_iff built]
  obtain ⟨last, inner, values⟩ := lookup_descend wellFormed (List.cons_ne_nil name names) found
  refine ⟨last, fun below => ?_, ?_, fun single same => ?_⟩
  · obtain ⟨stored, pieces⟩ : ∃ stored, components stored =
        joined (name :: names) ++ components below := by
      refine exists_components_eq fun piece member => ?_
      rcases List.mem_append.mp member with above | inName
      · exact notMem_of_mem_joined above
      · exact Pieces.not_mem_of_mem_pieces inName
    exact ⟨stored, pieces, by rw [find_eq, find_eq, values, pieces]⟩
  · refine (Trie.all_iff inner _).mpr fun path parameter stored => ?_
    rw [values, Option.map_eq_some_iff] at stored
    obtain ⟨original, -, rfl⟩ := stored
    rfl
  · have reached : (parameters.getSubtree single).isSome = true := by
      have nodes := isSome_descend wellFormed (name :: names)
      have alone := isSome_descend wellFormed [single]
      rw [found] at nodes
      rw [joined, List.flatMap_singleton, same, ← nodes, descend] at alone
      simpa [descend] using alone
    obtain ⟨direct, there⟩ := Option.isSome_iff_exists.mp reached
    obtain ⟨-, -, directly, -⟩ := lookup_getSubtree wellFormed there
    exact ⟨direct, there, fun below => by rw [find_eq, find_eq, directly, values, same]⟩

/-- The subtree of a subtree, at a parameter that has not been set. -/
theorem descend_correct_missing :
    Built missing ∧ missing.all (Parameter.validate missing.readings) = false ∧
      ((descend ⟨missing, []⟩ [['a'], ['b']]).isSome = true ↔
        joined [['a'], ['b']] = [] ∨ ∃ stored parameter, missing.find stored = some parameter ∧
          joined [['a'], ['b']] <+: components stored) ∧
      ∀ subtree, descend ⟨missing, []⟩ [['a'], ['b']] = some subtree →
        [['a'], ['b']].getLast? = some subtree.name_ ∧
        (∀ below, ∃ stored, components stored = joined [['a'], ['b']] ++ components below ∧
          subtree.trie.find below = (missing.find stored).map Parameter.clone) ∧
        subtree.check = true ∧
        ∀ single, components single = joined [['a'], ['b']] →
          ∃ direct, getSubtree ⟨missing, []⟩ single = some direct ∧
            ∀ below, direct.trie.find below = subtree.trie.find below := by
  refine ⟨built_missing, ?_, descend_correct built_missing ['a'] [['b']]⟩
  rw [missing, addUnset, addGeneric_eq]
  rfl

end Parameters
end Simo
