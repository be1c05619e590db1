import Mathlib.Data.List.Induction
import Simo.Parameter.ParameterTrie

/-!
# Parameter tries as finite maps

A sequence of `add` and `add_unset` calls stands for a map from lists of pieces to parameters: the
last call for a list of pieces counts.  The operations of the trie that the calls build read this
map.  An assignment does not replace the map of its target: what the source does not mention stays.
-/

namespace Simo
namespace ParameterTrie

variable {Ty : Type*} {Val : Ty → Type*}

/-! ## Sequences of calls -/

/-- The calls that store a new parameter. -/
inductive Call (Val : Ty → Type*) where
  | add (name : List Char) (type : Ty) (value : Val type)
  | addUnset (name : List Char) (type : Ty) [Inhabited (Val type)]

namespace Call

def name : Call Val → List Char
  | add name _ _ => name
  | addUnset name _ => name

/-- The parameter that a call stores. -/
def parameter : Call Val → Parameter Val
  | add _ type value => ⟨type, true, none, value⟩
  | addUnset _ type => ⟨type, false, none, default⟩

def perform (trie : ParameterTrie Val) : Call Val → ParameterTrie Val
  | add name type value => trie.add name type value
  | addUnset name type => trie.addUnset name type

theorem perform_eq (trie : ParameterTrie Val) (call : Call Val) :
    call.perform trie = trie.addGeneric call.name call.parameter := by
  cases call <;> rfl

end Call

/-- The trie after some calls on a new trie. -/
def afterCalls (calls : List (Call Val)) : ParameterTrie Val :=
  calls.foldl Call.perform .empty

/-- The map that a sequence of calls stands for. -/
def held (calls : List (Call Val)) (path : List (List Char)) : Option (Parameter Val) :=
  (calls.reverse.find? fun call => components call.name = path).map Call.parameter

theorem isSome_held_iff {calls : List (Call Val)} {path : List (List Char)} :
    (held calls path).isSome ↔ ∃ call ∈ calls, components call.name = path := by
  simp [held]

theorem afterCalls_append (calls : List (Call Val)) (call : Call Val) :
    afterCalls (calls ++ [call]) = (afterCalls calls).addGeneric call.name call.parameter := by
  rw [afterCalls, List.foldl_append, ← Call.perform_eq]
  rfl

theorem held_append (calls : List (Call Val)) (call : Call Val) (path : List (List Char)) :
    held (calls ++ [call]) path =
      if path = components call.name then some call.parameter else held calls path := by
  rw [held, List.reverse_append, List.reverse_singleton, List.singleton_append, List.find?_cons]
  split
  next here => rw [if_pos (of_decide_eq_true here).symm]; rfl
  next apart =>
    rw [if_neg fun same => of_decide_eq_false apart same.symm]
    rfl

theorem lookup_afterCalls (calls : List (Call Val)) (path : List (List Char)) :
    (afterCalls calls).lookup path = held calls path := by
  induction calls using List.reverseRecOn with
  | nil => exact Trie.lookup_empty path
  | append_singleton calls call induction =>
      rw [afterCalls_append, held_append, addGeneric_eq, Trie.lookup_alter, induction]

theorem named_afterCalls (calls : List (Call Val)) : (afterCalls calls).Named := by
  induction calls using List.reverseRecOn with
  | nil => exact Built.empty.named
  | append_singleton calls call induction =>
      rw [afterCalls_append]
      exact induction.addGeneric _ _

theorem find_afterCalls (calls : List (Call Val)) (name : List Char) :
    (afterCalls calls).find name = held calls (components name) := by
  rw [find_eq, lookup_afterCalls]

/-- A call leaves the other names alone. -/
theorem find_afterCalls_append (calls : List (Call Val)) {call : Call Val} {name : List Char}
    (apart : components name ≠ components call.name) :
    (afterCalls (calls ++ [call])).find name = (afterCalls calls).find name := by
  rw [find_afterCalls, find_afterCalls, held_append, if_neg apart]

/-- The typed search finds the parameter if and only if its type is the one asked for. -/
theorem findTyped_eq_some [DecidableEq Ty] (trie : ParameterTrie Val) (type : Ty)
    (name : List Char) (typed : ParameterTyped Val type) :
    trie.findTyped type name = some typed ↔ trie.find name = some ⟨type, typed⟩ := by
  rw [findTyped]
  cases trie.find name with
  | none => simp
  | some parameter =>
      obtain ⟨own, stored⟩ := parameter
      dsimp only
      by_cases same : own = type
      · subst same
        rw [dif_pos rfl, Option.some_inj, Option.some_inj, Parameter.mk.injEq, heq_eq_eq]
        exact (and_iff_right rfl).symm
      · rw [dif_neg same]
        constructor
        · exact fun found => by cases found
        · exact fun found => (same (congrArg Parameter.type (Option.some.inj found))).elim

theorem held_append_components (calls : List (Call Val)) (prefixName : List Char)
    (path : List (List Char)) :
    held calls (components prefixName ++ path) =
      ((afterCalls calls).getSubtrie prefixName).bind fun sub => sub.lookup path := by
  rw [← lookup_afterCalls, Trie.lookup_append, getSubtrie_eq]

theorem all_afterCalls (calls : List (Call Val)) (p : Parameter Val → Bool) :
    (afterCalls calls).all p = true ↔
      ∀ path parameter, held calls path = some parameter → p parameter = true := by
  rw [Trie.all_iff (named_afterCalls calls).wellFormed]
  exact forall_congr' fun path => by rw [lookup_afterCalls]

/-- Different names for one entry differ by a separator at the end. -/
theorem components_injective_up_to_separator {name other : List Char} (apart : name ≠ other)
    (same : components name = components other) :
    name = other ++ [parameterNodeSeparator] ∨ other = name ++ [parameterNodeSeparator] :=
  (Pieces.eq_or_trailing_of_pieces_eq same).resolve_left apart

/-- The trie built by a sequence of calls is the finite map from lists of pieces to the parameters
of the last calls: for `find`, the typed `find`, `get_subtrie` and `all`. -/
theorem finite_map_of_calls [DecidableEq Ty] (calls : List (Call Val)) :
    -- the pieces of a name
    (components [] = [] ∧
      (∀ name, name ≠ [] → parameterNodeSeparator ∉ name → components name = [name]) ∧
      ∀ first rest, parameterNodeSeparator ∉ first →
        components (first ++ parameterNodeSeparator :: rest) = first :: components rest) ∧
    -- `find`
    (∀ name, (afterCalls calls).find name = held calls (components name)) ∧
    (∀ call name, components name ≠ components call.name →
      (afterCalls (calls ++ [call])).find name = (afterCalls calls).find name) ∧
    -- `get_subtrie`
    (∀ prefixName,
      match (afterCalls calls).getSubtrie prefixName with
      | some sub => ∀ name, sub.find name = held calls (components prefixName ++ components name)
      | none => ∀ path, held calls (components prefixName ++ path) = none) ∧
    -- `find<T>`
    (∀ type name typed, (afterCalls calls).findTyped type name = some typed ↔
      held calls (components name) = some ⟨type, typed⟩) ∧
    -- `all`
    (∀ f : Parameter Val → Bool, (afterCalls calls).all f = true ↔
      ∀ path parameter, held calls path = some parameter → f parameter = true) ∧
    -- names of one entry
    ∀ name other : List Char, name ≠ other → components name = components other →
      name = other ++ [parameterNodeSeparator] ∨ other = name ++ [parameterNodeSeparator] := by
  refine ⟨⟨rfl, fun _ => Pieces.pieces_of_not_mem, fun _ rest whole =>
    Pieces.pieces_append_cons whole rest⟩, find_afterCalls calls, fun call name =>
    find_afterCalls_append calls, fun prefixName => ?_, fun type name typed => ?_,
    all_afterCalls calls, fun name other => components_injective_up_to_separator⟩
  · have below := held_append_components calls prefixName
    cases found : (afterCalls calls).getSubtrie prefixName with
    | none =>
        intro path
        rw [below, found]
        rfl
    | some sub =>
        intro name
        rw [below, found, find_eq]
        rfl
  · rw [findTyped_eq_some, find_afterCalls]

/-! ## Assignment -/

/-- Both tries have parameters of the same types and values under the same names. -/
def SameContents (first second : ParameterTrie Val) : Prop :=
  ∀ name, Option.Rel (fun p q => p.content = q.content) (first.find name) (second.find name)

/-- What is found after an assignment: the source's parameter, or else the old one. -/
theorem find_assign (trie : ParameterTrie Val) {other : ParameterTrie Val}
    (wellFormed : other.WellFormed) (name : List Char) :
    (trie.assign other).find name =
      ((other.find name).map Parameter.clone).or (trie.find name) := by
  rw [find_eq, find_eq, find_eq, assign, Trie.lookup_overwrite _ wellFormed]

/-- An assignment makes the target hold what the source holds in exactly those cases in which the
source has a parameter under every name that the target had one under. -/
theorem assign_replaces_iff (trie : ParameterTrie Val) {other : ParameterTrie Val}
    (wellFormed : other.WellFormed) :
    SameContents (trie.assign other) other ↔
      ∀ name, (trie.find name).isSome → (other.find name).isSome := by
  constructor
  · intro same name stored
    have here := same name
    rw [find_assign trie wellFormed] at here
    cases found : other.find name with
    | none =>
        obtain ⟨parameter, old⟩ := Option.isSome_iff_exists.mp stored
        rw [found, old] at here
        cases here
    | some parameter => rfl
  · intro covered name
    rw [find_assign trie wellFormed]
    cases found : other.find name with
    | some parameter => exact .some rfl
    | none =>
        have old : trie.find name = none := by
          by_contra stored
          have := covered name (Option.isSome_iff_ne_none.mpr stored)
          rw [found] at this
          cases this
        rw [old]
        exact .none

/-- The trie with the number 1 under the name `x`. -/
def single : ParameterTrie fun _ : Unit => ℕ := add .empty ['x'] () 1

theorem find_single : single.find ['x'] = some ⟨(), true, none, 1⟩ := by
  rw [single, add, addGeneric_eq, find_eq]
  rfl

/-- The trie with the number 2 under the name `x` and the number 3 under the name `y`. -/
def pair : ParameterTrie fun _ : Unit => ℕ := afterCalls [.add ['x'] () 2, .add ['y'] () 3]

/-- Everything that `single` has is replaced when `pair` is assigned to it. -/
theorem assign_replaces_iff_pair :
    (SameContents (single.assign pair) pair ↔
      ∀ name, (single.find name).isSome → (pair.find name).isSome) ∧
    SameContents (single.assign pair) pair ∧ single.find ['x'] = some ⟨(), true, none, 1⟩ ∧
      pair.find ['x'] = some ⟨(), true, none, 2⟩ := by
  have decided := assign_replaces_iff single
    (named_afterCalls [.add ['x'] () 2, .add ['y'] () 3]).wellFormed
  refine ⟨decided, decided.mpr fun name stored => ?_, find_single, ?_⟩
  · have old : single = afterCalls [.add ['x'] () 1] := rfl
    rw [old, find_afterCalls, isSome_held_iff] at stored
    rw [find_afterCalls, isSome_held_iff]
    obtain ⟨call, member, path⟩ := stored
    obtain rfl := List.mem_singleton.mp member
    exact ⟨_, List.mem_cons_self, path⟩
  · rw [pair, find_afterCalls]
    rfl

/-- An empty trie assigned to `single` leaves its entry. -/
theorem assign_keeps_single :
    (Trie.empty : ParameterTrie fun _ : Unit => ℕ).WellFormed ∧
      (single.assign .empty).find ['x'] = some ⟨(), true, none, 1⟩ ∧
      find (.empty : ParameterTrie fun _ : Unit => ℕ) ['x'] = none ∧
      ¬ SameContents (single.assign .empty) .empty := by
  have kept : (single.assign .empty).find ['x'] = some ⟨(), true, none, 1⟩ := by
    rw [find_assign single Trie.wellFormed_empty, find_single, find_eq, Trie.lookup_empty]
    rfl
  have absent : find (.empty : ParameterTrie fun _ : Unit => ℕ) ['x'] = none := by
    rw [find_eq, Trie.lookup_empty]
  refine ⟨Trie.wellFormed_empty, kept, absent, fun same => ?_⟩
  have here := same ['x']
  rw [kept, absent] at here
  cases here

end ParameterTrie
end Simo
