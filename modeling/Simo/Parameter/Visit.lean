import Simo.Parameter.FiniteMap

/-!
# Visiting the parameters of a trie

`visit` joins the pieces of a path by `/` while it goes down, and leaves the separator out as long
as the name is empty.  So empty pieces at the beginning of a path vanish from the name, and `find`
does not see an empty piece at its end.  The names that are given lead back to the parameters that
they are given for when no path begins or ends with an empty piece.
-/

namespace Simo

/-- A pointer to a stored parameter: the node that owns it, and the parameter. -/
structure ParameterPtr {Ty : Type*} (Val : Ty → Type*) where
  node : List (List Char)
  parameter : Parameter Val

namespace ParameterTrie

variable {Ty : Type*} {Val : Ty → Type*}

/-- The pointer that `find` returns, from the node at which it arrives. -/
def findPtr (trie : ParameterTrie Val) (name : List Char) : Option (ParameterPtr Val) :=
  (trie.find name).map (ParameterPtr.mk (components name))

/-- The name of a child, from the name of its parent. -/
def subTreeName (name childName : List Char) : List Char :=
  (if name = [] then [] else name ++ [parameterNodeSeparator]) ++ childName

/-- The calls that `visit_impl` makes, at a node and below it. -/
def visitImpl (name : List Char) (node : List (List Char)) :
    ParameterTrie Val → List (List Char × Option (ParameterPtr Val))
  | .node value children =>
      (match value with
        | none => []
        | some parameter =>
            if !parameter.hasValue then [(name, none)] else [(name, some ⟨node, parameter⟩)]) ++
        visitIn name node children
where
  /-- The same for a list of children. -/
  visitIn (name : List Char) (node : List (List Char)) :
      List (List Char × ParameterTrie Val) → List (List Char × Option (ParameterPtr Val))
    | [] => []
    | (childName, subTree) :: rest =>
        visitImpl (subTreeName name childName) (node ++ [childName]) subTree ++
          visitIn name node rest

/-- The calls of the function that `visit` is given: the names and the pointers. -/
def visit (trie : ParameterTrie Val) : List (List Char × Option (ParameterPtr Val)) :=
  visitImpl [] [] trie

/-! ## The calls as a list of entries -/

/-- The name that is given to the node at a path. -/
def visitName (path : List (List Char)) : List Char := path.foldl subTreeName []

/-- The pointer that is given for a parameter. -/
def visitPtr (path : List (List Char)) (parameter : Parameter Val) :
    Option (ParameterPtr Val) :=
  if parameter.hasValue then some ⟨path, parameter⟩ else none

/-- The call for a stored parameter. -/
def visitCall (name : List Char) (node : List (List Char))
    (entry : List (List Char) × Parameter Val) : List Char × Option (ParameterPtr Val) :=
  (entry.1.foldl subTreeName name, visitPtr (node ++ entry.1) entry.2)

theorem visitImpl_eq {trie : ParameterTrie Val} (wellFormed : trie.WellFormed) (name : List Char)
    (node : List (List Char)) :
    visitImpl name node trie = trie.entries.map (visitCall name node) := by
  induction wellFormed generalizing name node with
  | @node value children distinct below induction =>
      have deeper : visitImpl.visitIn name node children =
          (Trie.entries.entriesIn children).map (visitCall name node) := by
        clear distinct below
        induction children with
        | nil => rfl
        | cons child children rest =>
            obtain ⟨childName, subTree⟩ := child
            rw [visitImpl.visitIn, Trie.entries.entriesIn, List.map_append,
              rest fun child member => induction child (.tail _ member),
              induction _ List.mem_cons_self, List.map_map]
            congr 1
            apply List.map_congr_left
            intro entry _
            simp [visitCall]
      rw [visitImpl.eq_def, Trie.entries, List.map_append]
      dsimp only
      rw [deeper]
      cases value with
      | none => rfl
      | some parameter => cases set : parameter.hasValue <;> simp [visitCall, visitPtr, set]

theorem visit_eq {trie : ParameterTrie Val} (wellFormed : trie.WellFormed) :
    trie.visit = trie.entries.map fun entry =>
      (visitName entry.1, visitPtr entry.1 entry.2) :=
  visitImpl_eq wellFormed [] []

/-! ## Names and paths -/

/-- A path without the empty pieces at its beginning. -/
def stripped (path : List (List Char)) : List (List Char) := path.dropWhile (· = [])

theorem intercalate_append_cons (front first : List Char) (rest : List (List Char)) :
    [parameterNodeSeparator].intercalate ((front ++ first) :: rest) =
      front ++ [parameterNodeSeparator].intercalate (first :: rest) := by
  cases rest <;> simp

theorem foldl_subTreeName {name : List Char} (nonempty : name ≠ []) (path : List (List Char)) :
    path.foldl subTreeName name = [parameterNodeSeparator].intercalate (name :: path) := by
  induction path generalizing name with
  | nil => simp
  | cons first rest induction =>
      rw [List.foldl_cons, subTreeName, if_neg nonempty, induction (by simp [nonempty]),
        intercalate_append_cons, List.intercalate_cons_cons]

/-- The name of a node joins the pieces of its path, from the first one that is not empty. -/
theorem visitName_eq (path : List (List Char)) :
    visitName path = [parameterNodeSeparator].intercalate (stripped path) := by
  induction path with
  | nil => rfl
  | cons first rest induction =>
      rcases eq_or_ne first [] with rfl | nonempty
      · exact induction
      · rw [visitName, List.foldl_cons, subTreeName, if_pos rfl, List.nil_append,
          foldl_subTreeName nonempty, stripped,
          List.dropWhile_cons_of_neg (by simpa using nonempty)]

/-- A path whose pieces can be those of a name. -/
def Nameable (path : List (List Char)) : Prop := ∀ piece ∈ path, parameterNodeSeparator ∉ piece

theorem nameable_components (name : List Char) : Nameable (components name) :=
  fun _ member => Pieces.not_mem_of_mem_pieces member

theorem head?_stripped (path : List (List Char)) : (stripped path).head? ≠ some [] := by
  induction path with
  | nil => simp [stripped]
  | cons first rest induction =>
      rcases eq_or_ne first [] with rfl | nonempty
      · exact induction
      · simp [stripped, nonempty]

theorem stripped_of_head? {path : List (List Char)} (head : path.head? ≠ some []) :
    stripped path = path := by
  cases path with
  | nil => rfl
  | cons first rest => exact List.dropWhile_cons_of_neg (by simpa using head)

theorem stripped_stripped (path : List (List Char)) : stripped (stripped path) = stripped path :=
  stripped_of_head? (head?_stripped path)

theorem stripped_suffix (path : List (List Char)) : stripped path <:+ path :=
  List.dropWhile_suffix _

theorem Nameable.stripped {path : List (List Char)} (nameable : Nameable path) :
    Nameable (ParameterTrie.stripped path) :=
  fun piece member => nameable piece ((stripped_suffix path).mem member)

theorem components_visitName {path : List (List Char)} (nameable : Nameable path)
    (last : (stripped path).getLast? ≠ some []) : components (visitName path) = stripped path := by
  rw [visitName_eq]
  exact Pieces.pieces_intercalate nameable.stripped last

theorem components_visitName_concat {path front : List (List Char)} (nameable : Nameable path)
    (ends : stripped path = front ++ [[]]) : components (visitName path) = front := by
  have whole := nameable.stripped
  rw [ends] at whole
  rw [visitName_eq, ends]
  exact Pieces.pieces_intercalate_concat fun piece member =>
    whole piece (List.mem_append_left _ member)

/-- Paths have the same name when they differ by empty pieces at the beginning only. -/
theorem visitName_eq_iff {path other : List (List Char)} (nameable : Nameable path)
    (nameable' : Nameable other) : visitName path = visitName other ↔
      stripped path = stripped other := by
  rw [visitName_eq, visitName_eq]
  constructor
  · have more : ∀ path, stripped path ≠ [[]] := fun path same => by
      have head := head?_stripped path
      rw [same] at head
      exact head rfl
    exact Pieces.intercalate_injective nameable.stripped nameable'.stripped (more _) (more _)
  · exact congrArg _

/-- No empty piece at the beginning or at the end. -/
def Bare (path : List (List Char)) : Prop := path.head? ≠ some [] ∧ path.getLast? ≠ some []

theorem components_visitName_of_bare {path : List (List Char)} (nameable : Nameable path)
    (bare : Bare path) : components (visitName path) = path := by
  have same := stripped_of_head? bare.1
  have last : (stripped path).getLast? ≠ some [] := by
    rw [same]
    exact bare.2
  exact (components_visitName nameable last).trans same

/-! ## Names that lead back -/

/-- The names given by `visit` are names for `find`: there is one call for each stored parameter,
with the pointer to it or null if it has no value, the names are different, and `find` takes each
name to the pointer that it is given with, or to a parameter without a value. -/
structure VisitNames (trie : ParameterTrie Val) : Prop where
  once : ∃ paths : List (List (List Char)), paths.Nodup ∧
    (∀ path, path ∈ paths ↔ (trie.lookup path).isSome = true) ∧
    trie.visit.map Prod.snd = paths.map fun path => (trie.lookup path).bind (visitPtr path)
  distinct : (trie.visit.map Prod.fst).Nodup
  understood : ∀ name ptr, (name, ptr) ∈ trie.visit →
    match ptr with
    | some ptr => trie.findPtr name = some ptr
    | none => ∃ parameter, trie.find name = some parameter ∧ parameter.hasValue = false

/-- No two stored paths differ by empty pieces at the beginning only, and no stored path begins or
ends with an empty piece.  To the second there is one exception: an unset parameter whose path ends
with an empty piece, if the path without this piece and without the empty pieces at its beginning is
that of another unset parameter. -/
structure NamesLeadBack (stored : List (List Char) → Option (Parameter Val)) : Prop where
  apart : ∀ path other, (stored path).isSome = true → (stored other).isSome = true →
    stripped path = stripped other → path = other
  bare : ∀ path parameter, stored path = some parameter → Bare path ∨
    (parameter.hasValue = false ∧ ∃ front other, stripped path = front ++ [[]] ∧
      stored front = some other ∧ other.hasValue = false)

variable {trie : ParameterTrie Val}

theorem visit_once (wellFormed : trie.WellFormed) :
    ∃ paths : List (List (List Char)), paths.Nodup ∧
      (∀ path, path ∈ paths ↔ (trie.lookup path).isSome = true) ∧
      trie.visit.map Prod.snd = paths.map fun path => (trie.lookup path).bind (visitPtr path) := by
  refine ⟨trie.entries.map Prod.fst, Trie.nodup_entries wellFormed,
    fun path => Trie.mem_paths wellFormed, ?_⟩
  rw [visit_eq wellFormed, List.map_map, List.map_map]
  apply List.map_congr_left
  rintro ⟨path, parameter⟩ member
  simp [(Trie.mem_entries wellFormed).mp member]

theorem Named.nameable (isNamed : trie.Named) {path : List (List Char)}
    (stored : (trie.lookup path).isSome = true) : Nameable path := by
  obtain ⟨parameter, found⟩ := Option.isSome_iff_exists.mp stored
  obtain ⟨name, rfl⟩ := isNamed.named path parameter found
  exact nameable_components name

/-- The names are different if and only if the paths are, up to empty pieces at the beginning. -/
theorem distinct_names_iff (isNamed : trie.Named) :
    (trie.visit.map Prod.fst).Nodup ↔
      ∀ path other, (trie.lookup path).isSome = true → (trie.lookup other).isSome = true →
        stripped path = stripped other → path = other := by
  have names : trie.visit.map Prod.fst = (trie.entries.map Prod.fst).map visitName := by
    rw [visit_eq isNamed.wellFormed, List.map_map, List.map_map]
    rfl
  rw [names, List.nodup_map_iff_inj_on (Trie.nodup_entries isNamed.wellFormed)]
  simp only [Trie.mem_paths isNamed.wellFormed]
  constructor
  · intro injective path other stored stored' same
    refine injective path stored other stored' ?_
    exact (visitName_eq_iff (isNamed.nameable stored) (isNamed.nameable stored')).mpr same
  · intro apart path stored other stored' same
    exact apart path other stored stored'
      ((visitName_eq_iff (isNamed.nameable stored) (isNamed.nameable stored')).mp same)

/-- Whether `find` takes the name given for a parameter to what it is given with. -/
def Understood (trie : ParameterTrie Val) (path : List (List Char)) (parameter : Parameter Val) :
    Prop :=
  if parameter.hasValue then components (visitName path) = path
  else ∃ other, trie.lookup (components (visitName path)) = some other ∧ other.hasValue = false

/-- The calls are understood if and only if each of the stored parameters is. -/
theorem understood_iff (wellFormed : trie.WellFormed) :
    (∀ name ptr, (name, ptr) ∈ trie.visit →
        match ptr with
        | some ptr => trie.findPtr name = some ptr
        | none => ∃ parameter, trie.find name = some parameter ∧ parameter.hasValue = false) ↔
      ∀ path parameter, trie.lookup path = some parameter → Understood trie path parameter := by
  have call : ∀ path parameter, trie.lookup path = some parameter →
      (Understood trie path parameter ↔
        match visitPtr path parameter with
        | some ptr => trie.findPtr (visitName path) = some ptr
        | none => ∃ other, trie.find (visitName path) = some other ∧
            other.hasValue = false) := by
    intro path parameter found
    rw [Understood, visitPtr, findPtr, find_eq]
    cases set : parameter.hasValue with
    | false => simp
    | true =>
        simp only [if_true]
        constructor
        · intro back
          rw [back, found]
          rfl
        · intro back
          obtain ⟨other, -, same⟩ := Option.map_eq_some_iff.mp back
          exact congrArg ParameterPtr.node same
  rw [visit_eq wellFormed]
  constructor
  · intro throughout path parameter found
    rw [call path parameter found]
    exact throughout _ _ (List.mem_map.mpr ⟨_, (Trie.mem_entries wellFormed).mpr found, rfl⟩)
  · intro throughout name ptr member
    obtain ⟨⟨path, parameter⟩, stored, same⟩ := List.mem_map.mp member
    obtain ⟨rfl, rfl⟩ := Prod.mk.inj same
    have found := (Trie.mem_entries wellFormed).mp stored
    exact (call path parameter found).mp (throughout path parameter found)

theorem bare_of_stripped {path : List (List Char)} (same : stripped path = path)
    (last : (stripped path).getLast? ≠ some []) : Bare path :=
  ⟨fun head => head?_stripped path (same.symm ▸ head), fun ends => last (same.symm ▸ ends)⟩

/-- A parameter that is understood has a bare path, or it is taken for another unset one. -/
theorem bare_of_understood {path : List (List Char)} {parameter : Parameter Val}
    (nameable : Nameable path) (found : trie.lookup path = some parameter)
    (apart : ∀ path other, (trie.lookup path).isSome = true → (trie.lookup other).isSome = true →
      stripped path = stripped other → path = other)
    (understood : Understood trie path parameter) :
    Bare path ∨ (parameter.hasValue = false ∧ ∃ front other, stripped path = front ++ [[]] ∧
      trie.lookup front = some other ∧ other.hasValue = false) := by
  rw [Understood] at understood
  by_cases last : (stripped path).getLast? = some []
  · obtain ⟨front, ends⟩ := List.getLast?_eq_some_iff.mp last
    rw [components_visitName_concat nameable ends] at understood
    split at understood
    next =>
      have shorter := (stripped_suffix path).length_le
      rw [ends, understood, List.length_append, List.length_singleton] at shorter
      omega
    next unset =>
      obtain ⟨other, shadow, unset'⟩ := understood
      exact .inr ⟨eq_false_of_ne_true unset, front, other, ends, shadow, unset'⟩
  · left
    rw [components_visitName nameable last] at understood
    split at understood
    next => exact bare_of_stripped understood last
    next =>
      obtain ⟨other, shadow, -⟩ := understood
      have same := apart path (stripped path) (Option.isSome_iff_exists.mpr ⟨_, found⟩)
        (Option.isSome_iff_exists.mpr ⟨_, shadow⟩) (stripped_stripped path).symm
      exact bare_of_stripped same.symm last

/-- The names of a trie are those that `find` understands if and only if they lead back. -/
theorem visitNames_iff_lookup (isNamed : trie.Named) :
    VisitNames trie ↔ NamesLeadBack trie.lookup := by
  constructor
  · rintro ⟨-, distinct, understood⟩
    have apart := (distinct_names_iff isNamed).mp distinct
    refine ⟨apart, fun path parameter found => ?_⟩
    have nameable := isNamed.nameable (Option.isSome_iff_exists.mpr ⟨parameter, found⟩)
    exact bare_of_understood nameable found apart
      ((understood_iff isNamed.wellFormed).mp understood path parameter found)
  · rintro ⟨apart, bare⟩
    refine ⟨visit_once isNamed.wellFormed, (distinct_names_iff isNamed).mpr apart,
      (understood_iff isNamed.wellFormed).mpr fun path parameter found => ?_⟩
    have nameable := isNamed.nameable (Option.isSome_iff_exists.mpr ⟨parameter, found⟩)
    rw [Understood]
    rcases bare path parameter found with bare | ⟨unset, front, other, ends, shadow, unset'⟩
    · rw [components_visitName_of_bare nameable bare]
      split
      next => rfl
      next unset => exact ⟨parameter, found, eq_false_of_ne_true unset⟩
    · rw [unset, components_visitName_concat nameable ends]
      exact ⟨other, shadow, unset'⟩

/-- For every sequence of `add` and `add_unset` calls: the names given by `visit` are the names that
`find` understands if and only if the paths that the calls have stored lead back. -/
theorem visitNames_iff (calls : List (Call Val)) :
    VisitNames (afterCalls calls) ↔ NamesLeadBack (held calls) := by
  rw [visitNames_iff_lookup (named_afterCalls calls)]
  have same : (afterCalls calls).lookup = held calls := funext (lookup_afterCalls calls)
  rw [same]

/-- The trie with the number 1 under the name `/x`. -/
def hidden : ParameterTrie fun _ : Unit => ℕ := afterCalls [.add ['/', 'x'] () 1]

/-- A parameter stored under `/x` is visited as `x`, and there is none under this name. -/
theorem not_visitNames_hidden :
    hidden.visit = [(['x'], some ⟨[[], ['x']], (), true, none, 1⟩)] ∧
      hidden.find ['x'] = none ∧ hidden.find ['/', 'x'] = some ⟨(), true, none, 1⟩ ∧
      ¬ VisitNames hidden := by
  have built : hidden =
      .node none [([], .node none [(['x'], .node (some ⟨(), true, none, 1⟩) [])])] := by
    change addGeneric _ _ _ = _
    rw [addGeneric_eq]
    rfl
  have visited : hidden.visit = [(['x'], some ⟨[[], ['x']], (), true, none, 1⟩)] := by
    rw [built]
    rfl
  have absent : hidden.find ['x'] = none := by
    rw [find_eq, built]
    rfl
  refine ⟨visited, absent, ?_, fun names => ?_⟩
  · rw [find_eq, built]
    rfl
  · have found := names.understood ['x'] (some ⟨[[], ['x']], (), true, none, 1⟩)
      (visited ▸ List.mem_singleton_self _)
    rw [findPtr, absent] at found
    cases found

end ParameterTrie
end Simo
