import Mathlib.Data.List.Basic
import Mathlib.Data.List.Nodup
import Mathlib.Logic.Function.Basic

/-!
# Tries over paths of keys

A trie stores a value at some of the paths over a type of keys.  The children of a node are an
association list, so a traversal has an order, and the predicate `WellFormed` says that its keys
are distinct.  `Trie.lookup` is the partial map that a trie stands for; each operation has one lemma
that says what it does to that map.
-/

/-- Tries over paths of keys in `κ`. -/
inductive Trie (κ α : Type*) where
  | node (value : Option α) (children : List (κ × Trie κ α))

namespace Trie

variable {κ α β : Type*}

def value : Trie κ α → Option α
  | node value _ => value

def children : Trie κ α → List (κ × Trie κ α)
  | node _ children => children

@[simp]
theorem value_node (value : Option α) (children : List (κ × Trie κ α)) :
    (node value children).value = value := rfl

@[simp]
theorem children_node (value : Option α) (children : List (κ × Trie κ α)) :
    (node value children).children = children := rfl

/-- The trie without any value. -/
def empty : Trie κ α := node none []

/-- Whether a predicate holds of all values. -/
def all (p : α → Bool) : Trie κ α → Bool
  | node value children => value.all p && allIn p children
where
  /-- The same for a list of children. -/
  allIn (p : α → Bool) : List (κ × Trie κ α) → Bool
    | [] => true
    | (_, trie) :: rest => trie.all p && allIn p rest

theorem allIn_iff (p : α → Bool) (children : List (κ × Trie κ α)) :
    all.allIn p children = true ↔ ∀ entry ∈ children, entry.2.all p = true := by
  induction children with
  | nil => simp [all.allIn]
  | cons entry rest induction => simp [all.allIn, induction]

/-- The stored values with their paths, a node before its children. -/
def entries : Trie κ α → List (List κ × α)
  | node value children => value.toList.map (Prod.mk []) ++ entriesIn children
where
  /-- The same for a list of children. -/
  entriesIn : List (κ × Trie κ α) → List (List κ × α)
    | [] => []
    | (key, trie) :: rest =>
        trie.entries.map (fun entry => (key :: entry.1, entry.2)) ++ entriesIn rest

/-- At every node the keys of the children are distinct. -/
inductive WellFormed : Trie κ α → Prop
  | node {value : Option α} {children : List (κ × Trie κ α)}
      (distinct : (children.map Prod.fst).Nodup)
      (below : ∀ entry ∈ children, WellFormed entry.2) : WellFormed (node value children)

theorem wellFormed_empty : (empty : Trie κ α).WellFormed :=
  .node List.nodup_nil fun _ member => (List.not_mem_nil member).elim

variable [DecidableEq κ]

/-- The child under a key. -/
def child (key : κ) : List (κ × Trie κ α) → Option (Trie κ α)
  | [] => none
  | (first, trie) :: rest => if first = key then some trie else child key rest

/-- Replace the child under a key, or add it. -/
def setChild (key : κ) (trie : Trie κ α) : List (κ × Trie κ α) → List (κ × Trie κ α)
  | [] => [(key, trie)]
  | (first, other) :: rest =>
      if first = key then (first, trie) :: rest else (first, other) :: setChild key trie rest

/-- The sub-trie at a path. -/
def subtrie : List κ → Trie κ α → Option (Trie κ α)
  | [], trie => some trie
  | key :: path, trie => (child key trie.children).bind (subtrie path)

/-- The value at a path. -/
def lookup (trie : Trie κ α) (path : List κ) : Option α := (trie.subtrie path).bind value

/-- Change the value at a path, creating the nodes on the way. -/
def alter (change : Option α → Option α) : List κ → Trie κ α → Trie κ α
  | [], trie => node (change trie.value) trie.children
  | key :: path, trie =>
      node trie.value
        (setChild key (alter change path ((child key trie.children).getD empty)) trie.children)

/-- Write the images of the values of `source` over a target, node by node. -/
def overwrite (image : α → α) (source target : Trie κ α) : Trie κ α :=
  match source with
  | node value children =>
      node ((value.map image).or target.value) (overwriteIn image children target.children)
where
  /-- The same for a list of children. -/
  overwriteIn (image : α → α) (sources targets : List (κ × Trie κ α)) : List (κ × Trie κ α) :=
    match sources with
    | [] => targets
    | (key, source) :: rest =>
        overwriteIn image rest
          (setChild key (source.overwrite image ((child key targets).getD empty)) targets)

/-! ## Children -/

theorem child_setChild (key other : κ) (trie : Trie κ α) (children : List (κ × Trie κ α)) :
    child other (setChild key trie children) =
      if other = key then some trie else child other children := by
  induction children with
  | nil => simp [setChild, child, eq_comm]
  | cons entry rest induction =>
      obtain ⟨first, old⟩ := entry
      simp only [setChild]
      by_cases here : first = key
      · subst here
        rw [if_pos rfl]
        by_cases same : other = first
        · simp [child, same]
        · simp [child, same, Ne.symm same]
      · rw [if_neg here, child, induction, child]
        by_cases front : first = other
        · subst front
          simp [here]
        · simp [front]

theorem mem_of_child {key : κ} {trie : Trie κ α} {children : List (κ × Trie κ α)}
    (found : child key children = some trie) : (key, trie) ∈ children := by
  induction children with
  | nil => simp [child] at found
  | cons entry rest induction =>
      obtain ⟨first, old⟩ := entry
      rw [child] at found
      split at found
      next here =>
        subst here
        rw [Option.some.inj found]
        exact List.mem_cons_self
      next => exact List.mem_cons_of_mem _ (induction found)

theorem child_of_mem {key : κ} {trie : Trie κ α} {children : List (κ × Trie κ α)}
    (distinct : (children.map Prod.fst).Nodup) (member : (key, trie) ∈ children) :
    child key children = some trie := by
  induction children with
  | nil => exact (List.not_mem_nil member).elim
  | cons entry rest induction =>
      obtain ⟨first, old⟩ := entry
      rw [List.map_cons, List.nodup_cons] at distinct
      rcases List.mem_cons.mp member with same | later
      · obtain ⟨rfl, rfl⟩ := Prod.mk.inj same
        simp [child]
      · rw [child, if_neg, induction distinct.2 later]
        rintro rfl
        exact distinct.1 (List.mem_map.mpr ⟨_, later, rfl⟩)

theorem child_eq_none {key : κ} {children : List (κ × Trie κ α)} :
    child key children = none ↔ key ∉ children.map Prod.fst := by
  induction children with
  | nil => simp [child]
  | cons entry rest induction =>
      obtain ⟨first, old⟩ := entry
      by_cases here : first = key
      · simp [child, here]
      · simp [child, here, induction, Ne.symm here]

theorem mem_setChild {key : κ} {trie : Trie κ α} {children : List (κ × Trie κ α)}
    {entry : κ × Trie κ α} (member : entry ∈ setChild key trie children) :
    entry = (key, trie) ∨ entry ∈ children := by
  induction children with
  | nil => exact .inl (List.mem_singleton.mp member)
  | cons first rest induction =>
      obtain ⟨first, old⟩ := first
      rw [setChild] at member
      split at member
      next here =>
        subst here
        exact (List.mem_cons.mp member).imp_right (List.mem_cons_of_mem _)
      next =>
        rcases List.mem_cons.mp member with rfl | later
        · exact .inr List.mem_cons_self
        · exact (induction later).imp_right (List.mem_cons_of_mem _)

theorem nodup_setChild {key : κ} {trie : Trie κ α} {children : List (κ × Trie κ α)}
    (distinct : (children.map Prod.fst).Nodup) :
    ((setChild key trie children).map Prod.fst).Nodup := by
  induction children with
  | nil => simp [setChild]
  | cons entry rest induction =>
      obtain ⟨first, old⟩ := entry
      rw [List.map_cons, List.nodup_cons] at distinct
      rw [setChild]
      split
      next => exact List.nodup_cons.mpr distinct
      next apart =>
        refine List.nodup_cons.mpr ⟨fun member => ?_, induction distinct.2⟩
        obtain ⟨entry, inside, same⟩ := List.mem_map.mp member
        rcases mem_setChild inside with rfl | old
        · exact apart same.symm
        · exact distinct.1 (List.mem_map.mpr ⟨entry, old, same⟩)

/-! ## Lookup -/

@[simp]
theorem lookup_nil (trie : Trie κ α) : trie.lookup [] = trie.value := rfl

theorem lookup_cons (trie : Trie κ α) (key : κ) (path : List κ) :
    trie.lookup (key :: path) = (child key trie.children).bind fun sub => sub.lookup path := by
  rw [lookup, subtrie, Option.bind_assoc]
  rfl

theorem subtrie_append (path rest : List κ) (trie : Trie κ α) :
    subtrie (path ++ rest) trie = (subtrie path trie).bind (subtrie rest) := by
  induction path generalizing trie with
  | nil => rfl
  | cons key path induction =>
      rw [List.cons_append, subtrie, subtrie, Option.bind_assoc]
      exact congrArg _ (funext induction)

theorem lookup_append (trie : Trie κ α) (path rest : List κ) :
    trie.lookup (path ++ rest) = (trie.subtrie path).bind fun sub => sub.lookup rest := by
  rw [lookup, subtrie_append, Option.bind_assoc]
  rfl

@[simp]
theorem lookup_empty (path : List κ) : (empty : Trie κ α).lookup path = none := by
  cases path <;> rfl

theorem lookup_child_getD (trie : Trie κ α) (key : κ) (path : List κ) :
    ((child key trie.children).getD empty).lookup path = trie.lookup (key :: path) := by
  rw [lookup_cons]
  cases child key trie.children with
  | none => simp
  | some sub => rfl

/-- `alter` changes the value at one path. -/
theorem lookup_alter (change : Option α → Option α) (path other : List κ) (trie : Trie κ α) :
    (alter change path trie).lookup other =
      if other = path then change (trie.lookup path) else trie.lookup other := by
  induction path generalizing trie other with
  | nil =>
      cases other with
      | nil => simp [alter, value]
      | cons key rest => simp [alter, lookup_cons, children]
  | cons key path induction =>
      cases other with
      | nil => simp [alter, value]
      | cons first rest =>
          rw [lookup_cons, alter, children, child_setChild]
          by_cases same : first = key
          · subst same
            simp [induction, lookup_child_getD]
          · simp [same, lookup_cons]

/-! ## Well-formed tries -/

theorem WellFormed.child {trie sub : Trie κ α} {key : κ} (wellFormed : trie.WellFormed)
    (found : Trie.child key trie.children = some sub) : sub.WellFormed := by
  cases wellFormed with
  | node distinct below => exact below _ (mem_of_child found)

theorem WellFormed.child_getD {trie : Trie κ α} (wellFormed : trie.WellFormed) (key : κ) :
    ((Trie.child key trie.children).getD empty).WellFormed := by
  cases found : Trie.child key trie.children with
  | none => exact wellFormed_empty
  | some sub => exact wellFormed.child found

theorem WellFormed.set {value : Option α} {children : List (κ × Trie κ α)} {sub : Trie κ α}
    (wellFormed : (Trie.node value children).WellFormed) (subWellFormed : sub.WellFormed) (key : κ)
    (changed : Option α) : (Trie.node changed (setChild key sub children)).WellFormed := by
  cases wellFormed with
  | node distinct below =>
      refine .node (nodup_setChild distinct) fun entry member => ?_
      rcases mem_setChild member with rfl | old
      · exact subWellFormed
      · exact below entry old

theorem WellFormed.alter {trie : Trie κ α} (wellFormed : trie.WellFormed)
    (change : Option α → Option α) (path : List κ) : (trie.alter change path).WellFormed := by
  induction path generalizing trie with
  | nil =>
      cases wellFormed with
      | node distinct below => exact .node distinct below
  | cons key path induction =>
      obtain ⟨value, children⟩ := trie
      exact wellFormed.set (induction (wellFormed.child_getD key)) key value

/-! ## Writing one trie over another -/

theorem value_overwrite (image : α → α) (source target : Trie κ α) :
    (source.overwrite image target).value = (source.value.map image).or target.value := by
  cases source
  rfl

theorem children_overwrite (image : α → α) (source target : Trie κ α) :
    (source.overwrite image target).children =
      overwrite.overwriteIn image source.children target.children := by
  cases source
  rfl

/-- The child under a key is written over the target's child under that key. -/
theorem child_overwriteIn (image : α → α) (key : κ) {sources : List (κ × Trie κ α)}
    (distinct : (sources.map Prod.fst).Nodup) (targets : List (κ × Trie κ α)) :
    child key (overwrite.overwriteIn image sources targets) =
      match child key sources with
      | none => child key targets
      | some source => some (source.overwrite image ((child key targets).getD empty)) := by
  induction sources generalizing targets with
  | nil => rfl
  | cons entry rest induction =>
      obtain ⟨first, source⟩ := entry
      rw [List.map_cons, List.nodup_cons] at distinct
      rw [overwrite.overwriteIn, induction distinct.2, child]
      by_cases here : first = key
      · subst here
        rw [child_eq_none.mpr distinct.1, if_pos rfl]
        simp [child_setChild]
      · rw [if_neg here]
        simp [child_setChild, Ne.symm here]

theorem lookup_overwrite (image : α → α) {source : Trie κ α} (wellFormed : source.WellFormed)
    (target : Trie κ α) (path : List κ) :
    (source.overwrite image target).lookup path =
      ((source.lookup path).map image).or (target.lookup path) := by
  induction wellFormed generalizing target path with
  | @node value children distinct below induction =>
      cases path with
      | nil => exact value_overwrite image (node value children) target
      | cons key path =>
          rw [lookup_cons, children_overwrite, children_node, child_overwriteIn image key distinct,
            lookup_cons, children_node]
          cases found : Trie.child key children with
          | none => simp [lookup_cons]
          | some source =>
              have below := induction _ (mem_of_child found)
                ((Trie.child key target.children).getD empty) path
              rw [lookup_child_getD] at below
              exact below

theorem WellFormed.overwriteIn {image : α → α} {sources : List (κ × Trie κ α)}
    (each : ∀ entry ∈ sources, ∀ target : Trie κ α, target.WellFormed →
      (entry.2.overwrite image target).WellFormed)
    {value : Option α} {targets : List (κ × Trie κ α)}
    (wellFormed : (Trie.node value targets).WellFormed) :
    (Trie.node value (overwrite.overwriteIn image sources targets)).WellFormed := by
  induction sources generalizing targets with
  | nil => exact wellFormed
  | cons entry rest induction =>
      obtain ⟨key, source⟩ := entry
      refine induction (fun entry member => each entry (List.mem_cons_of_mem _ member)) ?_
      apply wellFormed.set
      exact each _ List.mem_cons_self _ (wellFormed.child_getD key)

theorem WellFormed.overwrite {image : α → α} {source target : Trie κ α}
    (wellFormed : source.WellFormed) (targetWellFormed : target.WellFormed) :
    (source.overwrite image target).WellFormed := by
  induction wellFormed generalizing target with
  | @node value children distinct below induction =>
      obtain ⟨old, targets⟩ := target
      refine WellFormed.overwriteIn (fun entry member target => induction entry member) ?_
      cases targetWellFormed with
      | node distinct below => exact .node distinct below

/-! ## Nodes -/

/-- Whether the path leads to a node, with a value or without. -/
def hasNode (trie : Trie κ α) (path : List κ) : Bool := (trie.subtrie path).isSome

@[simp]
theorem hasNode_nil (trie : Trie κ α) : trie.hasNode [] = true := rfl

theorem hasNode_cons (trie : Trie κ α) (key : κ) (path : List κ) :
    trie.hasNode (key :: path) = (child key trie.children).any fun sub => sub.hasNode path := by
  rw [hasNode, subtrie]
  cases child key trie.children <;> rfl

theorem hasNode_append (trie : Trie κ α) (path rest : List κ) :
    trie.hasNode (path ++ rest) = (trie.subtrie path).any fun sub => sub.hasNode rest := by
  rw [hasNode, subtrie_append]
  cases trie.subtrie path <;> rfl

theorem hasNode_empty {path : List κ} : (empty : Trie κ α).hasNode path = true ↔ path = [] := by
  cases path with
  | nil => simp
  | cons key path => simp [hasNode_cons, empty, child]

/-- `alter` adds the nodes on its path. -/
theorem hasNode_alter (change : Option α → Option α) (path other : List κ) (trie : Trie κ α) :
    (alter change path trie).hasNode other = true ↔
      trie.hasNode other = true ∨ other <+: path := by
  induction path generalizing trie other with
  | nil =>
      cases other with
      | nil => simp
      | cons first rest => simp [alter, hasNode_cons]
  | cons key path induction =>
      cases other with
      | nil => simp
      | cons first rest =>
          rw [hasNode_cons, alter, children_node, child_setChild, hasNode_cons,
            List.cons_prefix_cons]
          by_cases same : first = key
          · subst same
            rw [if_pos rfl, Option.any_some, induction]
            cases child first trie.children with
            | some sub => simp
            | none =>
                simp only [Option.getD_none, hasNode_empty, Option.any_none, Bool.false_eq_true,
                  false_or, true_and]
                exact or_iff_right_of_imp fun nothing => nothing ▸ List.nil_prefix
          · simp [same]

/-- Writing one trie over another leaves the nodes of both. -/
theorem hasNode_overwrite (image : α → α) {source : Trie κ α} (wellFormed : source.WellFormed)
    (target : Trie κ α) (path : List κ) :
    (source.overwrite image target).hasNode path =
      (source.hasNode path || target.hasNode path) := by
  induction wellFormed generalizing target path with
  | @node value children distinct below induction =>
      cases path with
      | nil => simp
      | cons key path =>
          rw [hasNode_cons, children_overwrite, children_node, child_overwriteIn image key distinct,
            hasNode_cons, hasNode_cons, children_node]
          cases found : Trie.child key children with
          | none => simp
          | some source =>
              rw [Option.any_some, Option.any_some, induction _ (mem_of_child found)]
              cases Trie.child key target.children with
              | some sub => rfl
              | none =>
                  cases path with
                  | nil => simp
                  | cons next rest => simp [hasNode_cons, empty, Trie.child]

theorem WellFormed.subtrie {trie sub : Trie κ α} {path : List κ} (wellFormed : trie.WellFormed)
    (found : trie.subtrie path = some sub) : sub.WellFormed := by
  induction path generalizing trie with
  | nil => exact Option.some.inj found ▸ wellFormed
  | cons key path induction =>
      obtain ⟨child, here, below⟩ := Option.bind_eq_some_iff.mp found
      exact induction (wellFormed.child here) below

/-! ## All values -/

/-- A predicate holds throughout a well-formed trie when it holds of every value in the map. -/
theorem all_iff {trie : Trie κ α} (wellFormed : trie.WellFormed) (p : α → Bool) :
    trie.all p = true ↔ ∀ path a, trie.lookup path = some a → p a = true := by
  induction wellFormed with
  | @node value children distinct below induction =>
      rw [all, Bool.and_eq_true, allIn_iff]
      constructor
      · rintro ⟨here, deeper⟩ path a found
        cases path with
        | nil =>
            rw [lookup_nil, value_node] at found
            simpa [found] using here
        | cons key path =>
            rw [lookup_cons, children_node, Option.bind_eq_some_iff] at found
            obtain ⟨sub, isChild, inside⟩ := found
            have member := mem_of_child isChild
            exact (induction _ member).mp (deeper _ member) path a inside
      · intro throughout
        refine ⟨?_, fun entry member => ?_⟩
        · cases value with
          | none => rfl
          | some a => exact throughout [] a rfl
        · apply (induction entry member).mpr
          intro path a found
          apply throughout (entry.1 :: path) a
          rw [lookup_cons, children_node, child_of_mem distinct member]
          exact found

/-! ## Enumeration -/

omit [DecidableEq κ] in
theorem mem_entriesIn {children : List (κ × Trie κ α)} {path : List κ} {a : α} :
    (path, a) ∈ entries.entriesIn children ↔
      ∃ key sub rest, (key, sub) ∈ children ∧ path = key :: rest ∧ (rest, a) ∈ sub.entries := by
  induction children with
  | nil => simp [entries.entriesIn]
  | cons child children induction =>
      obtain ⟨first, trie⟩ := child
      rw [entries.entriesIn, List.mem_append, induction, List.mem_map]
      constructor
      · rintro (⟨⟨rest, _⟩, inside, ⟨⟩⟩ | ⟨key, sub, rest, member, same, inside⟩)
        · exact ⟨first, trie, rest, List.mem_cons_self, rfl, inside⟩
        · exact ⟨key, sub, rest, List.mem_cons_of_mem _ member, same, inside⟩
      · rintro ⟨key, sub, rest, member, rfl, inside⟩
        rcases List.mem_cons.mp member with here | later
        · obtain ⟨rfl, rfl⟩ := Prod.mk.inj here
          exact .inl ⟨(rest, a), inside, rfl⟩
        · exact .inr ⟨key, sub, rest, later, rfl, inside⟩

/-- The entries are those of the map. -/
theorem mem_entries {trie : Trie κ α} (wellFormed : trie.WellFormed) {path : List κ} {a : α} :
    (path, a) ∈ trie.entries ↔ trie.lookup path = some a := by
  induction wellFormed generalizing path with
  | @node value children distinct below induction =>
      rw [entries, List.mem_append, mem_entriesIn]
      cases path with
      | nil => simp
      | cons first rest =>
          rw [lookup_cons, children_node, Option.bind_eq_some_iff]
          constructor
          · rintro (here | ⟨key, sub, path, member, same, inside⟩)
            · simp at here
            · obtain ⟨rfl, rfl⟩ := List.cons.inj same
              exact ⟨sub, child_of_mem distinct member, (induction _ member).mp inside⟩
          · rintro ⟨sub, found, inside⟩
            have member := mem_of_child found
            exact .inr ⟨first, sub, rest, member, rfl, (induction _ member).mpr inside⟩

theorem mem_paths {trie : Trie κ α} (wellFormed : trie.WellFormed) {path : List κ} :
    path ∈ trie.entries.map Prod.fst ↔ (trie.lookup path).isSome = true := by
  rw [List.mem_map, Option.isSome_iff_exists]
  constructor
  · rintro ⟨⟨_, a⟩, member, rfl⟩
    exact ⟨a, (mem_entries wellFormed).mp member⟩
  · rintro ⟨a, found⟩
    exact ⟨_, (mem_entries wellFormed).mpr found, rfl⟩

omit [DecidableEq κ] in
theorem exists_key_of_mem {children : List (κ × Trie κ α)} {path : List κ}
    (member : path ∈ (entries.entriesIn children).map Prod.fst) :
    ∃ key rest, key ∈ children.map Prod.fst ∧ path = key :: rest := by
  obtain ⟨⟨_, a⟩, inside, rfl⟩ := List.mem_map.mp member
  obtain ⟨key, sub, rest, listed, same, -⟩ := mem_entriesIn.mp inside
  exact ⟨key, rest, List.mem_map.mpr ⟨_, listed, rfl⟩, same⟩

omit [DecidableEq κ] in
theorem nodup_entriesIn {children : List (κ × Trie κ α)}
    (distinct : (children.map Prod.fst).Nodup)
    (each : ∀ child ∈ children, (child.2.entries.map Prod.fst).Nodup) :
    ((entries.entriesIn children).map Prod.fst).Nodup := by
  induction children with
  | nil => exact List.nodup_nil
  | cons child children induction =>
      obtain ⟨first, trie⟩ := child
      rw [List.map_cons, List.nodup_cons] at distinct
      rw [entries.entriesIn, List.map_append, List.nodup_append']
      refine ⟨?_, induction distinct.2 fun child member => each child (.tail _ member), ?_⟩
      · have here := (each _ List.mem_cons_self).map (List.cons_injective (a := first))
        rw [List.map_map] at here ⊢
        exact here
      · intro path here later
        obtain ⟨⟨_, a⟩, inside, rfl⟩ := List.mem_map.mp here
        obtain ⟨entry, -, prefixed⟩ := List.mem_map.mp inside
        obtain ⟨key, rest, listed, same⟩ := exists_key_of_mem later
        cases prefixed
        exact distinct.1 ((List.cons.inj same).1 ▸ listed)

omit [DecidableEq κ] in
/-- Every path is enumerated once. -/
theorem nodup_entries {trie : Trie κ α} (wellFormed : trie.WellFormed) :
    (trie.entries.map Prod.fst).Nodup := by
  induction wellFormed with
  | @node value children distinct below induction =>
      have deeper := nodup_entriesIn distinct induction
      cases value with
      | none => exact deeper
      | some a =>
          rw [entries, List.map_append]
          refine List.nodup_cons.mpr ⟨fun root => ?_, deeper⟩
          obtain ⟨key, rest, -, same⟩ := exists_key_of_mem root
          cases same

end Trie
