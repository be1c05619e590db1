import Mathlib.Data.List.Basic

/-!
# Outlines

A tree is written down row by row, a node before its children, and every row is indented further
than that of its parent.  The indentation is all that tells to which node a row belongs, and it is
enough: different trees have different rows.
-/

/-- Trees with a label at every node. -/
inductive Outline (α : Type*) where
  | node (label : α) (children : List (Outline α))

namespace Outline

variable {α : Type*}

/-- The labels with their indentations, which grow by `width` from a node to its children. -/
def rows (width indent : ℕ) : Outline α → List (ℕ × α)
  | node label children => (indent, label) :: rowsIn width (indent + width) children
where
  /-- The same for a list of trees. -/
  rowsIn (width indent : ℕ) : List (Outline α) → List (ℕ × α)
    | [] => []
    | tree :: rest => rows width indent tree ++ rowsIn width indent rest

/-- Induction on trees: what holds of a tree if it holds of its children holds of all. -/
@[elab_as_elim]
theorem childrenInduction {motive : Outline α → Prop}
    (node : ∀ label children, (∀ child ∈ children, motive child) → motive (.node label children)) :
    ∀ tree, motive tree
  | .node label children =>
      have below : ∀ child ∈ children, motive child := fun child _ => childrenInduction node child
      node label children below

variable {width indent bound : ℕ} {tree other : Outline α} {trees others : List (Outline α)}
  {rest rest' : List (ℕ × α)}

/-- The next row, if there is one, is indented less. -/
def Outside (bound : ℕ) (rest : List (ℕ × α)) : Prop := ∀ row ∈ rest.head?, row.1 < bound

/-- After the rows of a tree there are only rows of its siblings, or what is outside. -/
theorem Outside.rowsIn (outside : Outside indent rest) (less : indent < bound) :
    Outside bound (rows.rowsIn width indent trees ++ rest) := by
  cases trees with
  | nil => exact fun row first => Nat.lt_trans (outside row first) less
  | cons tree _ =>
      obtain ⟨label, children⟩ := tree
      intro row first
      cases first
      exact less

/-- What is outside does not start with the row of a tree. -/
theorem Outside.ne_rowsIn (outside : Outside indent rest) :
    rest ≠ rows.rowsIn width indent (tree :: trees) ++ rest' := by
  obtain ⟨label, children⟩ := tree
  rintro rfl
  exact Nat.lt_irrefl indent (outside (indent, label) rfl)

/-- The rows of a tree determine it, whatever follows outside. -/
def Determined (width : ℕ) (tree : Outline α) : Prop :=
  ∀ indent other rest rest', Outside (indent + width) rest → Outside (indent + width) rest' →
    rows width indent tree ++ rest = rows width indent other ++ rest' → tree = other ∧ rest = rest'

theorem rowsIn_append_inj (positive : 0 < width)
    (determined : ∀ tree ∈ trees, Determined width tree)
    (outside : Outside indent rest) (outside' : Outside indent rest')
    (same : rows.rowsIn width indent trees ++ rest = rows.rowsIn width indent others ++ rest') :
    trees = others ∧ rest = rest' := by
  have less : indent < indent + width := Nat.lt_add_of_pos_right positive
  induction trees generalizing others with
  | nil =>
      cases others with
      | nil => exact ⟨rfl, same⟩
      | cons other others => exact (outside.ne_rowsIn same).elim
  | cons tree trees induction =>
      cases others with
      | nil => exact (outside'.ne_rowsIn same.symm).elim
      | cons other others =>
          rw [rows.rowsIn, rows.rowsIn, List.append_assoc, List.append_assoc] at same
          obtain ⟨rfl, later⟩ := determined tree List.mem_cons_self indent other _ _
            (outside.rowsIn less) (outside'.rowsIn less) same
          obtain ⟨rfl, follows⟩ :=
            induction (fun tree member => determined tree (List.mem_cons_of_mem _ member)) later
          exact ⟨rfl, follows⟩

theorem determined (positive : 0 < width) (tree : Outline α) : Determined width tree := by
  induction tree using childrenInduction with
  | node label children induction =>
      rintro indent ⟨label', children'⟩ rest rest' outside outside' same
      rw [rows, rows, List.cons_append, List.cons_append, List.cons.injEq, Prod.mk.injEq] at same
      obtain ⟨⟨-, rfl⟩, below⟩ := same
      obtain ⟨rfl, follows⟩ := rowsIn_append_inj positive induction outside outside' below
      exact ⟨rfl, follows⟩

/-- Different trees have different rows. -/
theorem rows_injective (positive : 0 < width) (indent : ℕ) :
    Function.Injective (rows width indent : Outline α → List (ℕ × α)) := by
  intro tree other same
  refine (determined positive tree indent other [] [] nofun nofun ?_).1
  rw [List.append_nil, List.append_nil, same]

/-! ## Indented texts -/

/-- The blanks in front of a text can be counted. -/
theorem indented_inj {blank x y : α} {m n : ℕ} {text text' : List α} (first : x ≠ blank)
    (first' : y ≠ blank)
    (same : List.replicate m blank ++ x :: text = List.replicate n blank ++ y :: text') :
    m = n ∧ x = y ∧ text = text' := by
  induction m generalizing n with
  | zero =>
      cases n with
      | zero => exact ⟨rfl, List.cons.inj same⟩
      | succ n => exact (first (List.cons.inj same).1).elim
  | succ m induction =>
      cases n with
      | zero => exact (first' (List.cons.inj same).1.symm).elim
      | succ n =>
          obtain ⟨rfl, letters⟩ := induction (List.cons.inj same).2
          exact ⟨rfl, letters⟩

end Outline
