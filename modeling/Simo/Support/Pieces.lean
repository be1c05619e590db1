import Mathlib.Data.List.Basic

/-!
# Pieces of a separated sequence

`pieces sep xs` are the parts of `xs` between separators, where a separator at the very end is not
followed by a part.  `cut` takes the first of them off.
-/

namespace Pieces

variable {α : Type*} [DecidableEq α] (sep : α)

/-- The parts of a sequence between separators. -/
def pieces : List α → List (List α)
  | [] => []
  | x :: xs =>
      if x = sep then [] :: pieces xs
      else
        match pieces xs with
        | [] => [[x]]
        | first :: rest => (x :: first) :: rest

/-- The first part, and what follows its separator. -/
def cut (xs : List α) : List α × List α :=
  if sep ∈ xs then (xs.takeWhile (· ≠ sep), (xs.dropWhile (· ≠ sep)).tail) else (xs, [])

variable {sep}

theorem cut_cons (x : α) (xs : List α) :
    cut sep (x :: xs) =
      if x = sep then ([], xs) else (x :: (cut sep xs).1, (cut sep xs).2) := by
  by_cases here : x = sep
  · simp [cut, here]
  · by_cases later : sep ∈ xs
    · simp [cut, here, later]
    · simp [cut, here, later, Ne.symm here]

theorem length_cut_lt {xs : List α} (nonempty : xs ≠ []) : (cut sep xs).2.length < xs.length := by
  induction xs with
  | nil => exact (nonempty rfl).elim
  | cons x xs induction =>
      rw [cut_cons]
      split
      next => simp
      next =>
        rcases eq_or_ne xs [] with rfl | more
        · simp [cut]
        · have := induction more
          simp only [List.length_cons]
          omega

/-- The pieces are the first part and the pieces of the rest. -/
theorem pieces_of_ne_nil {xs : List α} (nonempty : xs ≠ []) :
    pieces sep xs = (cut sep xs).1 :: pieces sep (cut sep xs).2 := by
  induction xs with
  | nil => exact (nonempty rfl).elim
  | cons x xs induction =>
      rw [cut_cons, pieces]
      split
      next => rfl
      next =>
        rcases eq_or_ne xs [] with rfl | more
        · simp [pieces, cut]
        · rw [induction more]

theorem pieces_of_not_mem {xs : List α} (nonempty : xs ≠ []) (whole : sep ∉ xs) :
    pieces sep xs = [xs] := by
  rw [pieces_of_ne_nil nonempty, cut, if_neg whole]
  rfl

theorem pieces_append_cons {first : List α} (whole : sep ∉ first) (rest : List α) :
    pieces sep (first ++ sep :: rest) = first :: pieces sep rest := by
  induction first with
  | nil => rw [List.nil_append, pieces, if_pos rfl]
  | cons x first induction =>
      rw [List.mem_cons, not_or] at whole
      rw [List.cons_append, pieces, if_neg (Ne.symm whole.1), induction whole.2]

theorem pieces_eq_nil {xs : List α} : pieces sep xs = [] ↔ xs = [] := by
  constructor
  · intro none
    by_contra nonempty
    rw [pieces_of_ne_nil nonempty] at none
    cases none
  · rintro rfl
    rfl

/-- The pieces put together again are the sequence, up to a separator at its end. -/
theorem eq_intercalate_pieces (sep : α) (xs : List α) :
    xs = [sep].intercalate (pieces sep xs) ∨ xs = [sep].intercalate (pieces sep xs) ++ [sep] := by
  induction xs with
  | nil => exact .inl rfl
  | cons x xs induction =>
      rw [pieces]
      split
      next here =>
        subst here
        cases rest : pieces x xs with
        | nil =>
            rw [pieces_eq_nil] at rest
            subst rest
            exact .inr rfl
        | cons first more =>
            rw [rest] at induction
            rw [List.intercalate_cons_cons]
            apply induction.imp
            · exact fun same => by simpa using same
            · exact fun same => by simpa using same
      next apart =>
        cases rest : pieces sep xs with
        | nil =>
            rw [pieces_eq_nil] at rest
            subst rest
            exact .inl rfl
        | cons first more =>
            rw [rest] at induction
            rw [List.intercalate_cons_cons_left]
            apply induction.imp
            · exact fun same => congrArg (x :: ·) same
            · exact fun same => congrArg (x :: ·) same

/-- Sequences with the same pieces differ at most by one separator at the end. -/
theorem eq_or_trailing_of_pieces_eq {xs ys : List α} (same : pieces sep xs = pieces sep ys) :
    xs = ys ∨ xs = ys ++ [sep] ∨ ys = xs ++ [sep] := by
  have left := eq_intercalate_pieces sep xs
  have right := eq_intercalate_pieces sep ys
  rw [same] at left
  rcases left with left | left <;> rcases right with right | right
  · exact .inl (left.trans right.symm)
  · exact .inr (.inr (right.trans (congrArg (· ++ [sep]) left.symm)))
  · exact .inr (.inl (left.trans (congrArg (· ++ [sep]) right.symm)))
  · exact .inl (left.trans right.symm)

/-! ## Joined parts -/

theorem not_mem_of_mem_pieces {xs part : List α} (member : part ∈ pieces sep xs) : sep ∉ part := by
  induction xs generalizing part with
  | nil => exact (List.not_mem_nil member).elim
  | cons x xs induction =>
      rw [pieces] at member
      split at member
      next =>
        rcases List.mem_cons.mp member with rfl | later
        · exact List.not_mem_nil
        · exact induction later
      next apart =>
        split at member
        next =>
          rw [List.mem_singleton.mp member, List.mem_singleton]
          exact Ne.symm apart
        next first rest listed =>
          rw [listed] at induction
          rcases List.mem_cons.mp member with rfl | later
          · rw [List.mem_cons, not_or]
            exact ⟨Ne.symm apart, induction List.mem_cons_self⟩
          · exact induction (List.mem_cons_of_mem _ later)

variable {parts others : List (List α)}

/-- With a separator at the end the pieces are the parts that have been joined. -/
theorem pieces_intercalate_append (whole : ∀ part ∈ parts, sep ∉ part) (nonempty : parts ≠ []) :
    pieces sep ([sep].intercalate parts ++ [sep]) = parts := by
  induction parts with
  | nil => exact (nonempty rfl).elim
  | cons first rest induction =>
      have here := whole first List.mem_cons_self
      cases rest with
      | nil =>
          rw [List.intercalate_singleton]
          exact pieces_append_cons here []
      | cons second rest =>
          rw [List.intercalate_cons_cons, List.append_assoc, List.append_assoc,
            List.singleton_append, pieces_append_cons here,
            induction (fun part member => whole part (List.mem_cons_of_mem _ member))
              (List.cons_ne_nil _ _)]

/-- The pieces are the parts that have been joined, when the last one is not empty. -/
theorem pieces_intercalate (whole : ∀ part ∈ parts, sep ∉ part) (last : parts.getLast? ≠ some []) :
    pieces sep ([sep].intercalate parts) = parts := by
  induction parts with
  | nil => rfl
  | cons first rest induction =>
      have here := whole first List.mem_cons_self
      cases rest with
      | nil =>
          rw [List.intercalate_singleton]
          exact pieces_of_not_mem (by simpa using last) here
      | cons second rest =>
          rw [List.intercalate_cons_cons, List.append_assoc, List.singleton_append,
            pieces_append_cons here,
            induction (fun part member => whole part (List.mem_cons_of_mem _ member)) last]

omit [DecidableEq α] in
theorem intercalate_concat_nil (nonempty : parts ≠ []) :
    [sep].intercalate (parts ++ [[]]) = [sep].intercalate parts ++ [sep] := by
  induction parts with
  | nil => exact (nonempty rfl).elim
  | cons first rest induction =>
      cases rest with
      | nil => simp
      | cons second rest =>
          rw [List.cons_append, List.cons_append, List.intercalate_cons_cons,
            List.intercalate_cons_cons, ← List.cons_append, induction (List.cons_ne_nil _ _)]
          simp

/-- An empty part at the end is lost. -/
theorem pieces_intercalate_concat (whole : ∀ part ∈ parts, sep ∉ part) :
    pieces sep ([sep].intercalate (parts ++ [[]])) = parts := by
  rcases eq_or_ne parts [] with rfl | nonempty
  · simp [pieces]
  · rw [intercalate_concat_nil nonempty, pieces_intercalate_append whole nonempty]

theorem eq_nil_of_intercalate (whole : ∀ part ∈ parts, sep ∉ part) (more : parts ≠ [[]])
    (vacant : [sep].intercalate parts = []) : parts = [] := by
  by_contra nonempty
  have joined := pieces_intercalate_append whole nonempty
  rw [vacant, List.nil_append] at joined
  have lone : pieces sep ([] ++ [sep]) = [[]] := pieces_append_cons List.not_mem_nil []
  exact more (joined.symm.trans lone)

/-- Joining is injective, up to a single empty part. -/
theorem intercalate_injective (whole : ∀ part ∈ parts, sep ∉ part)
    (wholeOthers : ∀ part ∈ others, sep ∉ part) (more : parts ≠ [[]]) (moreOthers : others ≠ [[]])
    (same : [sep].intercalate parts = [sep].intercalate others) : parts = others := by
  rcases eq_or_ne parts [] with rfl | nonempty
  · exact (eq_nil_of_intercalate wholeOthers moreOthers same.symm).symm
  · rcases eq_or_ne others [] with rfl | nonempty'
    · exact eq_nil_of_intercalate whole more same
    · rw [← pieces_intercalate_append whole nonempty, same,
        pieces_intercalate_append wholeOthers nonempty']

omit [DecidableEq α] in
/-- Parts with a separator in front of each. -/
theorem flatMap_cons_eq_intercalate (parts : List (List α)) :
    parts.flatMap (sep :: ·) = [sep].intercalate ([] :: parts) := by
  induction parts with
  | nil => rfl
  | cons first rest induction =>
      rw [List.intercalate_cons_cons, List.flatMap_cons, induction]
      cases rest <;> simp

omit [DecidableEq α] in
/-- What is joined does not end with a separator, if the last part is not empty. -/
theorem getLast?_intercalate (whole : ∀ part ∈ parts, sep ∉ part) (nonempty : parts ≠ [])
    (last : parts.getLast? ≠ some []) : ∃ x, ([sep].intercalate parts).getLast? = some x ∧
      x ≠ sep := by
  induction parts with
  | nil => exact (nonempty rfl).elim
  | cons first rest induction =>
      cases rest with
      | nil =>
          have some : first.getLast? ≠ none := by simpa using last
          obtain ⟨x, ends⟩ := Option.ne_none_iff_exists'.mp some
          rw [List.intercalate_singleton]
          refine ⟨x, ends, ?_⟩
          rintro rfl
          exact whole first List.mem_cons_self (List.mem_of_getLast? ends)
      | cons second rest =>
          rw [List.getLast?_cons_cons] at last
          obtain ⟨x, ends, other⟩ := induction
            (fun part member => whole part (List.mem_cons_of_mem _ member))
            (List.cons_ne_nil _ _) last
          refine ⟨x, ?_, other⟩
          rw [List.intercalate_cons_cons, List.getLast?_append, ends]
          rfl

end Pieces
