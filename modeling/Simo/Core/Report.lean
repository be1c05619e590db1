import Simo.Core.StatusTree
import Simo.Support.Outline
import Simo.Support.Pieces

/-!
# What the printed status tells

`to_string` writes a line for each status, with two blanks more than that of the status above it,
and below it a line for each error.  Nothing is written about what is below a status that is marked
as successful.  From the text everything that it shows can be read back, as long as names and errors
are single lines and no name of a failed module ends like the line of a successful one.
-/

namespace Simo

namespace InitializationStatus

variable {ModuleRef : Type*}

/-- What is printed about a status: the name of its module, and its errors unless it is marked as
successful. -/
structure Heading where
  name : String
  errors : Option (List String)

/-- The part of a tree that is printed. -/
def shown (name : ModuleRef → String) : InitializationStatus ModuleRef → Outline Heading
  | ⟨module, errorList, subErrors, success_⟩ =>
      if success_ then .node ⟨(module.map name).getD "<null>", none⟩ []
      else .node ⟨(module.map name).getD "<null>", some errorList⟩ (shownIn name subErrors)
where
  /-- The same for a list of sub-statuses. -/
  shownIn (name : ModuleRef → String) : List (InitializationStatus ModuleRef) →
      List (Outline Heading)
    | [] => []
    | subError :: rest => shown name subError :: shownIn name rest

/-- Induction on trees of statuses: what holds of a status if it holds of its sub-statuses holds of
all. -/
@[elab_as_elim]
theorem subErrorsInduction {motive : InitializationStatus ModuleRef → Prop}
    (node : ∀ module errorList subErrors success_, (∀ sub ∈ subErrors, motive sub) →
      motive ⟨module, errorList, subErrors, success_⟩) : ∀ status, motive status
  | ⟨module, errorList, subErrors, success_⟩ =>
      have below : ∀ sub ∈ subErrors, motive sub := fun sub _ => subErrorsInduction node sub
      node module errorList subErrors success_ below
termination_by status => sizeOf status
decreasing_by
  have smaller := List.sizeOf_lt_of_mem ‹sub ∈ subErrors›
  rw [mk.sizeOf_spec]
  omega

/-! ## Lines -/

/-- The line for a status. -/
def Heading.firstLine (indent : ℕ) (heading : Heading) : List Char :=
  List.replicate indent ' ' ++ "Module ".toList ++ heading.name.toList ++
    if heading.errors.isNone then " - OK".toList else []

/-- The line for an error. -/
def errorChars (indent : ℕ) (error : String) : List Char :=
  List.replicate (indent + indent) ' ' ++ "- ".toList ++ error.toList

def Heading.lines (indent : ℕ) (heading : Heading) : List (List Char) :=
  heading.firstLine indent :: (heading.errors.getD []).map (errorChars indent)

/-- The lines of a report. -/
def linesOf (rows : List (ℕ × Heading)) : List (List Char) :=
  rows.flatMap fun row => row.2.lines row.1

theorem linesOf_cons (row : ℕ × Heading) (rows : List (ℕ × Heading)) :
    linesOf (row :: rows) = row.2.lines row.1 ++ linesOf rows := List.flatMap_cons

theorem linesOf_append (rows more : List (ℕ × Heading)) :
    linesOf (rows ++ more) = linesOf rows ++ linesOf more := List.flatMap_append

/-- Lines with a line break in front of each. -/
def broken (lines : List (List Char)) : List Char := lines.flatMap ('\n' :: ·)

theorem broken_cons (line : List Char) (lines : List (List Char)) :
    broken (line :: lines) = '\n' :: (line ++ broken lines) := List.flatMap_cons

theorem broken_append (lines more : List (List Char)) :
    broken (lines ++ more) = broken lines ++ broken more := List.flatMap_append

/-! ## The text -/

theorem toList_padding (indent : ℕ) : (padding indent).toList = List.replicate indent ' ' := by
  rw [padding, String.pushn_eq_repeat_push]
  induction indent with
  | zero => rfl
  | succ indent induction =>
      rw [Nat.repeat, String.toList_push, induction, List.replicate_succ']

theorem toList_errorLines (indent : ℕ) (errorList : List String) :
    (errorLines indent errorList).toList = broken (errorList.map (errorChars indent)) := by
  induction errorList with
  | nil => rfl
  | cons error rest induction =>
      rw [errorLines, errorLine, List.map_cons, broken_cons, errorChars, List.replicate_add]
      simp only [String.toList_append, toList_padding, induction, List.append_assoc]
      rfl

theorem toList_appendSubErrors {name : ModuleRef → String} {indent : ℕ}
    {subErrors : List (InitializationStatus ModuleRef)}
    (each : ∀ sub ∈ subErrors, '\n' :: (sub.appendTo name (indent + 2)).toList =
      broken (linesOf ((sub.shown name).rows 2 (indent + 2)))) :
    (appendTo.appendSubErrors name indent subErrors).toList =
      broken (linesOf (Outline.rows.rowsIn 2 (indent + 2) (shown.shownIn name subErrors))) := by
  induction subErrors with
  | nil => rfl
  | cons first rest induction =>
      have here := each first List.mem_cons_self
      have later := induction fun sub member => each sub (List.mem_cons_of_mem _ member)
      rw [appendTo.appendSubErrors, String.toList_append, String.toList_append, later,
        shown.shownIn, Outline.rows.rowsIn, linesOf_append, broken_append, ← here]
      rfl

/-- The text consists of the lines for what is shown. -/
theorem newline_appendTo (name : ModuleRef → String) (status : InitializationStatus ModuleRef)
    (indent : ℕ) :
    '\n' :: (status.appendTo name indent).toList =
      broken (linesOf ((status.shown name).rows 2 indent)) := by
  induction status using subErrorsInduction generalizing indent with
  | node module errorList subErrors success_ induction =>
      have below := toList_appendSubErrors fun sub member => induction sub member (indent + 2)
      cases success_ with
      | true =>
          rw [appendTo, shown, if_pos rfl, if_pos rfl, Outline.rows, linesOf_cons, Heading.lines,
            List.cons_append, broken_cons]
          simp only [String.toList_append, toList_padding]
          simp [Heading.firstLine, Outline.rows.rowsIn, linesOf, broken]
      | false =>
          rw [appendTo, shown, if_neg Bool.false_ne_true, if_neg Bool.false_ne_true, Outline.rows,
            linesOf_cons, broken_append, ← below, Heading.lines, broken_cons]
          simp only [String.toList_append, toList_padding, toList_errorLines]
          simp [Heading.firstLine]

/-! ## Reading it back -/

/-- The name and the errors are single lines, and the name of a failed module does not end like the
line of a successful one. -/
structure Heading.Readable (heading : Heading) : Prop where
  name : '\n' ∉ heading.name.toList
  failed : ∀ errors, heading.errors = some errors →
    (∀ error ∈ errors, '\n' ∉ error.toList) ∧ ¬ " - OK".toList <:+ heading.name.toList

theorem firstLine_eq (indent : ℕ) (heading : Heading) :
    heading.firstLine indent = List.replicate indent ' ' ++ 'M' :: ("odule ".toList ++
      (heading.name.toList ++ if heading.errors.isNone then " - OK".toList else [])) := by
  have word : "Module ".toList = 'M' :: "odule ".toList := by decide
  rw [Heading.firstLine, word, List.append_assoc, List.append_assoc, List.cons_append]

theorem errorChars_eq (indent : ℕ) (error : String) :
    errorChars indent error =
      List.replicate (indent + indent) ' ' ++ '-' :: (' ' :: error.toList) := by
  have mark : "- ".toList = ['-', ' '] := by decide
  rw [errorChars, mark, List.append_assoc]
  rfl

theorem firstLine_inj {indent indent' : ℕ} {heading heading' : Heading}
    (readable : heading.Readable) (readable' : heading'.Readable)
    (same : heading.firstLine indent = heading'.firstLine indent') :
    indent = indent' ∧ heading.name = heading'.name ∧
      heading.errors.isNone = heading'.errors.isNone := by
  rw [firstLine_eq, firstLine_eq] at same
  obtain ⟨rfl, -, rest⟩ := Outline.indented_inj (by decide) (by decide) same
  have ends := List.append_cancel_left rest
  obtain ⟨name, errors⟩ := heading
  obtain ⟨name', errors'⟩ := heading'
  cases errors with
  | none =>
      cases errors' with
      | none => exact ⟨rfl, String.toList_inj.mp (List.append_cancel_right ends), rfl⟩
      | some errors' =>
          rw [Option.isNone_some, if_neg Bool.false_ne_true, List.append_nil] at ends
          exact absurd ⟨_, ends⟩ (readable'.failed errors' rfl).2
  | some errors =>
      cases errors' with
      | none =>
          rw [Option.isNone_some, if_neg Bool.false_ne_true, List.append_nil] at ends
          exact absurd ⟨_, ends.symm⟩ (readable.failed errors rfl).2
      | some errors' => exact ⟨rfl, String.toList_inj.mp (List.append_cancel_right ends), rfl⟩

theorem firstLine_ne_errorChars (indent indent' : ℕ) (heading : Heading) (error : String) :
    heading.firstLine indent ≠ errorChars indent' error := by
  intro same
  rw [firstLine_eq, errorChars_eq] at same
  have letters := (Outline.indented_inj (by decide) (by decide) same).2.1
  cases letters

theorem linesOf_ne_errorChars {rows : List (ℕ × Heading)} {indent : ℕ} {error : String}
    {lines : List (List Char)} : linesOf rows ≠ errorChars indent error :: lines := by
  cases rows with
  | nil => exact List.cons_ne_nil _ _ ∘ Eq.symm
  | cons row rows =>
      rw [linesOf_cons, Heading.lines, List.cons_append]
      intro same
      exact firstLine_ne_errorChars _ _ _ _ (List.cons.inj same).1

/-- The errors of a status end where the next status begins. -/
theorem errors_append_inj {indent : ℕ} {errors errors' : List String}
    {rows rows' : List (ℕ × Heading)}
    (same : errors.map (errorChars indent) ++ linesOf rows =
      errors'.map (errorChars indent) ++ linesOf rows') :
    errors = errors' ∧ linesOf rows = linesOf rows' := by
  induction errors generalizing errors' with
  | nil =>
      cases errors' with
      | nil => exact ⟨rfl, same⟩
      | cons error errors' => exact (linesOf_ne_errorChars same).elim
  | cons error errors induction =>
      cases errors' with
      | nil => exact (linesOf_ne_errorChars same.symm).elim
      | cons error' errors' =>
          obtain ⟨line, more⟩ := List.cons.inj same
          rw [errorChars_eq, errorChars_eq] at line
          have texts := (List.cons.inj (List.cons.inj (List.append_cancel_left line)).2).2
          obtain ⟨rfl, rest⟩ := induction more
          exact ⟨congrArg (· :: errors) (String.toList_inj.mp texts), rest⟩

/-- Different rows have different lines. -/
theorem linesOf_inj {rows rows' : List (ℕ × Heading)} (readable : ∀ row ∈ rows, row.2.Readable)
    (readable' : ∀ row ∈ rows', row.2.Readable) (same : linesOf rows = linesOf rows') :
    rows = rows' := by
  induction rows generalizing rows' with
  | nil =>
      cases rows' with
      | nil => rfl
      | cons row' rows' => cases same
  | cons row rows induction =>
      cases rows' with
      | nil => cases same
      | cons row' rows' =>
          obtain ⟨indent, name, errors⟩ := row
          obtain ⟨indent', name', errors'⟩ := row'
          rw [linesOf_cons, linesOf_cons] at same
          obtain ⟨line, more⟩ := List.cons.inj same
          obtain ⟨rfl, rfl, marks⟩ := firstLine_inj (readable _ List.mem_cons_self)
            (readable' _ List.mem_cons_self) line
          obtain ⟨listed, rest⟩ := errors_append_inj more
          obtain rfl := induction (fun row member => readable row (List.mem_cons_of_mem _ member))
            (fun row member => readable' row (List.mem_cons_of_mem _ member)) rest
          cases errors with
          | none =>
              cases errors' with
              | none => rfl
              | some errors' => cases marks
          | some errors =>
              cases errors' with
              | none => cases marks
              | some errors' =>
                  obtain rfl : errors = errors' := listed
                  rfl

theorem notMem_blanks (count : ℕ) : '\n' ∉ List.replicate count ' ' := fun member =>
  absurd (List.eq_of_mem_replicate member) (by decide)

theorem notMem_of_mem_lines {indent : ℕ} {heading : Heading} (readable : heading.Readable)
    {line : List Char} (member : line ∈ heading.lines indent) : '\n' ∉ line := by
  rcases List.mem_cons.mp member with rfl | later
  · rw [Heading.firstLine]
    simp only [List.mem_append, not_or]
    refine ⟨⟨⟨notMem_blanks indent, by decide⟩, readable.name⟩, ?_⟩
    split <;> decide
  · obtain ⟨error, inside, rfl⟩ := List.mem_map.mp later
    cases listed : heading.errors with
    | none =>
        rw [listed] at inside
        exact (List.not_mem_nil inside).elim
    | some errors =>
        rw [listed] at inside
        rw [errorChars]
        simp only [List.mem_append, not_or]
        exact ⟨⟨notMem_blanks _, by decide⟩, (readable.failed errors listed).1 error inside⟩

/-- Everything that is shown is readable. -/
def Readable (name : ModuleRef → String) (status : InitializationStatus ModuleRef) : Prop :=
  ∀ row ∈ (status.shown name).rows 2 0, row.2.Readable

variable {ModuleRef' : Type*} {name : ModuleRef → String} {name' : ModuleRef' → String}
  {status : InitializationStatus ModuleRef} {status' : InitializationStatus ModuleRef'}

theorem Readable.lines (readable : status.Readable name) :
    ∀ line ∈ [] :: linesOf ((status.shown name).rows 2 0), '\n' ∉ line := by
  intro line member
  rcases List.mem_cons.mp member with rfl | later
  · exact List.not_mem_nil
  · obtain ⟨row, inside, listed⟩ := List.mem_flatMap.mp later
    exact notMem_of_mem_lines (readable row inside) listed

theorem linesOf_rows_ne_nil (tree : Outline Heading) (indent : ℕ) :
    linesOf (tree.rows 2 indent) ≠ [] := by
  obtain ⟨heading, children⟩ := tree
  rw [Outline.rows, linesOf_cons, Heading.lines]
  exact List.cons_ne_nil _ _

/-- What is shown can be read off the text. -/
theorem shown_of_toString (readable : status.Readable name) (readable' : status'.Readable name')
    (same : status.toString name = status'.toString name') :
    status.shown name = status'.shown name' := by
  have texts : broken (linesOf ((status.shown name).rows 2 0)) =
      broken (linesOf ((status'.shown name').rows 2 0)) := by
    rw [← newline_appendTo, ← newline_appendTo]
    exact congrArg (fun text => '\n' :: text.toList) same
  rw [broken, broken, Pieces.flatMap_cons_eq_intercalate, Pieces.flatMap_cons_eq_intercalate]
    at texts
  have lines := Pieces.intercalate_injective readable.lines readable'.lines
    (fun lone => linesOf_rows_ne_nil _ _ (List.cons.inj lone).2)
    (fun lone => linesOf_rows_ne_nil _ _ (List.cons.inj lone).2) texts
  exact Outline.rows_injective Nat.zero_lt_two 0
    (linesOf_inj readable readable' (List.cons.inj lines).2)

theorem toString_of_shown (same : status.shown name = status'.shown name') :
    status.toString name = status'.toString name' := by
  have texts := newline_appendTo name status 0
  rw [same, ← newline_appendTo] at texts
  exact String.toList_inj.mp (List.cons.inj texts).2

/-! ## The errors of honest statuses -/

/-- The errors that are recorded at a place in a tree. -/
def errorsAt (path : List ℕ) (status : InitializationStatus ModuleRef) : List String :=
  (status.nodeAt path).elim [] errorList

/-- The errors that are shown for a place in a tree. -/
def shownErrors : List ℕ → Outline Heading → List String
  | [], .node heading _ => heading.errors.getD []
  | position :: path, .node _ children => children[position]?.elim [] (shownErrors path)

theorem shownIn_eq_map (name : ModuleRef → String)
    (subErrors : List (InitializationStatus ModuleRef)) :
    shown.shownIn name subErrors = subErrors.map (shown name) := by
  induction subErrors with
  | nil => rfl
  | cons first rest induction => rw [shown.shownIn, induction, List.map_cons]

theorem shownErrors_of_success (successful : status.success = true) (path : List ℕ) :
    shownErrors path (status.shown name) = [] := by
  obtain ⟨module, errorList, subErrors, success_⟩ := status
  obtain rfl : success_ = true := successful
  cases path with
  | nil => rfl
  | cons position path => rfl

theorem errorsAt_cons (position : ℕ) (path : List ℕ) (status : InitializationStatus ModuleRef) :
    status.errorsAt (position :: path) =
      status.subErrors[position]?.elim [] (errorsAt path) := by
  rw [errorsAt, nodeAt]
  cases status.subErrors[position]? <;> rfl

/-- An honest status shows all errors that are recorded in it. -/
theorem Honest.shownErrors_eq (honest : status.Honest) (name : ModuleRef → String)
    (path : List ℕ) : shownErrors path (status.shown name) = status.errorsAt path := by
  induction path generalizing status with
  | nil =>
      cases marked : status.success with
      | true =>
          rw [shownErrors_of_success marked]
          exact (honest.flag.mp marked).1.symm
      | false =>
          obtain ⟨module, errorList, subErrors, success_⟩ := status
          obtain rfl : success_ = false := marked
          rfl
  | cons position path induction =>
      rw [errorsAt_cons]
      cases marked : status.success with
      | true =>
          rw [shownErrors_of_success marked]
          cases found : status.subErrors[position]? with
          | none => rfl
          | some sub =>
              have member := List.mem_of_getElem? found
              have silent : shownErrors path (sub.shown name) = [] :=
                shownErrors_of_success ((honest.flag.mp marked).2 sub member) path
              exact silent.symm.trans (induction (honest.subs sub member))
      | false =>
          obtain ⟨module, errorList, subErrors, success_⟩ := status
          obtain rfl : success_ = false := marked
          rw [shown, if_neg Bool.false_ne_true, shownErrors, shownIn_eq_map, List.getElem?_map]
          cases found : subErrors[position]? with
          | none => rfl
          | some sub => exact induction (honest.subs sub (List.mem_of_getElem? found))

/-- Two readable texts are the same if and only if they show the same modules with the same errors.
Two honest statuses with the same text have the same errors at the same places. -/
theorem toString_tells (readable : status.Readable name) (readable' : status'.Readable name') :
    (status.toString name = status'.toString name' ↔
      status.shown name = status'.shown name') ∧
    (status.Honest → status'.Honest → status.toString name = status'.toString name' →
      ∀ path, status.errorsAt path = status'.errorsAt path) := by
  refine ⟨⟨shown_of_toString readable readable', toString_of_shown⟩, ?_⟩
  intro honest honest' same path
  rw [← honest.shownErrors_eq name, ← honest'.shownErrors_eq name',
    shown_of_toString readable readable' same]

/-- A context with a module that has failed. -/
def lostBelow : InitializationStatus Unit :=
  (ok none).emplaceSubError (ofErrors (some ()) ["lost"])

/-- A context that has failed itself. -/
def lostAbove : InitializationStatus Unit := ofErrors none ["lost"]

theorem toString_tells_lost :
    (lostBelow.toString (fun _ => "m") = lostAbove.toString (fun _ => "m") ↔
      lostBelow.shown (fun _ => "m") = lostAbove.shown (fun _ => "m")) ∧
    (lostBelow.Honest → lostAbove.Honest →
      lostBelow.toString (fun _ => "m") = lostAbove.toString (fun _ => "m") →
        ∀ path, lostBelow.errorsAt path = lostAbove.errorsAt path) := by
  have readable : ∀ name errors, name = "<null>" ∨ name = "m" → errors = [] ∨ errors = ["lost"] →
      Heading.Readable ⟨name, some errors⟩ := by
    rintro name errors (rfl | rfl) (rfl | rfl)
    all_goals
      constructor
      · decide
      · rintro errors ⟨⟩
        decide
  refine toString_tells ?_ ?_
  · rintro row (_ | ⟨_, _ | ⟨_, ⟨⟩⟩⟩)
    · exact readable _ _ (.inl rfl) (.inl rfl)
    · exact readable _ _ (.inr rfl) (.inr rfl)
  · rintro row (_ | ⟨_, ⟨⟩⟩)
    exact readable _ _ (.inl rfl) (.inr rfl)

end InitializationStatus

end Simo
