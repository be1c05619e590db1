import Mathlib.Data.List.Basic
import Simo.Core.InitializationStatus
import Simo.Support.Transition

/-!
# Trees of statuses

`emplace_sub_error` returns a reference to the new sub-status, and the sub-status can be changed
through it.  The flag of a status is computed when something is added to the status itself, so the
statuses above it keep the flags that they have.  They stay right as long as no sub-status of a
successful status is made to fail.
-/

namespace Simo

section Modify

variable {α : Type*} {P : α → Prop} {list : List α} {position : ℕ} {member : α}

/-- What holds of all members holds of the one at a position and of those at the others. -/
theorem forall_mem_iff_at (found : list[position]? = some member) :
    (∀ a ∈ list, P a) ↔ P member ∧ ∀ other a, other ≠ position → list[other]? = some a → P a := by
  constructor
  · intro all
    exact ⟨all member (List.mem_of_getElem? found), fun other a _ here =>
      all a (List.mem_of_getElem? here)⟩
  · rintro ⟨own, others⟩ a inside
    obtain ⟨other, here⟩ := List.mem_iff_getElem?.mp inside
    rcases eq_or_ne other position with rfl | apart
    · exact Option.some.inj (found.symm.trans here) ▸ own
    · exact others other a apart here

theorem forall_mem_modify_iff (change : α → α) (found : list[position]? = some member) :
    (∀ a ∈ list.modify position change, P a) ↔
      P (change member) ∧ ∀ other a, other ≠ position → list[other]? = some a → P a := by
  have changed : (list.modify position change)[position]? = some (change member) := by
    rw [List.getElem?_modify_eq, found]
    rfl
  rw [forall_mem_iff_at changed]
  refine and_congr_right fun _ => forall₂_congr fun other a => forall_congr' fun apart => ?_
  rw [List.getElem?_modify_ne _ _ apart.symm]

end Modify

namespace InitializationStatus

variable {ModuleRef : Type*}

/-! ## Nodes -/

/-- The status that is reached by going down through the sub-statuses with these positions. -/
def nodeAt : List ℕ → InitializationStatus ModuleRef → Option (InitializationStatus ModuleRef)
  | [], status => some status
  | position :: path, status => status.subErrors[position]?.bind (nodeAt path)

/-- A change of one status; those above it keep their fields. -/
def alter (change : InitializationStatus ModuleRef → InitializationStatus ModuleRef) :
    List ℕ → InitializationStatus ModuleRef → InitializationStatus ModuleRef
  | [], status => change status
  | position :: path, status =>
      { status with subErrors := status.subErrors.modify position (alter change path) }

theorem nodeAt_cons_eq_some {position : ℕ} {path : List ℕ}
    {status node : InitializationStatus ModuleRef} :
    nodeAt (position :: path) status = some node ↔
      ∃ sub, status.subErrors[position]? = some sub ∧ nodeAt path sub = some node := by
  rw [nodeAt, Option.bind_eq_some_iff]

theorem nodeAt_append (path rest : List ℕ) (status : InitializationStatus ModuleRef) :
    nodeAt (path ++ rest) status = (nodeAt path status).bind (nodeAt rest) := by
  induction path generalizing status with
  | nil => rfl
  | cons position path induction =>
      rw [List.cons_append, nodeAt, nodeAt, Option.bind_assoc]
      exact congrArg _ (funext induction)

/-! ## Honest statuses -/

/-- At every node the flag says whether there is no error and all sub-statuses are successful. -/
inductive Honest : InitializationStatus ModuleRef → Prop
  | node {status : InitializationStatus ModuleRef}
      (flag : status.success = true ↔
        status.errorList = [] ∧ ∀ sub ∈ status.subErrors, sub.success = true)
      (subs : ∀ sub ∈ status.subErrors, Honest sub) : Honest status

namespace Honest

variable {status node : InitializationStatus ModuleRef}

theorem flag (honest : status.Honest) : status.success = true ↔
    status.errorList = [] ∧ ∀ sub ∈ status.subErrors, sub.success = true := by
  cases honest with
  | node flag _ => exact flag

theorem subs (honest : status.Honest) : ∀ sub ∈ status.subErrors, sub.Honest := by
  cases honest with
  | node _ subs => exact subs

theorem ofErrors (module : Option ModuleRef) (errorList : List String) :
    (InitializationStatus.ofErrors module errorList).Honest :=
  .node (by simp [success, InitializationStatus.ofErrors]) (by simp [InitializationStatus.ofErrors])

theorem addError (honest : status.Honest) (newError : String) :
    (status.addError newError).Honest :=
  .node (by simp [InitializationStatus.addError, success]) honest.subs

theorem emplaceSubError {sub : InitializationStatus ModuleRef} (honest : status.Honest)
    (subHonest : sub.Honest) : (status.emplaceSubError sub).Honest := by
  apply node
  · rw [success_emplaceSubError, Bool.and_eq_true, honest.flag]
    simp only [InitializationStatus.emplaceSubError, List.forall_mem_append,
      List.forall_mem_singleton, and_assoc]
  · simp only [InitializationStatus.emplaceSubError, List.forall_mem_append,
      List.forall_mem_singleton]
    exact ⟨honest.subs, subHonest⟩

theorem nodeAt {path : List ℕ} (honest : status.Honest)
    (found : status.nodeAt path = some node) : node.Honest := by
  induction path generalizing status with
  | nil => exact Option.some.inj found ▸ honest
  | cons position path induction =>
      obtain ⟨sub, member, deeper⟩ := nodeAt_cons_eq_some.mp found
      exact induction (honest.subs sub (List.mem_of_getElem? member)) deeper

/-- A failure shows at every status above it. -/
theorem failed_of_nodeAt {path : List ℕ} (honest : status.Honest)
    (found : status.nodeAt path = some node) (failed : node.success = false) :
    status.success = false := by
  induction path generalizing status with
  | nil => exact Option.some.inj found ▸ failed
  | cons position path induction =>
      obtain ⟨sub, member, deeper⟩ := nodeAt_cons_eq_some.mp found
      have inside := List.mem_of_getElem? member
      rw [← Bool.not_eq_true, honest.flag]
      rintro ⟨-, successful⟩
      exact absurd (successful sub inside)
        (Bool.not_eq_true _ ▸ induction (honest.subs sub inside) deeper)

/-- Changing one sub-status keeps a status honest if the sub-status is honest afterwards and has not
failed by the change, or the status is unsuccessful anyway. -/
theorem modify_iff {position : ℕ} {sub : InitializationStatus ModuleRef}
    {change : InitializationStatus ModuleRef → InitializationStatus ModuleRef}
    (honest : status.Honest) (found : status.subErrors[position]? = some sub)
    (monotone : (change sub).success = true → sub.success = true) :
    Honest { status with subErrors := status.subErrors.modify position change } ↔
      (change sub).Honest ∧ ((change sub).success = sub.success ∨ status.success = false) := by
  have flag := honest.flag
  rw [forall_mem_iff_at found] at flag
  obtain ⟨-, others⟩ := (forall_mem_iff_at found).mp honest.subs
  constructor
  · intro still
    have flag' := still.flag
    rw [forall_mem_modify_iff change found] at flag'
    refine ⟨((forall_mem_modify_iff change found).mp still.subs).1, ?_⟩
    cases failed : status.success with
    | false => exact .inr rfl
    | true =>
        left
        rw [(flag'.mp failed).2.1, (flag.mp failed).2.1]
  · rintro ⟨own, kept⟩
    apply node
    · rw [forall_mem_modify_iff change found]
      change status.success = true ↔ _
      rcases kept with same | failed
      · rw [same]
        exact flag
      · have nothing := flag.not.mp (by simp [failed])
        rw [flag]
        constructor
        · exact fun all => absurd all nothing
        · rintro ⟨clean, still, successful⟩
          exact absurd ⟨clean, monotone still, successful⟩ nothing
    · exact (forall_mem_modify_iff change found).mpr ⟨own, others⟩

end Honest

/-- The node at a path is the root, or the node above it is unsuccessful. -/
def MayFail (path : List ℕ) (status : InitializationStatus ModuleRef) : Prop :=
  path = [] ∨ ∃ parent, status.nodeAt path.dropLast = some parent ∧ parent.success = false

theorem mayFail_cons_cons {position next : ℕ} {path : List ℕ}
    {status sub : InitializationStatus ModuleRef}
    (found : status.subErrors[position]? = some sub) :
    MayFail (position :: next :: path) status ↔ MayFail (next :: path) sub := by
  simp only [MayFail, List.dropLast_cons_cons, nodeAt_cons_eq_some, found, Option.some_inj,
    exists_eq_left', reduceCtorEq, false_or]

namespace Honest

variable {status node : InitializationStatus ModuleRef}
  {change : InitializationStatus ModuleRef → InitializationStatus ModuleRef}

/-- Where something has failed, the node above is unsuccessful too. -/
theorem mayFail {path : List ℕ} (honest : status.Honest)
    (found : status.nodeAt path = some node) (failed : node.success = false) :
    MayFail path status := by
  rcases List.eq_nil_or_concat' path with rfl | ⟨above, position, rfl⟩
  · exact .inl rfl
  · rw [nodeAt_append] at found
    obtain ⟨parent, reached, last⟩ := Option.bind_eq_some_iff.mp found
    rw [MayFail, List.dropLast_concat]
    exact .inr ⟨parent, reached, (honest.nodeAt reached).failed_of_nodeAt last failed⟩

theorem monotone_alter (monotone : ∀ status, (change status).success = true →
    status.success = true) (path : List ℕ) (status : InitializationStatus ModuleRef) :
    (alter change path status).success = true → status.success = true := by
  cases path with
  | nil => exact monotone status
  | cons position path => exact id

/-- A change of one node keeps a tree honest if it does not make the node fail below a successful
one. -/
theorem alter_iff {path : List ℕ} (honest : status.Honest)
    (found : status.nodeAt path = some node) (changed : (change node).Honest)
    (monotone : ∀ status, (change status).success = true → status.success = true) :
    (alter change path status).Honest ↔
      (change node).success = node.success ∨ MayFail path status := by
  induction path generalizing status with
  | nil =>
      obtain rfl := Option.some.inj found
      exact ⟨fun _ => .inr (.inl rfl), fun _ => changed⟩
  | cons position path induction =>
      obtain ⟨sub, member, deeper⟩ := nodeAt_cons_eq_some.mp found
      have subHonest := honest.subs sub (List.mem_of_getElem? member)
      rw [alter, honest.modify_iff member (monotone_alter monotone path sub)]
      cases path with
      | nil =>
          obtain rfl := Option.some.inj deeper
          simp [alter, changed, MayFail, InitializationStatus.nodeAt]
      | cons next path =>
          rw [induction subHonest deeper, mayFail_cons_cons member]
          exact and_iff_left (.inl rfl)

end Honest

/-! ## The printed errors -/

/-- The text occurs in a text. -/
def Prints (out text : String) : Prop := ∃ before after, out = before ++ text ++ after

theorem Prints.between {out text : String} (prints : Prints out text) (before after : String) :
    Prints (before ++ out ++ after) text := by
  obtain ⟨front, back, rfl⟩ := prints
  exact ⟨before ++ front, back ++ after, by simp only [String.append_assoc]⟩

theorem Prints.trans {out middle text : String} (first : Prints out middle)
    (second : Prints middle text) : Prints out text := by
  obtain ⟨before, after, rfl⟩ := first
  exact second.between before after

theorem prints_errorLines {indent : ℕ} {errorList : List String} {error : String}
    (member : error ∈ errorList) :
    Prints (errorLines indent errorList) (errorLine indent error) := by
  induction errorList with
  | nil => exact (List.not_mem_nil member).elim
  | cons first rest induction =>
      rw [errorLines]
      rcases List.mem_cons.mp member with rfl | later
      · exact ⟨"", errorLines indent rest, by simp⟩
      · have shown := (induction later).between (errorLine indent first) ""
        rwa [String.append_empty] at shown

theorem prints_appendSubErrors {name : ModuleRef → String} {indent : ℕ}
    {subErrors : List (InitializationStatus ModuleRef)} {sub : InitializationStatus ModuleRef}
    (member : sub ∈ subErrors) :
    Prints (appendTo.appendSubErrors name indent subErrors) (sub.appendTo name (indent + 2)) := by
  induction subErrors with
  | nil => exact (List.not_mem_nil member).elim
  | cons first rest induction =>
      rw [appendTo.appendSubErrors]
      rcases List.mem_cons.mp member with rfl | later
      · exact ⟨"\n", appendTo.appendSubErrors name indent rest, rfl⟩
      · have shown := (induction later).between ("\n" ++ first.appendTo name (indent + 2)) ""
        rwa [String.append_empty] at shown

theorem appendTo_of_failed {name : ModuleRef → String} (indent : ℕ)
    {status : InitializationStatus ModuleRef} (failed : status.success = false) :
    status.appendTo name indent =
      padding indent ++ "Module " ++ (status.module.map name).getD "<null>" ++
        errorLines indent status.errorList ++
        appendTo.appendSubErrors name indent status.subErrors := by
  obtain ⟨module, errorList, subErrors, success_⟩ := status
  obtain rfl : success_ = false := failed
  rfl

/-- An honest status prints the errors of all nodes below it. -/
theorem Honest.prints (name : ModuleRef → String) {path : List ℕ}
    {status node : InitializationStatus ModuleRef} {error : String} (honest : status.Honest)
    (found : status.nodeAt path = some node) (member : error ∈ node.errorList) (indent : ℕ) :
    Prints (status.appendTo name indent) (errorLine (indent + 2 * path.length) error) := by
  have nodeFailed : node.success = false := by
    rw [← Bool.not_eq_true, (honest.nodeAt found).flag]
    rintro ⟨clean, -⟩
    exact List.not_mem_nil (clean ▸ member)
  induction path generalizing status indent with
  | nil =>
      obtain rfl := Option.some.inj found
      rw [appendTo_of_failed indent nodeFailed]
      exact (prints_errorLines member).between _ _
  | cons position path induction =>
      have failed := honest.failed_of_nodeAt found nodeFailed
      obtain ⟨sub, inside, deeper⟩ := nodeAt_cons_eq_some.mp found
      have subMember := List.mem_of_getElem? inside
      have shown := induction (honest.subs sub subMember) deeper (indent + 2)
      have length : indent + 2 * (position :: path).length = indent + 2 + 2 * path.length := by
        rw [List.length_cons]
        omega
      rw [appendTo_of_failed indent failed, length]
      refine Prints.trans ?_ ((prints_appendSubErrors subMember).trans shown)
      exact ⟨_, "", String.append_empty.symm⟩

/-! ## Runs -/

/-- A status that a program can name: a status object, or a sub-status below it that has been
reached through references. -/
structure Node where
  root : ℕ
  path : List ℕ

namespace Node

def find (node : Node) (roots : List (InitializationStatus ModuleRef)) :
    Option (InitializationStatus ModuleRef) :=
  roots[node.root]?.bind (nodeAt node.path)

def MayFail (node : Node) (roots : List (InitializationStatus ModuleRef)) : Prop :=
  ∃ status, roots[node.root]? = some status ∧ InitializationStatus.MayFail node.path status

end Node

/-- The arguments of a constructor; `ok` gives no errors. -/
inductive Arguments (ModuleRef : Type*) where
  | errors (module : Option ModuleRef) (errorList : List String)
  | copy (other : Node)

/-- The status that is constructed. -/
def Arguments.status (roots : List (InitializationStatus ModuleRef)) :
    Arguments ModuleRef → Option (InitializationStatus ModuleRef)
  | errors module errorList => some (.ofErrors module errorList)
  | copy other => other.find roots

/-- The calls that build trees. -/
inductive Event (ModuleRef : Type*) where
  | construct (args : Arguments ModuleRef)
  | addError (node : Node) (newError : String)
  | emplaceSubError (node : Node) (args : Arguments ModuleRef)

/-- A call for the status objects of a program, if what it names exists. -/
def perform (roots : List (InitializationStatus ModuleRef)) :
    Event ModuleRef → Option (List (InitializationStatus ModuleRef))
  | .construct args => (args.status roots).map fun status => roots ++ [status]
  | .addError node newError => (node.find roots).map fun _ =>
      roots.modify node.root (alter (·.addError newError) node.path)
  | .emplaceSubError node args => (node.find roots).bind fun _ => (args.status roots).map fun sub =>
      roots.modify node.root (alter (·.emplaceSubError sub) node.path)

def Step (before : List (InitializationStatus ModuleRef)) (event : Event ModuleRef)
    (after : List (InitializationStatus ModuleRef)) : Prop :=
  perform before event = some after

/-- Every flag of every tree is right, and every tree prints all errors that are recorded in it. -/
def Truthful (name : ModuleRef → String) (roots : List (InitializationStatus ModuleRef)) : Prop :=
  ∀ status ∈ roots, status.Honest ∧ ∀ path node error, status.nodeAt path = some node →
    error ∈ node.errorList → Prints (status.toString name) (errorLine (2 * path.length) error)

/-- A status that fails by the call is a root, or the status above it is unsuccessful already. -/
def FailsVisibly (call : Transition (List (InitializationStatus ModuleRef)) (Event ModuleRef)) :
    Prop :=
  match call.label with
  | .construct _ => True
  | .addError node _ => node.MayFail call.source
  | .emplaceSubError node args =>
      (∃ sub, args.status call.source = some sub ∧ sub.success = true) ∨ node.MayFail call.source

section Run

variable {roots : List (InitializationStatus ModuleRef)}

theorem truthful_iff (name : ModuleRef → String) :
    Truthful name roots ↔ ∀ status ∈ roots, status.Honest := by
  refine forall₂_congr fun status _ => ⟨And.left, fun honest => ⟨honest, ?_⟩⟩
  intro path node error found member
  have shown := honest.prints name found member 0
  rwa [Nat.zero_add] at shown

theorem honest_of_find {node : Node} {status : InitializationStatus ModuleRef}
    (honest : ∀ status ∈ roots, status.Honest) (found : node.find roots = some status) :
    status.Honest := by
  obtain ⟨root, member, below⟩ := Option.bind_eq_some_iff.mp found
  exact (honest root (List.mem_of_getElem? member)).nodeAt below

theorem honest_of_arguments {args : Arguments ModuleRef} {status : InitializationStatus ModuleRef}
    (honest : ∀ status ∈ roots, status.Honest) (built : args.status roots = some status) :
    status.Honest := by
  cases args with
  | errors module errorList => exact Option.some.inj built ▸ Honest.ofErrors module errorList
  | copy other => exact honest_of_find honest built

/-- A change at a node keeps all trees honest if the node does not fail, or may. -/
theorem honest_modify_iff {node : Node} {status : InitializationStatus ModuleRef}
    {change : InitializationStatus ModuleRef → InitializationStatus ModuleRef}
    (honest : ∀ status ∈ roots, status.Honest) (found : node.find roots = some status)
    (changed : (change status).Honest)
    (monotone : ∀ status, (change status).success = true → status.success = true) :
    (∀ status ∈ roots.modify node.root (alter change node.path), status.Honest) ↔
      (change status).success = status.success ∨ node.MayFail roots := by
  obtain ⟨root, member, below⟩ := Option.bind_eq_some_iff.mp found
  have may : node.MayFail roots ↔ MayFail node.path root := by
    rw [Node.MayFail, member]
    simp
  rw [may, ← (honest root (List.mem_of_getElem? member)).alter_iff below changed monotone,
    forall_mem_modify_iff _ member]
  exact and_iff_left ((forall_mem_iff_at member).mp honest).2

/-- One call keeps all trees honest if and only if it makes nothing fail below a successful
status. -/
theorem honest_iff_failsVisibly {before after : List (InitializationStatus ModuleRef)}
    {event : Event ModuleRef} (taken : Step before event after)
    (honest : ∀ status ∈ before, status.Honest) :
    (∀ status ∈ after, status.Honest) ↔ FailsVisibly ⟨before, event, after⟩ := by
  -- What has failed before may fail, so only a status that fails by the call matters.
  have visible : ∀ {node : Node} {status : InitializationStatus ModuleRef},
      node.find before = some status → status.success = false → node.MayFail before := by
    intro node status found failed
    obtain ⟨root, member, below⟩ := Option.bind_eq_some_iff.mp found
    exact ⟨root, member, (honest root (List.mem_of_getElem? member)).mayFail below failed⟩
  cases event with
  | construct args =>
      obtain ⟨status, built, rfl⟩ := Option.map_eq_some_iff.mp taken
      have own := honest_of_arguments honest built
      refine iff_of_true ?_ trivial
      rw [List.forall_mem_append, List.forall_mem_singleton]
      exact ⟨honest, own⟩
  | addError node newError =>
      obtain ⟨status, found, rfl⟩ := Option.map_eq_some_iff.mp taken
      rw [honest_modify_iff honest found ((honest_of_find honest found).addError newError)
        fun _ failed => by simp at failed]
      change _ ↔ node.MayFail before
      constructor
      · rintro (same | may)
        · exact visible found same.symm
        · exact may
      · exact .inr
  | emplaceSubError node args =>
      obtain ⟨status, found, emplaced⟩ := Option.bind_eq_some_iff.mp taken
      obtain ⟨sub, built, rfl⟩ := Option.map_eq_some_iff.mp emplaced
      have changed :=
        (honest_of_find honest found).emplaceSubError (honest_of_arguments honest built)
      have monotone : ∀ status : InitializationStatus ModuleRef,
          (status.emplaceSubError sub).success = true → status.success = true :=
        fun status successful => (Bool.and_eq_true_iff.mp successful).1
      rw [honest_modify_iff honest found changed monotone]
      change _ ↔ (∃ sub, args.status before = some sub ∧ sub.success = true) ∨ node.MayFail before
      rw [built, success_emplaceSubError]
      simp only [Option.some_inj, exists_eq_left']
      constructor
      · rintro (same | may)
        · cases failed : status.success with
          | true => exact .inl (by simpa [failed] using same)
          | false => exact .inr (visible found failed)
        · exact .inr may
      · rintro (successful | may)
        · exact .inl (by simp [successful])
        · exact .inr may

/-- In every run of calls, all trees are truthful after each of them if and only if every call that
makes a status fail is made for a root or below a status that is unsuccessful already. -/
theorem truthful_throughout_iff (name : ModuleRef → String)
    {calls : List (Transition (List (InitializationStatus ModuleRef)) (Event ModuleRef))}
    {final : List (InitializationStatus ModuleRef)} (path : StepPath Step [] calls final) :
    (∀ call ∈ calls, Truthful name call.target) ↔ ∀ call ∈ calls, FailsVisibly call := by
  simp only [truthful_iff]
  exact path.forall_target_iff_of_step (by simp) fun _ _ _ => honest_iff_failsVisibly

end Run

/-- The status of a context with a sub-status for a module. -/
def nested : InitializationStatus Unit := (ok none).emplaceSubError (ok (some ()))

/-- The same after an error of the module. -/
def nestedError : InitializationStatus Unit := nested.alter (·.addError "lost") [0]

/-- An error is added through the reference to a successful sub-status. -/
theorem path_nestedError : StepPath Step []
    [⟨[], .construct (.errors none []), [ok none]⟩,
      ⟨[ok none], .emplaceSubError ⟨0, []⟩ (.errors (some ()) []), [nested]⟩,
      ⟨[nested], .addError ⟨0, [0]⟩ "lost", [nestedError]⟩] [nestedError] :=
  .snoc (.snoc (.snoc .nil rfl) rfl) rfl

theorem truthful_throughout_iff_nestedError :
    ∃ calls, StepPath Step [] calls [nestedError] ∧
      ((∀ call ∈ calls, Truthful (fun _ => "m") call.target) ↔
        ∀ call ∈ calls, FailsVisibly call) :=
  ⟨_, path_nestedError, truthful_throughout_iff (fun _ => "m") path_nestedError⟩

/-- The status of the context still reports success, and does not print the error. -/
theorem not_truthful_nestedError :
    (∃ calls, StepPath Step [] calls [nestedError]) ∧
      (∃ sub, nestedError.nodeAt [0] = some sub ∧ sub.errorList = ["lost"] ∧
        sub.success = false) ∧
      nestedError.success = true ∧
      nestedError.toString (fun _ => "m") = "Module <null> - OK" ∧
      ¬ Truthful (fun _ => "m") [nestedError] := by
  refine ⟨⟨_, path_nestedError⟩, ⟨_, rfl, rfl, rfl⟩, rfl, by decide, fun truthful => ?_⟩
  have honest := (truthful nestedError List.mem_cons_self).1
  have reached : nestedError.nodeAt [0] = some ((ok (some ())).addError "lost") := rfl
  cases honest.failed_of_nodeAt reached rfl

end InitializationStatus
end Simo
