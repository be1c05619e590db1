import Mathlib.Algebra.GroupWithZero.Nat
import Mathlib.Data.List.Basic
import Mathlib.Logic.Relation
import Mathlib.Order.WellFounded

/-!
# Transition paths and bounded loops

A `StepPath` is a finite history of labelled transitions that keeps every intermediate state, so
that a property of all steps of a run is a property of the members of one list.  A `Loop` is a
`while` loop given by the function that performs one pass; it is executed with a bound on the number
of passes, and `Loop.Returns` forgets the bound.
-/

/-- One labelled step of a transition system, with both of its states. -/
structure Transition (σ α : Type*) where
  /-- State before the step. -/
  source : σ
  /-- What happened. -/
  label : α
  /-- State after the step. -/
  target : σ

/-- Finite histories of a labelled transition relation, oldest step first. -/
inductive StepPath {σ α : Type*} (step : σ → α → σ → Prop) (start : σ) :
    List (Transition σ α) → σ → Prop
  | nil : StepPath step start [] start
  | snoc {steps : List (Transition σ α)} {before after : σ} {label : α} :
      StepPath step start steps before → step before label after →
      StepPath step start (steps ++ [⟨before, label, after⟩]) after

namespace StepPath

variable {σ α : Type*} {step : σ → α → σ → Prop} {start final : σ}
  {steps : List (Transition σ α)}

/-- Every member of a path is a step of the relation. -/
theorem step_of_mem (path : StepPath step start steps final) {transition : Transition σ α}
    (member : transition ∈ steps) :
    step transition.source transition.label transition.target := by
  induction path with
  | nil => simp at member
  | snoc _ last induction =>
      rcases List.mem_append.mp member with earlier | latest
      · exact induction earlier
      · rw [List.mem_singleton.mp latest]
        exact last

/-- An empty path stays where it starts. -/
theorem nil_eq (path : StepPath step start [] final) : start = final := by
  generalize listed : [] = steps at path
  cases path with
  | nil => rfl
  | snoc => simp at listed

/-- A path whose steps are also steps of another relation. -/
theorem imp {other : σ → α → σ → Prop} (path : StepPath step start steps final)
    (sub : ∀ before label after, step before label after → other before label after) :
    StepPath other start steps final := by
  induction path with
  | nil => exact .nil
  | snoc earlier taken induction => exact .snoc induction (sub _ _ _ taken)

/-- Concatenate two paths. -/
theorem append {middle : σ} {more : List (Transition σ α)} (left : StepPath step start steps middle)
    (right : StepPath step middle more final) : StepPath step start (steps ++ more) final := by
  induction right with
  | nil => simpa using left
  | snoc _ last induction =>
      rw [← List.append_assoc]
      exact .snoc induction last

/-- Prepend one step. -/
theorem cons {before : σ} {label : α} (first : step before label start)
    (path : StepPath step start steps final) :
    StepPath step before (⟨before, label, start⟩ :: steps) final :=
  append (.snoc .nil first) path

/-- The invariant rule: what every step of the path preserves holds around all of them. -/
theorem invariant {Inv : σ → Prop} (path : StepPath step start steps final) (initially : Inv start)
    (preserved : ∀ transition ∈ steps, Inv transition.source → Inv transition.target) :
    Inv final ∧ ∀ transition ∈ steps, Inv transition.source ∧ Inv transition.target := by
  induction path with
  | nil => exact ⟨initially, by simp⟩
  | @snoc steps before after label _ _ induction =>
      obtain ⟨reached, earlier⟩ := induction fun transition member =>
        preserved transition (List.mem_append_left _ member)
      have latest : Inv after := preserved ⟨before, label, after⟩ (by simp) reached
      refine ⟨latest, fun transition member => ?_⟩
      rcases List.mem_append.mp member with old | new
      · exact earlier transition old
      · rw [List.mem_singleton.mp new]
        exact ⟨reached, latest⟩

/-- The invariant rule for what every step of the relation preserves. -/
theorem invariant_of_step {Inv : σ → Prop} (path : StepPath step start steps final)
    (initially : Inv start)
    (preserved : ∀ before label after, Inv before → step before label after → Inv after) :
    Inv final :=
  (path.invariant initially fun _ member before =>
    preserved _ _ _ before (path.step_of_mem member)).1

/-- The potential method: if every step pays for its cost with its budget and with what it takes
from a potential, the budgets pay for the whole path. -/
theorem amortized (path : StepPath step start steps final) (potential : σ → ℕ)
    (cost budget : Transition σ α → ℕ)
    (pays : ∀ transition ∈ steps,
      cost transition + potential transition.target ≤
        potential transition.source + budget transition) :
    (steps.map cost).sum + potential final ≤ potential start + (steps.map budget).sum := by
  induction path with
  | nil => simp
  | @snoc steps before after label _ _ induction =>
      have earlier := induction fun transition member =>
        pays transition (List.mem_append_left _ member)
      have latest := pays ⟨before, label, after⟩ (List.mem_append_right _ List.mem_cons_self)
      dsimp only at latest
      simp only [List.map_append, List.map_cons, List.map_nil, List.sum_append, List.sum_cons,
        List.sum_nil]
      omega

/-- Where, under an invariant, the steps from good states are good exactly when they obey a law, and
lead to good states again, the paths of good steps are those whose steps all obey the law. -/
theorem forall_step_iff {Aux Inv : σ → Prop} {good law : Transition σ α → Prop}
    (path : StepPath step start steps final) (auxiliary : Aux start) (initially : Inv start)
    (kept : ∀ before label after, Aux before → step before label after → Aux after)
    (leads : ∀ before label after, Aux before → step before label after → Inv before →
      good ⟨before, label, after⟩ → Inv after)
    (agree : ∀ before label after, Aux before → step before label after → Inv before →
      (good ⟨before, label, after⟩ ↔ law ⟨before, label, after⟩)) :
    (∀ transition ∈ steps, good transition) ↔ ∀ transition ∈ steps, law transition := by
  have supported := (path.invariant auxiliary fun transition member before =>
    kept _ _ _ before (path.step_of_mem member)).2
  have here : ∀ transition ∈ steps, Inv transition.source →
      (good transition ↔ law transition) := fun transition member =>
    agree _ _ _ (supported transition member).1 (path.step_of_mem member)
  constructor
  · intro throughout transition member
    have around := (path.invariant initially fun transition member before =>
      leads _ _ _ (supported transition member).1 (path.step_of_mem member) before
        (throughout transition member)).2 transition member
    exact (here transition member around.1).mp (throughout transition member)
  · intro obeyed transition member
    have around := (path.invariant initially fun transition member before =>
      leads _ _ _ (supported transition member).1 (path.step_of_mem member) before
        ((here transition member before).mpr (obeyed transition member))).2 transition member
    exact (here transition member around.1).mpr (obeyed transition member)

/-- The same for a property of the states alone. -/
theorem forall_target_iff {Aux Inv : σ → Prop} {law : Transition σ α → Prop}
    (path : StepPath step start steps final) (auxiliary : Aux start) (initially : Inv start)
    (kept : ∀ before label after, Aux before → step before label after → Aux after)
    (agree : ∀ before label after, Aux before → step before label after → Inv before →
      (Inv after ↔ law ⟨before, label, after⟩)) :
    (∀ transition ∈ steps, Inv transition.target) ↔ ∀ transition ∈ steps, law transition :=
  path.forall_step_iff auxiliary initially kept (fun _ _ _ _ _ _ => id) agree

/-- The same where no other invariant is needed. -/
theorem forall_target_iff_of_step {Inv : σ → Prop} {law : Transition σ α → Prop}
    (path : StepPath step start steps final) (initially : Inv start)
    (agree : ∀ before label after, step before label after → Inv before →
      (Inv after ↔ law ⟨before, label, after⟩)) :
    (∀ transition ∈ steps, Inv transition.target) ↔ ∀ transition ∈ steps, law transition :=
  have auxiliary : (fun _ : σ => True) start := trivial
  path.forall_target_iff auxiliary initially (fun _ _ _ _ _ => trivial)
    fun before label after _ => agree before label after

/-- The part of a path that can be seen through a function of the states: steps with an image are
steps of the other relation, and the others are not seen. -/
theorem exists_image {τ β : Type*} {step' : τ → β → τ → Prop} (view : σ → τ)
    (image : α → Option β)
    (each : ∀ before label after, step before label after →
      (∃ event, image label = some event ∧ step' (view before) event (view after)) ∨
        (image label = none ∧ view after = view before))
    (path : StepPath step start steps final) :
    ∃ visible, StepPath step' (view start) visible (view final) ∧
      visible.map Transition.label = (steps.map Transition.label).filterMap image := by
  induction path with
  | nil => exact ⟨[], .nil, rfl⟩
  | @snoc steps before after label _ last induction =>
      obtain ⟨visible, shorter, labels⟩ := induction
      rcases each before label after last with ⟨event, shown, taken⟩ | ⟨silent, same⟩
      · exact ⟨_, .snoc shorter taken, by simp [labels, shown]⟩
      · rw [same]
        exact ⟨visible, shorter, by simp [labels, silent]⟩

/-- The first step of a path and the rest. -/
theorem of_cons {first : Transition σ α} (path : StepPath step start (first :: steps) final) :
    first.source = start ∧ step start first.label first.target ∧
      StepPath step first.target steps final := by
  generalize listed : first :: steps = all at path
  induction path generalizing steps with
  | nil => cases listed
  | @snoc earlier before after label shorter last induction =>
      cases earlier with
      | nil =>
          obtain ⟨rfl, rfl⟩ := List.cons.inj listed
          cases shorter.nil_eq
          exact ⟨rfl, last, .nil⟩
      | cons head tail =>
          obtain ⟨rfl, rfl⟩ := List.cons.inj listed
          obtain ⟨source, one, rest⟩ := induction rfl
          exact ⟨source, one, .snoc rest last⟩

/-- A path can be cut anywhere. -/
theorem of_append {first second : List (Transition σ α)}
    (path : StepPath step start (first ++ second) final) :
    ∃ middle, StepPath step start first middle ∧ StepPath step middle second final := by
  induction first generalizing start with
  | nil => exact ⟨start, .nil, path⟩
  | cons head first induction =>
      obtain ⟨rfl, one, rest⟩ := path.of_cons
      obtain ⟨middle, left, right⟩ := induction rest
      exact ⟨middle, .cons one left, right⟩

/-- Carry out labels one after the other. -/
def performAll (perform : σ → α → Option σ) : σ → List α → Option σ
  | state, [] => some state
  | state, label :: labels => (perform state label).bind fun next => performAll perform next labels

/-- What can be carried out is a path with these labels. -/
theorem exists_of_performAll {perform : σ → α → Option σ}
    (sound : ∀ before label after, perform before label = some after → step before label after)
    {labels : List α} (performed : performAll perform start labels = some final) :
    ∃ steps, StepPath step start steps final ∧ steps.map Transition.label = labels := by
  induction labels generalizing start with
  | nil =>
      obtain rfl := Option.some.inj performed
      exact ⟨[], .nil, rfl⟩
  | cons label labels induction =>
      obtain ⟨next, first, rest⟩ := Option.bind_eq_some_iff.mp performed
      obtain ⟨steps, path, labelled⟩ := induction rest
      exact ⟨_, .cons (sound _ _ _ first) path, congrArg (label :: ·) labelled⟩

/-- Carry out a label only where it is allowed. -/
def guarded (allowed : σ → α → Prop) [∀ state label, Decidable (allowed state label)]
    (perform : σ → α → Option σ) (state : σ) (label : α) : Option σ :=
  if allowed state label then perform state label else none

theorem of_guarded {allowed : σ → α → Prop} [∀ state label, Decidable (allowed state label)]
    {perform : σ → α → Option σ} (before : σ) (label : α) (after : σ)
    (performed : guarded allowed perform before label = some after) :
    allowed before label ∧ perform before label = some after := by
  rw [guarded] at performed
  split at performed
  next here => exact ⟨here, performed⟩
  next => cases performed

/-- A path for labels whose outcome has been checked. -/
theorem exists_of_checked {perform : σ → α → Option σ}
    (sound : ∀ before label after, perform before label = some after → step before label after)
    (start : σ) (labels : List α) (check : σ → Prop) [DecidablePred check]
    (checked : (performAll perform start labels).any (fun final => check final) = true) :
    ∃ steps final, StepPath step start steps final ∧ steps.map Transition.label = labels ∧
      check final := by
  obtain ⟨final, performed, holds⟩ := (Option.any_eq_true _ _).mp checked
  obtain ⟨steps, path, labelled⟩ := exists_of_performAll sound performed
  exact ⟨steps, final, path, labelled, of_decide_eq_true holds⟩

end StepPath

/-- The label sequences that a transition relation can produce from a state. -/
def Traces {σ α : Type*} (step : σ → α → σ → Prop) : σ → List α → Prop
  | _, [] => True
  | state, label :: labels => ∃ next, step state label next ∧ Traces step next labels

/-- Related states of a bisimulation have the same traces.  What relates two states may depend on
the labels that are still to come. -/
theorem Traces.iff_of_bisimulation {σ τ α : Type*} {step : σ → α → σ → Prop}
    {step' : τ → α → τ → Prop} {R : List α → σ → τ → Prop}
    (forth : ∀ state label labels next state', step state label next →
      R (label :: labels) state state' → ∃ next', step' state' label next' ∧ R labels next next')
    (back : ∀ state' label labels next' state, step' state' label next' →
      R (label :: labels) state state' → ∃ next, step state label next ∧ R labels next next')
    {state : σ} {state' : τ} {labels : List α} (related : R labels state state') :
    Traces step state labels ↔ Traces step' state' labels := by
  induction labels generalizing state state' with
  | nil => exact Iff.rfl
  | cons label labels induction =>
      constructor
      · rintro ⟨next, taken, rest⟩
        obtain ⟨next', taken', still⟩ := forth _ _ _ _ _ taken related
        exact ⟨next', taken', (induction still).mp rest⟩
      · rintro ⟨next', taken', rest⟩
        obtain ⟨next, taken, still⟩ := back _ _ _ _ _ taken' related
        exact ⟨next, taken, (induction still).mpr rest⟩

/-- `law` holds of every step that is taken while a flag is up.  The labels move the flag. -/
def During {σ α : Type*} (flag : Bool → α → Bool) (law : Transition σ α → Prop) :
    Bool → List (Transition σ α) → Prop
  | _, [] => True
  | up, transition :: steps =>
      (up = true → law transition) ∧ During flag law (flag up transition.label) steps

namespace During

variable {σ α : Type*} {flag : Bool → α → Bool} {law other : Transition σ α → Prop}

instance decidable [DecidablePred law] :
    ∀ (up : Bool) (steps : List (Transition σ α)), Decidable (During flag law up steps)
  | _, [] => .isTrue trivial
  | up, transition :: steps =>
      have := decidable (flag up transition.label) steps
      inferInstanceAs (Decidable (_ ∧ _))

/-- Two laws that agree under an invariant of the steps that obey the first are obeyed by the same
paths. -/
theorem iff_of_invariant {step : σ → α → σ → Prop} {Inv : Bool → σ → Prop}
    (agree : ∀ before label after, step before label after → Inv true before →
      (law ⟨before, label, after⟩ ↔ other ⟨before, label, after⟩))
    (preserved : ∀ up before label after, step before label after → Inv up before →
      (up = true → law ⟨before, label, after⟩) → Inv (flag up label) after)
    {up : Bool} {start final : σ} {steps : List (Transition σ α)}
    (path : StepPath step start steps final) (initially : Inv up start) :
    During flag law up steps ↔ During flag other up steps := by
  induction steps generalizing up start with
  | nil => exact Iff.rfl
  | cons first steps induction =>
      obtain ⟨rfl, one, rest⟩ := path.of_cons
      have here : (up = true → law first) ↔ (up = true → other first) :=
        forall_congr' fun raised => agree _ _ _ one (raised ▸ initially)
      rw [During, During, here]
      exact and_congr_right fun obeyed =>
        induction rest (preserved up _ _ _ one initially (here.mpr obeyed))

end During

namespace Loop

variable {σ ρ : Type*} {body : σ → σ ⊕ ρ}

/-- Run at most `fuel` passes of a loop; `none` when the bound is too small. -/
def run (body : σ → σ ⊕ ρ) : ℕ → σ → Option ρ
  | 0, _ => none
  | fuel + 1, state =>
      match body state with
      | .inl next => run body fuel next
      | .inr result => some result

/-- The loop entered at `state` returns `result`. -/
def Returns (body : σ → σ ⊕ ρ) (state : σ) (result : ρ) : Prop :=
  ∃ fuel, run body fuel state = some result

theorem run_mono {fuel more : ℕ} {state : σ} {result : ρ} (bound : fuel ≤ more)
    (returned : run body fuel state = some result) : run body more state = some result := by
  induction fuel generalizing more state with
  | zero => simp [run] at returned
  | succ fuel induction =>
      obtain ⟨more, rfl⟩ := Nat.exists_eq_add_of_le' (Nat.lt_of_lt_of_le fuel.succ_pos bound)
      rw [run] at returned ⊢
      cases pass : body state with
      | inl next =>
          rw [pass] at returned
          exact induction (by omega) returned
      | inr final => rwa [pass] at returned

/-- A loop returns at most one result. -/
theorem Returns.unique {state : σ} {first second : ρ} (one : Returns body state first)
    (other : Returns body state second) : first = second := by
  obtain ⟨fuel₁, run₁⟩ := one
  obtain ⟨fuel₂, run₂⟩ := other
  have := run_mono (le_max_left fuel₁ fuel₂) run₁
  rw [run_mono (le_max_right fuel₁ fuel₂) run₂] at this
  exact (Option.some.inj this).symm

theorem returns_of_done {state : σ} {result : ρ} (pass : body state = .inr result) :
    Returns body state result :=
  ⟨1, by simp [run, pass]⟩

/-- One pass neither adds nor removes a result. -/
theorem returns_again {state next : σ} {result : ρ} (pass : body state = .inl next) :
    Returns body state result ↔ Returns body next result := by
  constructor
  · rintro ⟨fuel, returned⟩
    cases fuel with
    | zero => simp [run] at returned
    | succ fuel => exact ⟨fuel, by simpa [run, pass] using returned⟩
  · rintro ⟨fuel, returned⟩
    exact ⟨fuel + 1, by simpa [run, pass] using returned⟩

/-- States with the same next pass have the same results. -/
theorem returns_congr {state other : σ} {result : ρ} (same : body state = body other) :
    Returns body state result ↔ Returns body other result := by
  cases pass : body other with
  | inl next => rw [returns_again (same.trans pass), returns_again pass]
  | inr final =>
      have first := returns_of_done (same.trans pass)
      have second := returns_of_done pass
      exact ⟨fun returned => first.unique returned ▸ second,
        fun returned => second.unique returned ▸ first⟩

/-- Induction along the passes of a loop that returns. -/
theorem Returns.induction {motive : ∀ state result, Returns body state result → Prop}
    (done : ∀ state result (pass : body state = .inr result),
      motive state result (returns_of_done pass))
    (again : ∀ state next result (pass : body state = .inl next) (rest : Returns body next result),
      motive next result rest → motive state result ((returns_again pass).mpr rest))
    {state : σ} {result : ρ} (returned : Returns body state result) :
    motive state result returned := by
  have ⟨fuel, finished⟩ := returned
  induction fuel generalizing state with
  | zero => simp [run] at finished
  | succ fuel induction =>
      rw [run] at finished
      cases pass : body state with
      | inl next =>
          rw [pass] at finished
          exact again state next result pass ⟨fuel, finished⟩ (induction ⟨fuel, finished⟩ finished)
      | inr final =>
          rw [pass] at finished
          exact done state result (Option.some.inj finished ▸ pass)

/-- Every pass that the loop makes when it is entered at `state` starts in a state that obeys
`law`. -/
def Obeys (body : σ → σ ⊕ ρ) (law : σ → Prop) (state : σ) : Prop :=
  ∀ between next, Relation.ReflTransGen (fun before after => body before = .inl after) state
    between → body between = .inl next → law between

theorem Obeys.here {law : σ → Prop} {state next : σ} (obeys : Obeys body law state)
    (pass : body state = .inl next) : law state :=
  obeys state next .refl pass

theorem Obeys.rest {law : σ → Prop} {state next : σ} (obeys : Obeys body law state)
    (pass : body state = .inl next) : Obeys body law next :=
  fun between after reached => obeys between after (.head pass reached)

/-- States with the same next pass have the same passes after it. -/
theorem Obeys.of_congr {law : σ → Prop} {state other : σ} (obeys : Obeys body law other)
    (same : body state = body other) (holds : law other → law state) : Obeys body law state := by
  intro between after reached pass
  rcases Relation.ReflTransGen.cases_head reached with rfl | ⟨next, first, rest⟩
  · exact holds (obeys.here (same.symm.trans pass))
  · exact obeys.rest (same.symm.trans first) between after rest pass

/-- A loop that makes no more passes than another one obeys its laws. -/
theorem Obeys.of_passes {other : σ → σ ⊕ ρ} {law : σ → Prop} {state : σ}
    (obeys : Obeys other law state)
    (passes : ∀ before after, body before = .inl after → other before = .inl after) :
    Obeys body law state :=
  fun between after reached pass =>
    obeys between after (Relation.ReflTransGen.mono passes _ _ reached) (passes _ _ pass)

theorem Obeys.of_forall {law : σ → Prop} (holds : ∀ before after, body before = .inl after →
    law before) (state : σ) : Obeys body law state :=
  fun between after _ pass => holds between after pass

/-- A loop returns when every pass under an invariant descends a well-founded relation. -/
theorem exists_returns {Inv : σ → Prop} {descends : σ → σ → Prop}
    (wellFounded : WellFounded descends)
    (pass : ∀ state next, Inv state → body state = .inl next → Inv next ∧ descends next state)
    {state : σ} (initially : Inv state) : ∃ result, Returns body state result := by
  induction state using wellFounded.induction with
  | _ state induction =>
      cases one : body state with
      | inl next =>
          obtain ⟨invariant, descent⟩ := pass state next initially one
          obtain ⟨result, returned⟩ := induction next descent invariant
          exact ⟨result, (returns_again one).mpr returned⟩
      | inr result => exact ⟨result, returns_of_done one⟩

end Loop
