import Mathlib.Data.List.AList

/-!
# Properties of the entries of an association list

A property of all entries survives inserting an entry that has it, and erasing.  `AList.census`
counts the entries whose value has a property.  Erasing an entry and writing one change the count by
what these entries contribute, which is all that a reference count follows.
-/

/-- Removing a key from a list takes what its entry contributes out of a count. -/
theorem List.countP_kerase {κ ν : Type*} [DecidableEq κ] (holds : ν → Bool) (key : κ)
    (entries : List (Sigma fun _ : κ => ν)) :
    entries.countP (fun entry => holds entry.2) =
      (entries.kerase key).countP (fun entry => holds entry.2) +
        (entries.dlookup key).elim 0 fun value => if holds value then 1 else 0 := by
  induction entries with
  | nil => rfl
  | cons entry entries induction =>
      obtain ⟨first, value⟩ := entry
      by_cases same : key = first
      · subst same
        have erased : List.kerase key (⟨key, value⟩ :: entries) = entries :=
          List.kerase_cons_eq rfl
        rw [List.dlookup_cons_eq, erased, List.countP_cons]
        rfl
      · rw [List.dlookup_cons_ne _ _ same, List.kerase_cons_ne same, List.countP_cons,
          List.countP_cons, induction]
        exact Nat.add_right_comm _ _ _

namespace AList

variable {κ ν : Type*}

/-- The number of entries whose value has a property. -/
def census (holds : ν → Prop) [DecidablePred holds] (entries : AList fun _ : κ => ν) : ℕ :=
  entries.entries.countP fun entry => holds entry.2

variable {holds : ν → Prop} [DecidablePred holds] {entries : AList fun _ : κ => ν} {key : κ}
  {value : ν}

variable [DecidableEq κ]

theorem forall_lookup_insert {P : κ → ν → Prop}
    (each : ∀ key value, entries.lookup key = some value → P key value) (new : P key value)
    (other : κ) (found : ν) (member : (entries.insert key value).lookup other = some found) :
    P other found := by
  rcases eq_or_ne other key with rfl | apart
  · rw [lookup_insert] at member
    rw [← Option.some.inj member]
    exact new
  · rw [lookup_insert_ne apart] at member
    exact each other found member

/-- Writing two entries leaves the others alone. -/
theorem lookup_insert_insert {other : κ} (apart : key ≠ other)
    (entries : AList fun _ : κ => ν) (first second : ν) :
    ((entries.insert other first).insert key second).lookup key = some second ∧
      ((entries.insert other first).insert key second).lookup other = some first ∧
      ∀ third, third ≠ key → third ≠ other →
        ((entries.insert other first).insert key second).lookup third = entries.lookup third := by
  refine ⟨lookup_insert _, ?_, fun third notKey notOther => ?_⟩
  · rw [lookup_insert_ne apart.symm, lookup_insert]
  · rw [lookup_insert_ne notKey, lookup_insert_ne notOther]

theorem lookup_of_lookup_erase {other : κ} {found : ν}
    (member : (entries.erase key).lookup other = some found) :
    other ≠ key ∧ entries.lookup other = some found := by
  have apart : other ≠ key := by
    rintro rfl
    rw [lookup_erase] at member
    cases member
  exact ⟨apart, (lookup_erase_ne apart).symm.trans member⟩

theorem census_of_lookup (found : entries.lookup key = some value) :
    entries.census holds = (entries.erase key).census holds + if holds value then 1 else 0 := by
  have counted := List.countP_kerase (fun value => holds value) key entries.entries
  rw [show entries.entries.dlookup key = some value from found] at counted
  simp only [decide_eq_true_eq, Option.elim_some] at counted
  exact counted

theorem census_of_absent (absent : entries.lookup key = none) :
    (entries.erase key).census holds = entries.census holds := by
  have counted := List.countP_kerase (fun value => holds value) key entries.entries
  rw [show entries.entries.dlookup key = none from absent] at counted
  exact counted.symm

theorem census_insert (key : κ) (value : ν) :
    (entries.insert key value).census holds =
      (entries.erase key).census holds + if holds value then 1 else 0 := by
  rw [census, entries_insert, List.countP_cons]
  simp only [decide_eq_true_eq]
  rfl

theorem census_insert_of_absent (absent : entries.lookup key = none) (value : ν) :
    (entries.insert key value).census holds =
      entries.census holds + if holds value then 1 else 0 := by
  rw [census_insert, census_of_absent absent]

/-- Overwriting an entry exchanges what it contributes. -/
theorem census_insert_add {old : ν} (found : entries.lookup key = some old) (value : ν) :
    ((entries.insert key value).census holds + if holds old then 1 else 0) =
      entries.census holds + if holds value then 1 else 0 := by
  rw [census_insert, census_of_lookup found, Nat.add_right_comm]

/-- What a key contributes to a census. -/
def contribution (holds : ν → Prop) [DecidablePred holds] (entries : AList fun _ : κ => ν)
    (key : κ) : ℕ :=
  (entries.lookup key).elim 0 fun value => if holds value then 1 else 0

theorem contribution_of_lookup (found : entries.lookup key = some value) :
    entries.contribution holds key = if holds value then 1 else 0 := by
  rw [contribution, found, Option.elim_some]

theorem census_insert_add_contribution (key : κ) (value : ν) :
    (entries.insert key value).census holds + entries.contribution holds key =
      entries.census holds + if holds value then 1 else 0 := by
  cases found : entries.lookup key with
  | none =>
      rw [contribution, found, Option.elim_none, Nat.add_zero]
      exact census_insert_of_absent found value
  | some old =>
      rw [contribution_of_lookup found]
      exact census_insert_add found value

/-- Writing two entries exchanges what both keys contribute. -/
theorem census_insert_insert {source : κ} (apart : key ≠ source) (left made : ν) :
    ((entries.insert source left).insert key made).census holds +
        (entries.contribution holds key + entries.contribution holds source) =
      entries.census holds +
        ((if holds left then 1 else 0) + if holds made then 1 else 0) := by
  have makes : ((entries.insert source left).insert key made).census holds +
      (entries.insert source left).contribution holds key =
        (entries.insert source left).census holds + if holds made then 1 else 0 :=
    census_insert_add_contribution key made
  have leaves : (entries.insert source left).census holds + entries.contribution holds source =
      entries.census holds + if holds left then 1 else 0 :=
    census_insert_add_contribution source left
  rw [contribution, lookup_insert_ne apart] at makes
  change _ + entries.contribution holds key = _ at makes
  omega

theorem census_pos (found : entries.lookup key = some value) (counts : holds value) :
    0 < entries.census holds := by
  rw [census_of_lookup found, if_pos counts]
  exact Nat.succ_pos _

/-- A property that counts at most once has at most one entry. -/
theorem eq_of_census_le_one {other : κ} {found : ν} (once : entries.census holds ≤ 1)
    (first : entries.lookup key = some value) (second : entries.lookup other = some found)
    (firstCounts : holds value) (secondCounts : holds found) : key = other := by
  by_contra apart
  have rest : 0 < (entries.erase key).census holds :=
    census_pos ((lookup_erase_ne (Ne.symm apart)).trans second) secondCounts
  rw [census_of_lookup first, if_pos firstCounts] at once
  omega

end AList
