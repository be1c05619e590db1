import Mathlib.Data.List.Sort
import Mathlib.Order.Defs.LinearOrder

/-!
# Stable sorting

A stable sort by a key is determined by two properties: its result is sorted by the key, and for
every key it has the entries with this key in the order in which they were.  So a process that keeps
both properties along its way has sorted its input, however it went about it.
-/

namespace StableSort

variable {α κ : Type*} [LinearOrder κ]

/-- The entries sorted by their keys, those with equal keys in the order in which they are. -/
def sortBy (key : α → κ) (entries : List α) : List α :=
  entries.mergeSort fun a b => decide (key a ≤ key b)

/-- The entries with a key, in order. -/
def withKey (key : α → κ) (k : κ) (entries : List α) : List α :=
  entries.filter fun entry => key entry = k

variable {key : α → κ} {entries other : List α} {entry : α} {k : κ}

theorem mem_withKey : entry ∈ withKey key k entries ↔ entry ∈ entries ∧ key entry = k := by
  rw [withKey, List.mem_filter, decide_eq_true_iff]

theorem withKey_append :
    withKey key k (entries ++ other) = withKey key k entries ++ withKey key k other :=
  List.filter_append ..

theorem withKey_cons_self (entry : α) (entries : List α) :
    withKey key (key entry) (entry :: entries) = entry :: withKey key (key entry) entries :=
  List.filter_cons_of_pos (decide_eq_true rfl)

theorem withKey_cons_of_ne (apart : key entry ≠ k) (entries : List α) :
    withKey key k (entry :: entries) = withKey key k entries :=
  List.filter_cons_of_neg (by simpa using apart)

/-- Entries that all have the key. -/
theorem withKey_eq_self (all : ∀ entry ∈ entries, key entry = k) :
    withKey key k entries = entries :=
  List.filter_eq_self.mpr fun entry member => decide_eq_true (all entry member)

theorem withKey_eq_nil (none : ∀ entry ∈ entries, key entry ≠ k) : withKey key k entries = [] :=
  List.filter_eq_nil_iff.mpr fun entry member => by simpa using none entry member

/-- A filter that all entries with a key pass. -/
theorem withKey_filter_of_pos {p : α → Bool} (passes : ∀ entry, key entry = k → p entry = true)
    (entries : List α) : withKey key k (entries.filter p) = withKey key k entries := by
  rw [withKey, List.filter_filter]
  refine List.filter_congr fun entry _ => ?_
  by_cases here : key entry = k
  · simp [here, passes entry here]
  · simp [here]

/-- A filter that no entry with a key passes. -/
theorem withKey_filter_of_neg {p : α → Bool} (fails : ∀ entry, key entry = k → p entry = false)
    (entries : List α) : withKey key k (entries.filter p) = [] := by
  refine withKey_eq_nil fun entry member here => ?_
  cases (fails entry here).symm.trans (List.mem_filter.mp member).2

theorem perm_sortBy (key : α → κ) (entries : List α) : (sortBy key entries).Perm entries :=
  List.mergeSort_perm entries _

theorem sorted_sortBy (key : α → κ) (entries : List α) :
    (sortBy key entries).Pairwise fun a b => key a ≤ key b := by
  have sorted := @List.pairwise_mergeSort _ (fun a b : α => decide (key a ≤ key b))
    (fun a b c first second => decide_eq_true
      ((of_decide_eq_true first).trans (of_decide_eq_true second)))
    (fun a b => by simpa using le_total (key a) (key b)) entries
  exact sorted.imp of_decide_eq_true

/-- Sorting keeps the order of the entries with the same key. -/
theorem withKey_sortBy (key : α → κ) (k : κ) (entries : List α) :
    withKey key k (sortBy key entries) = withKey key k entries := by
  have equal : (withKey key k entries).Pairwise fun a b => decide (key a ≤ key b) = true :=
    List.pairwise_of_forall_mem_list fun a first b second => decide_eq_true
      ((mem_withKey.mp first).2.trans (mem_withKey.mp second).2.symm).le
  have inOrder : (withKey key k entries).Sublist (sortBy key entries) :=
    List.sublist_mergeSort
      (fun a b c first second => decide_eq_true
        ((of_decide_eq_true first).trans (of_decide_eq_true second)))
      (fun a b => by simpa using le_total (key a) (key b)) equal List.filter_sublist
  have within : (withKey key k entries).Sublist (withKey key k (sortBy key entries)) := by
    have filtered := inOrder.filter fun entry => key entry = k
    rwa [← withKey, withKey_eq_self fun entry member => (mem_withKey.mp member).2] at filtered
  refine (within.eq_of_length ?_).symm
  exact ((perm_sortBy key entries).filter _).length_eq.symm

/-- Two lists that are sorted by their keys are equal if they have the same entries with each key,
in the same order. -/
theorem eq_of_withKey_eq (sorted : entries.Pairwise fun a b => key a ≤ key b)
    (sorted' : other.Pairwise fun a b => key a ≤ key b)
    (same : ∀ k, withKey key k entries = withKey key k other) : entries = other := by
  induction entries generalizing other with
  | nil =>
      cases other with
      | nil => rfl
      | cons first rest =>
          have here := same (key first)
          rw [withKey_cons_self] at here
          cases here
  | cons first rest induction =>
      cases other with
      | nil =>
          have here := same (key first)
          rw [withKey_cons_self] at here
          cases here
      | cons first' rest' =>
          obtain ⟨least, later⟩ := List.pairwise_cons.mp sorted
          obtain ⟨least', later'⟩ := List.pairwise_cons.mp sorted'
          -- the first entry of either list is among the entries of the other
          have below : key first ≤ key first' := by
            have member := mem_withKey.mp
              (same (key first') ▸ mem_withKey.mpr ⟨List.mem_cons_self, rfl⟩ :
                first' ∈ withKey key (key first') (first :: rest))
            rcases List.mem_cons.mp member.1 with here | behind
            · rw [here]
            · exact least first' behind
          have above : key first' ≤ key first := by
            have member := mem_withKey.mp
              (same (key first) ▸ mem_withKey.mpr ⟨List.mem_cons_self, rfl⟩ :
                first ∈ withKey key (key first) (first' :: rest'))
            rcases List.mem_cons.mp member.1 with here | behind
            · rw [here]
            · exact least' first behind
          have sameKey := le_antisymm below above
          have here := same (key first)
          rw [withKey_cons_self, sameKey, withKey_cons_self] at here
          obtain ⟨rfl, -⟩ := List.cons.inj here
          refine congrArg (first :: ·) (induction later later' fun k => ?_)
          by_cases atFirst : key first = k
          · subst atFirst
            exact (List.cons.inj here).2
          · have others := same k
            rwa [withKey_cons_of_ne atFirst, withKey_cons_of_ne atFirst] at others

/-- A list that is sorted by its keys and keeps the order of the entries with each key is the
stable sort. -/
theorem eq_sortBy (sorted : other.Pairwise fun a b => key a ≤ key b)
    (same : ∀ k, withKey key k other = withKey key k entries) : other = sortBy key entries :=
  eq_of_withKey_eq sorted (sorted_sortBy key entries) fun k =>
    (same k).trans (withKey_sortBy key k entries).symm

/-- Lists with the same entries for each key have the same entries. -/
theorem perm_of_withKey_eq (same : ∀ k, withKey key k entries = withKey key k other) :
    entries.Perm other := by
  have sorted : sortBy key entries = sortBy key other :=
    eq_sortBy (sorted_sortBy key entries) fun k => (withKey_sortBy key k entries).trans (same k)
  exact (perm_sortBy key entries).symm.trans (sorted ▸ perm_sortBy key other)

end StableSort
