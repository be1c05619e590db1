import Mathlib.Data.Nat.Bitwise
import Mathlib.Data.Nat.Size
import Mathlib.Data.Fintype.EquivFin
import Mathlib.Order.Basic

/-!
# Bit distance

The bit distance of two naturals is the length of their exclusive or: one more than the highest
position in which their binary expansions differ, and zero when they are equal.  It is an
ultrametric whose balls are the dyadic intervals.  Two facts go beyond the ultrametric
inequality: an interval of positive radius splits into only two smaller ones, and the order of
the naturals is compatible with the distance from a common lower bound.
-/

namespace Nat

/-- Number of low bits that two naturals do not have in common. -/
def bitDistance (a b : ℕ) : ℕ := (a ^^^ b).size

/-- Two naturals are within distance `k` exactly when they agree above the low `k` bits. -/
theorem bitDistance_le_iff {a b k : ℕ} : bitDistance a b ≤ k ↔ a / 2 ^ k = b / 2 ^ k := by
  rw [bitDistance, Nat.size_le, ← Nat.shiftRight_eq_div_pow, ← Nat.shiftRight_eq_div_pow,
    ← Nat.xor_eq_zero_iff, ← Nat.shiftRight_xor_distrib, Nat.shiftRight_eq_div_pow,
    Nat.div_eq_zero_iff_lt (Nat.two_pow_pos k)]

theorem lt_bitDistance_iff {a b k : ℕ} : k < bitDistance a b ↔ a / 2 ^ k ≠ b / 2 ^ k := by
  rw [← not_le, bitDistance_le_iff]

theorem bitDistance_comm (a b : ℕ) : bitDistance a b = bitDistance b a := by
  rw [bitDistance, bitDistance, Nat.xor_comm]

@[simp]
theorem bitDistance_eq_zero {a b : ℕ} : bitDistance a b = 0 ↔ a = b := by
  simpa using bitDistance_le_iff (a := a) (b := b) (k := 0)

/-- The ultrametric inequality. -/
theorem bitDistance_le_max (a b c : ℕ) :
    bitDistance a c ≤ max (bitDistance a b) (bitDistance b c) := by
  rw [bitDistance_le_iff]
  exact (bitDistance_le_iff.mp (le_max_left _ _)).trans (bitDistance_le_iff.mp (le_max_right _ _))

/-- Moving the base point by less than the distance does not change the distance. -/
theorem bitDistance_eq_of_lt {a b c : ℕ} (closer : bitDistance a b < bitDistance a c) :
    bitDistance b c = bitDistance a c := by
  have below : bitDistance b c ≤ bitDistance a c := by
    have := bitDistance_le_max b a c
    rw [bitDistance_comm b a] at this
    omega
  have above : bitDistance a c ≤ bitDistance b c := by
    have := bitDistance_le_max a b c
    omega
  exact Nat.le_antisymm below above

/-- A dyadic interval has two halves: points at one positive distance share a half. -/
theorem bitDistance_lt_of_eq {a b c : ℕ} (same : bitDistance a b = bitDistance a c)
    (positive : 0 < bitDistance a b) : bitDistance b c < bitDistance a b := by
  obtain ⟨k, hk⟩ := Nat.exists_eq_succ_of_ne_zero positive.ne'
  rw [hk, Nat.succ_eq_add_one, Nat.lt_succ_iff, bitDistance_le_iff]
  have split_b : a / 2 ^ k ≠ b / 2 ^ k := lt_bitDistance_iff.mp (by omega)
  have split_c : a / 2 ^ k ≠ c / 2 ^ k := lt_bitDistance_iff.mp (by omega)
  have joined_b : a / 2 ^ k / 2 = b / 2 ^ k / 2 := by
    have := bitDistance_le_iff.mp hk.le
    rwa [pow_succ, ← Nat.div_div_eq_div_mul, ← Nat.div_div_eq_div_mul] at this
  have joined_c : a / 2 ^ k / 2 = c / 2 ^ k / 2 := by
    have := bitDistance_le_iff.mp (same ▸ hk).le
    rwa [pow_succ, ← Nat.div_div_eq_div_mul, ← Nat.div_div_eq_div_mul] at this
  omega

/-- Seen from a common lower bound, the nearer point is the smaller one. -/
theorem lt_of_bitDistance_lt {a b c : ℕ} (lower : a ≤ c)
    (nearer : bitDistance a b < bitDistance a c) : b < c := by
  have apart : a / 2 ^ bitDistance a b ≠ c / 2 ^ bitDistance a b := lt_bitDistance_iff.mp nearer
  have together : a / 2 ^ bitDistance a b = b / 2 ^ bitDistance a b :=
    bitDistance_le_iff.mp le_rfl
  have quotients : b / 2 ^ bitDistance a b < c / 2 ^ bitDistance a b := by
    rw [← together]
    exact lt_of_le_of_ne (Nat.div_le_div_right lower) apart
  exact lt_of_not_ge fun reversed => quotients.not_ge (Nat.div_le_div_right reversed)

end Nat

/-! ## 64-bit words -/

namespace UInt64

instance linearOrder : LinearOrder UInt64 where
  le_refl := UInt64.le_refl
  le_trans _ _ _ := UInt64.le_trans
  le_antisymm _ _ := UInt64.le_antisymm
  le_total := UInt64.le_total
  lt_iff_le_not_ge _ _ := by
    simp only [UInt64.lt_iff_toNat_lt, UInt64.le_iff_toNat_le]
    omega
  toDecidableLE := inferInstance
  toDecidableLT := inferInstance
  toDecidableEq := inferInstance

instance finite : Finite UInt64 :=
  Finite.of_injective UInt64.toFin fun _ _ => UInt64.toFin_inj.mp

/-- The word length minus the number of leading zeros is the bit length of the value. -/
theorem size_toNat (x : UInt64) : x.toNat.size = 64 - x.toBitVec.clz.toNat := by
  by_cases zero : x.toBitVec = 0
  · have : x = 0 := UInt64.toBitVec_inj.mp zero
    subst this
    decide
  · have upper : x.toNat < 2 ^ (64 - x.toBitVec.clz.toNat) := BitVec.toNat_lt_two_pow_sub_clz
    have lower : 2 ^ (64 - 1 - x.toBitVec.clz.toNat) ≤ x.toNat :=
      BitVec.two_pow_sub_clz_le_toNat_of_ne_zero (by decide) zero
    have upper_size := Nat.size_le.mpr upper
    have lower_size := Nat.lt_size.mpr lower
    omega

end UInt64
