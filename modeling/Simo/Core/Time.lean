import Simo.Support.BitDistance

/-!
# Simulated time

`Time` is the library's clock value: a 64-bit number of picoseconds.  Sums wrap around, as sums of
`uint64_t` do, and comparison is comparison of the counts.
-/

namespace Simo

/-- Simulated time in picoseconds. -/
structure Time where
  /-- The underlying 64-bit count. -/
  picoseconds : UInt64
deriving DecidableEq, Repr

namespace Time

/-- The tick at which every context starts. -/
def zero : Time := ⟨0⟩

theorem picoseconds_injective : Function.Injective Time.picoseconds := by
  rintro ⟨_⟩ ⟨_⟩ rfl
  rfl

instance : LinearOrder Time := LinearOrder.lift' Time.picoseconds picoseconds_injective

instance : Add Time := ⟨fun t u => ⟨t.picoseconds + u.picoseconds⟩⟩

theorem le_iff {t u : Time} : t ≤ u ↔ t.picoseconds ≤ u.picoseconds := Iff.rfl

/-- Below a time that can still be advanced, one more picosecond is later. -/
theorem lt_add_one {tick finalTime : Time} (due : tick ≤ finalTime)
    (finite : finalTime < finalTime + ⟨1⟩) : tick < tick + ⟨1⟩ := by
  obtain ⟨tick⟩ := tick
  obtain ⟨finalTime⟩ := finalTime
  have below : tick.toNat ≤ finalTime.toNat := due
  have bound : finalTime.toNat < (finalTime + 1).toNat := finite
  have limit := (finalTime + 1).toNat_lt
  change tick.toNat < (tick + 1).toNat
  rw [UInt64.toNat_add, UInt64.toNat_one] at bound ⊢
  omega

end Time
end Simo
