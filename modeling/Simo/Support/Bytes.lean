import Mathlib.Data.Nat.Digits.Defs

/-!
# Bytes

Ranges of a byte string, memory that they are written to, the numbers that are stored in them in one
of the two byte orders, and strings that end with a zero byte.
-/

namespace Bytes

variable {bytes : List UInt8} {position width start length : ℕ}

/-- The bytes of a range, as far as they are there. -/
def slice (bytes : List UInt8) (position width : ℕ) : List UInt8 :=
  (bytes.drop position).take width

theorem length_slice_le (bytes : List UInt8) (position width : ℕ) :
    (slice bytes position width).length ≤ width :=
  List.length_take_le _ _

/-- A range inside a range. -/
theorem slice_slice (inside : start + length ≤ width) :
    slice (slice bytes position width) start length = slice bytes (position + start) length := by
  rw [slice, slice, slice, List.drop_take, List.drop_drop, List.take_take,
    Nat.min_eq_left (by omega)]

/-! ## Memory -/

/-- Write bytes to the addresses from `address` on. -/
def store (memory : ℕ → UInt8) (address : ℕ) (bytes : List UInt8) : ℕ → UInt8 := fun other =>
  if address ≤ other then bytes[other - address]?.getD (memory other) else memory other

theorem store_outside {memory : ℕ → UInt8} {address other : ℕ}
    (outside : other < address ∨ address + bytes.length ≤ other) :
    store memory address bytes other = memory other := by
  rw [store]
  split
  next =>
    rw [List.getElem?_eq_none (by omega), Option.getD_none]
  next => rfl

theorem getElem?_of_store (memory : ℕ → UInt8) {address other : ℕ} (start : address ≤ other)
    (stop : other < address + bytes.length) :
    bytes[other - address]? = some (store memory address bytes other) := by
  have inside : other - address < bytes.length := by omega
  rw [store, if_pos start, List.getElem?_eq_getElem inside, Option.getD_some]

/-! ## Numbers -/

/-- The order of the bytes of a number. -/
inductive Order where
  /-- The first byte is the least significant one. -/
  | little
  /-- The last byte is the least significant one. -/
  | big

namespace Order

def number (order : Order) (bytes : List UInt8) : ℕ :=
  match order with
  | little => Nat.ofDigits 256 (bytes.map UInt8.toNat)
  | big => Nat.ofDigits 256 (bytes.reverse.map UInt8.toNat)

theorem number_lt (order : Order) (bytes : List UInt8) :
    order.number bytes < 256 ^ bytes.length := by
  have bound : ∀ bytes : List UInt8,
      Nat.ofDigits 256 (bytes.map UInt8.toNat) < 256 ^ bytes.length := by
    intro bytes
    have digits : ∀ digit ∈ bytes.map UInt8.toNat, digit < 256 := by
      intro digit member
      obtain ⟨byte, -, rfl⟩ := List.mem_map.mp member
      exact byte.toNat_lt
    simpa using Nat.ofDigits_lt_base_pow_length (by omega) digits
  cases order with
  | little => exact bound bytes
  | big =>
      rw [← List.length_reverse]
      exact bound bytes.reverse

/-- The number in a range. -/
def field (order : Order) (bytes : List UInt8) (position width : ℕ) : ℕ :=
  order.number (slice bytes position width)

theorem field_lt (order : Order) (bytes : List UInt8) (position width : ℕ) :
    order.field bytes position width < 256 ^ width :=
  (order.number_lt _).trans_le (Nat.pow_le_pow_right (by omega) (length_slice_le _ _ _))

theorem field_slice (order : Order) (inside : start + length ≤ width) :
    order.field (slice bytes position width) start length =
      order.field bytes (position + start) length := by
  rw [field, slice_slice inside, field]

end Order

/-! ## Strings -/

/-- The bytes up to the first zero byte are the text. -/
def StartsWithString (bytes text : List UInt8) : Prop :=
  0 ∈ bytes ∧ bytes.takeWhile (· ≠ 0) = text

theorem startsWithString_iff {text : List UInt8} (plain : 0 ∉ text) :
    StartsWithString bytes text ↔
      text.length < bytes.length ∧ bytes.take text.length = text ∧
        bytes[text.length]? = some 0 := by
  induction bytes generalizing text with
  | nil => simp [StartsWithString]
  | cons byte rest induction =>
      rw [StartsWithString, List.mem_cons, List.takeWhile_cons]
      rcases eq_or_ne byte 0 with rfl | other
      · cases text with
        | nil => simp
        | cons first text =>
            have apart : first ≠ 0 := fun same => plain (same ▸ List.mem_cons_self)
            simp [apart.symm]
      · cases text with
        | nil => simp [other]
        | cons first text =>
            have plainRest : 0 ∉ text := fun member => plain (List.mem_cons_of_mem _ member)
            have below := induction plainRest
            rw [StartsWithString] at below
            simp only [other.symm, false_or, ne_eq, other, not_false_eq_true, decide_true, if_true,
              List.cons.injEq, List.length_cons, List.take_succ_cons, List.getElem?_cons_succ,
              Nat.add_lt_add_iff_right]
            rw [and_left_comm, below]
            tauto

end Bytes
