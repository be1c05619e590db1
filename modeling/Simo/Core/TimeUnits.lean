import Simo.Core.Time

/-!
# Times in units

A `Time` can be given as a count of a unit, in the program or in a configuration.  The constructor
multiplies 64-bit words, so a count is converted exactly if and only if the number of picoseconds
fits into a word; nothing rejects the other counts.
-/

namespace Simo
namespace Time

inductive Unit where
  | ps
  | ns
  | us
  | ms
  | s
deriving DecidableEq, Repr

/-- The constructor from a count of a unit. -/
def ofUnit (time : UInt64) : Unit → Time
  | .ps => ⟨time⟩
  | .ns => ⟨time * 1000⟩
  | .us => ⟨time * 1000000⟩
  | .ms => ⟨time * 1000000000⟩
  | .s => ⟨time * 1000000000000⟩

def toPicoseconds (time : Time) : UInt64 := time.picoseconds

/-- How many picoseconds a unit has. -/
def Unit.scale : Unit → ℕ
  | .ps => 1
  | .ns => 10 ^ 3
  | .us => 10 ^ 6
  | .ms => 10 ^ 9
  | .s => 10 ^ 12

theorem Unit.scale_pos (unit : Unit) : 0 < unit.scale := by
  cases unit <;> decide

theorem toPicoseconds_ofUnit (time : UInt64) (unit : Unit) :
    (ofUnit time unit).toPicoseconds.toNat = time.toNat * unit.scale % 2 ^ 64 := by
  cases unit with
  | ps =>
      rw [Unit.scale, mul_one, Nat.mod_eq_of_lt time.toNat_lt]
      rfl
  | _ => exact UInt64.toNat_mul time _

/-- The number of picoseconds fits into a word. -/
def Fits (time : UInt64) (unit : Unit) : Prop := time.toNat * unit.scale < 2 ^ 64

instance (time : UInt64) (unit : Unit) : Decidable (Fits time unit) :=
  inferInstanceAs (Decidable (_ < _))

theorem Fits.of_le {time larger : UInt64} {unit : Unit} (fits : Fits larger unit)
    (below : time ≤ larger) : Fits time unit :=
  lt_of_le_of_lt (Nat.mul_le_mul_right unit.scale (UInt64.le_iff_toNat_le.mp below)) fits

theorem toPicoseconds_of_fits {time : UInt64} {unit : Unit} (fits : Fits time unit) :
    (ofUnit time unit).toPicoseconds.toNat = time.toNat * unit.scale := by
  rw [toPicoseconds_ofUnit]
  exact Nat.mod_eq_of_lt fits

theorem fits_of_exact {time : UInt64} {unit : Unit}
    (same : (ofUnit time unit).toPicoseconds.toNat = time.toNat * unit.scale) :
    Fits time unit := by
  rw [Fits, ← same]
  exact UInt64.toNat_lt _

/-- As long as the counts fit, the conversion keeps their order. -/
theorem ofUnit_lt_of_fits {time larger : UInt64} {unit : Unit} (fits : Fits larger unit)
    (below : time < larger) : ofUnit time unit < ofUnit larger unit := by
  apply UInt64.lt_iff_toNat_lt.mpr
  have small := toPicoseconds_of_fits (fits.of_le (UInt64.le_of_lt below))
  have large := toPicoseconds_of_fits fits
  rw [toPicoseconds] at small large
  rw [small, large]
  exact Nat.mul_lt_mul_of_pos_right (UInt64.lt_iff_toNat_lt.mp below) unit.scale_pos

end Time

/-! ## Times in configurations -/

/-- A time as it is written in a configuration. -/
structure TimeValue where
  time : UInt64
  unit : Time.Unit
deriving DecidableEq, Repr

inductive Format where
  | json
  | yaml
deriving DecidableEq, Repr

/-- The serializer: it reads back what it writes. -/
structure Glaze (Document Error : Type*) where
  /-- Parse the two fields of a `TimeValue`. -/
  parse : Format → Document → Except Error TimeValue
  serialize : Format → TimeValue → Document
  faithful : ∀ format value, parse format (serialize format value) = .ok value

namespace Time

variable {Document Error : Type*} (glaze : Glaze Document Error)

/-- `from<Format, Time>`: the value is assigned unless parsing left an error. -/
def fromFormat (format : Format) (document : Document) : Except Error Time :=
  match glaze.parse format document with
  | .error error => .error error
  | .ok tmp => .ok (ofUnit tmp.time tmp.unit)

/-- `from<YAML, Time>`: the wrapper hands the parsed value to the first of its two functions. -/
def fromYaml (document : Document) : Except Error Time :=
  let output (input : TimeValue) : Time := ofUnit input.time input.unit
  (glaze.parse .yaml document).map output

/-- Reading a time; YAML has its own specialization. -/
def decode : Format → Document → Except Error Time
  | .yaml => fromYaml glaze
  | .json => fromFormat glaze .json

/-- `to<Format, Time>`: the count of picoseconds. -/
def encode (format : Format) (value : Time) : Document :=
  glaze.serialize format ⟨value.toPicoseconds, .ps⟩

theorem decode_eq (format : Format) (document : Document) :
    decode glaze format document =
      (glaze.parse format document).map fun value => ofUnit value.time value.unit := by
  cases format with
  | yaml => rfl
  | json =>
      rw [decode, fromFormat]
      cases glaze.parse .json document <;> rfl

/-- What is written is read back as the same time. -/
theorem decode_encode (format : Format) (value : Time) :
    decode glaze format (encode glaze format value) = .ok value := by
  rw [decode_eq, encode, glaze.faithful]
  rfl

/-- An error is signalled, or the time is the count times the picoseconds of the unit. -/
def ExactOrRejected {E : Type*} (time : UInt64) (unit : Unit) :
    Except E Time → Prop
  | .error _ => True
  | .ok value => value.toPicoseconds.toNat = time.toNat * unit.scale

/-- A count of a unit is converted exactly or rejected, by the constructor and by both decoders, if
and only if its number of picoseconds fits into a word.  Among these counts the conversion is
strictly monotone, and every time that is written is read back. -/
theorem exactOrRejected_iff (time : UInt64) (unit : Unit) :
    ((ExactOrRejected (E := Error) time unit (.ok (ofUnit time unit)) ∧
        ∀ format document, glaze.parse format document = .ok ⟨time, unit⟩ →
          ExactOrRejected time unit (decode glaze format document)) ↔ Fits time unit) ∧
      (Fits time unit → ∀ smaller < time, ofUnit smaller unit < ofUnit time unit) ∧
      ∀ format value, decode glaze format (encode glaze format value) = .ok value := by
  refine ⟨⟨fun both => fits_of_exact both.1, fun fits => ⟨toPicoseconds_of_fits fits, ?_⟩⟩,
    fun fits smaller below => ofUnit_lt_of_fits fits below, decode_encode glaze⟩
  intro format document parsed
  rw [decode_eq, parsed]
  exact toPicoseconds_of_fits fits

/-- A serializer whose documents are the values themselves. -/
def plain : Glaze TimeValue Empty where
  parse _ := .ok
  serialize _ := id
  faithful _ _ := rfl

/-- More seconds than fit into a word are neither exact nor rejected, by the constructor or by a
decoder, and they come out as a shorter time than one second. -/
theorem not_exactOrRejected_seconds :
    ¬ ExactOrRejected (E := Empty) 18446745 .s (.ok (ofUnit 18446745 .s)) ∧
      (∀ format, ¬ ExactOrRejected 18446745 .s (decode plain format ⟨18446745, .s⟩)) ∧
      ofUnit 18446745 .s < ofUnit 1 .s := by
  have wrong : ¬ ExactOrRejected (E := Empty) 18446745 .s (.ok (ofUnit 18446745 .s)) :=
    fun same => by cases same
  refine ⟨wrong, fun format => ?_, by decide⟩
  rw [decode_eq]
  exact wrong

end Time
end Simo
