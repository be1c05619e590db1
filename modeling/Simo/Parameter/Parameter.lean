import Mathlib.Logic.Basic

/-!
# Parameters

A `ParameterTyped` holds a value of its type, whether it has been set, and an optional validator,
which may read other parameters.  `Parameter` is the base class: it hides the type.  The types that
occur are indexed by an arbitrary `Ty`, with values in `Val`.
-/

namespace Simo

/-- What can be read of a parameter. -/
structure ParameterReading {Ty : Type*} (Val : Ty → Type*) where
  type : Ty
  hasValue : Bool
  value : Val type

/-- The parameters that a validator can read, by name. -/
abbrev Readings {Ty : Type*} (Val : Ty → Type*) := List Char → Option (ParameterReading Val)

/-- A parameter of a known type. -/
structure ParameterTyped {Ty : Type*} (Val : Ty → Type*) (type : Ty) where
  hasValue_ : Bool
  validator_ : Option (Readings Val → Val type → Bool)
  value_ : Val type

namespace ParameterTyped

variable {Ty : Type*} {Val : Ty → Type*} {type : Ty}

/-- The default constructor: no value, no validator. -/
def unset [Inhabited (Val type)] : ParameterTyped Val type := ⟨false, none, default⟩

/-- The constructor from a value. -/
def ofValue (value : Val type) : ParameterTyped Val type := ⟨true, none, value⟩

def hasValue (parameter : ParameterTyped Val type) : Bool := parameter.hasValue_

/-- What can be done through a reference to a parameter. -/
inductive Setter {Ty : Type*} (Val : Ty → Type*) (type : Ty) where
  | validator (validator : Option (Readings Val → Val type → Bool))
  | value (value : Val type)
  | hasValue (newVal : Bool)

def set (parameter : ParameterTyped Val type) : Setter Val type → ParameterTyped Val type
  | .validator validator => { parameter with validator_ := validator }
  | .value value => { parameter with value_ := value, hasValue_ := true }
  | .hasValue newVal => { parameter with hasValue_ := newVal }

/-- A parameter without a value is not valid; a value is checked by the validator if there is
one. -/
def validate (readings : Readings Val) (parameter : ParameterTyped Val type) : Bool :=
  if parameter.hasValue_ then
    match parameter.validator_ with
    | none => true
    | some validator => validator readings parameter.value_
  else false

def clone (parameter : ParameterTyped Val type) : ParameterTyped Val type :=
  ofValue parameter.value_

end ParameterTyped

/-- A parameter of some type. -/
structure Parameter {Ty : Type*} (Val : Ty → Type*) where
  type : Ty
  typed : ParameterTyped Val type

namespace Parameter

variable {Ty : Type*} {Val : Ty → Type*}

def hasValue (parameter : Parameter Val) : Bool := parameter.typed.hasValue

def validate (readings : Readings Val) (parameter : Parameter Val) : Bool :=
  parameter.typed.validate readings

def clone (parameter : Parameter Val) : Parameter Val := ⟨parameter.type, parameter.typed.clone⟩

/-- What a validator of another parameter can read. -/
def reading (parameter : Parameter Val) : ParameterReading Val :=
  ⟨parameter.type, parameter.hasValue, parameter.typed.value_⟩

/-- The type together with the value. -/
def content (parameter : Parameter Val) : Sigma Val := ⟨parameter.type, parameter.typed.value_⟩

/-- The parameters have the same type and value, both or neither are set, and they validate
alike, each among the parameters of its own set. -/
structure Agrees (firstReadings secondReadings : Readings Val) (first second : Parameter Val) :
    Prop where
  content : first.content = second.content
  hasValue : first.hasValue = second.hasValue
  validate : first.validate firstReadings = second.validate secondReadings

variable {readings : Readings Val}

theorem hasValue_of_validate {parameter : Parameter Val}
    (valid : parameter.validate readings = true) : parameter.hasValue = true := by
  rw [validate, ParameterTyped.validate] at valid
  split at valid
  next set => exact set
  next => cases valid

/-- `clone` keeps type and value; it forgets that a parameter is unset, and its validator. -/
theorem clone_agrees_iff (cloneReadings : Readings Val) (parameter : Parameter Val) :
    parameter.clone.Agrees cloneReadings readings parameter ↔
      parameter.validate readings = true := by
  constructor
  · intro agrees
    exact agrees.validate.symm
  · intro valid
    exact ⟨rfl, (hasValue_of_validate valid).symm, valid.symm⟩

end Parameter
end Simo
