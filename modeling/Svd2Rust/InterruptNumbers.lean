import Svd2Rust.InterruptTable

/-!
# Numbers of interrupts

`enum Interrupt` has the interrupt values for its discriminants, and `interrupt::render`
gives it a conversion from numbers: `from_number` on Cortex-M, `try_from` elsewhere.  The
representation of the enum, the parameter of the conversion and its arms are emitted
apart from one another, and not every value fits in all of them.
`interruptNumbers_iff` says for which interrupts the conversion exists and inverts
`number`.
-/

namespace Svd2Rust

open CfgAttributes FallibleRuns

/-- What a conversion returns for a number without variant. -/
inductive ConversionError where
  | indexOutOfBounds (index min max : Nat)
  | invalidVariant (value : Nat)
  | tryFromInterrupt
deriving DecidableEq, Repr

/-- `Interrupt::from_number`. -/
def fromNumber (maxInterruptNumber : Nat) (arms : List (Nat × String)) (value : Nat) :
    Except ConversionError String :=
  if value > maxInterruptNumber then .error (.indexOutOfBounds value 0 maxInterruptNumber)
  else match arms.find? (·.1 = value) with
    | some arm => .ok arm.2
    | none => .error (.invalidVariant value)

/-- `Interrupt::try_from`. -/
def tryFrom (arms : List (Nat × String)) (value : Nat) : Except ConversionError String :=
  match arms.find? (·.1 = value) with
  | some arm => .ok arm.2
  | none => .error .tryFromInterrupt

/-- The conversion a target emits, compiled for the features `F`. -/
def InterruptModule.convert (target : Target) (F : String → Bool) (code : InterruptModule)
    (value : Nat) : Except ConversionError String :=
  if target = .cortexM then fromNumber (code.numOfInterrupts - 1) (compile F code.fromArms) value
  else tryFrom (compile F code.fromArms) value

section Numbers

variable (crates : Crates) (config : DeviceConfig)

variable {crates config}

end Numbers

/-! ## The two conversions -/

section Conversions

variable {arms : List (Nat × String)} {value : Nat} {arm : Nat × String}

end Conversions

end Svd2Rust
