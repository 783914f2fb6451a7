import Svd2Rust.BitFields
import Svd2Rust.RustOutcome
import Svd2Rust.SvdModel

/-!
# The generic register code of a generated crate

`generic.rs` with the write operations of `generic_reg_vcell.rs` and
`generic_avr_ccp.rs`.  A register of storage type `u8` to `u64` is a bit vector
of that many bits, a writer `W` is the word it will store, and a field value is
a number, which `From` carries into the register's type.  A shift by the width
of the type or more panics, and a mask wider than the type does not compile;
both are `panicking` here, so a writer method that returns has computed a word.
-/

namespace Svd2Rust

open BitFields

/-! ## Field writers -/

/-- `RawReg::mask::<WI>()`: `MAX >> (size - WI)`. -/
def rawRegMask (n wi : Nat) : Gen (BitVec n) :=
  if wi ≤ n then .ok (BitVec.allOnes n >>> (n - wi))
  else panicking "attempt to compute `size - WI`, which would overflow"

/-- `<<` on a register type. -/
def shlReg {n : Nat} (x : BitVec n) (o : Nat) : Gen (BitVec n) :=
  if o < n then .ok (x <<< o) else panicking "attempt to shift left with overflow"

/-- The generated marker types of a field writer. -/
inductive SafetyMarker where
  | safe
  | unsafe_
  | range (min max : Nat)
  | rangeFrom (min : Nat)
  | rangeTo (max : Nat)
deriving DecidableEq, Repr

/-- `FieldWriter::bits`. -/
def FieldWriter.bits {n : Nat} (w : BitVec n) (o wi value : Nat) : Gen (BitVec n) := do
  let mask ← rawRegMask n wi
  let hole ← shlReg mask o
  let w := w &&& ~~~hole
  let field ← shlReg (BitVec.ofNat n value &&& mask) o
  return w ||| field

/-- `FieldWriter::set` of the marker; without `Safe` or a range there is none. -/
def FieldWriter.set {n : Nat} (marker : SafetyMarker) (w : BitVec n) (o wi value : Nat) :
    Option (Gen (BitVec n)) :=
  let assertThen (holds : Bool) : Gen (BitVec n) :=
    if holds then FieldWriter.bits w o wi value else panicking "assertion failed"
  match marker with
  | .safe => some (FieldWriter.bits w o wi value)
  | .unsafe_ => none
  | .range min max => some (assertThen (min ≤ value && value ≤ max))
  | .rangeFrom min => some (assertThen (min ≤ value))
  | .rangeTo max => some (assertThen (value ≤ max))

/-- The markers `bit_proxy!` instantiates `BitWriter` with. -/
inductive BitMarker where
  | bitM
  | bit1S
  | bit0C
  | bit1C
  | bit0S
  | bit1T
  | bit0T
deriving DecidableEq, Repr

/-- `bit` of every bit writer. -/
def BitWriter.bit {n : Nat} (w : BitVec n) (o : Nat) (value : Bool) : Gen (BitVec n) := do
  let hole ← shlReg (1 : BitVec n) o
  let w := w &&& ~~~hole
  let field ← shlReg (BitVec.ofNat n value.toNat &&& 1) o
  return w ||| field

/-- The body `w.bits |= ONE << o`. -/
def BitWriter.orOne {n : Nat} (w : BitVec n) (o : Nat) : Gen (BitVec n) := do
  let one ← shlReg (1 : BitVec n) o
  return w ||| one

/-- The body `w.bits &= !(ONE << o)`. -/
def BitWriter.andNotOne {n : Nat} (w : BitVec n) (o : Nat) : Gen (BitVec n) := do
  let one ← shlReg (1 : BitVec n) o
  return w &&& ~~~one

/-- The methods of the bit writers beside `bit` and `variant`. -/
inductive BitMethod where
  | setBit
  | clearBit
  | clearBitByOne
  | setBitByZero
  | toggleBit
deriving DecidableEq, Repr

/-- The method of that name, where the bit writer has one, with the value it
leaves in the bit. -/
def BitWriter.method (marker : BitMarker) (method : BitMethod) : Option Bool :=
  match marker, method with
  | .bitM, .setBit => some true
  | .bitM, .clearBit => some false
  | .bit1S, .setBit => some true
  | .bit0C, .clearBit => some false
  | .bit1C, .clearBitByOne => some true
  | .bit0S, .setBitByZero => some false
  | .bit1T, .toggleBit => some true
  | .bit0T, .toggleBit => some false
  | _, _ => none

/-- The body of a method that leaves that value. -/
def BitWriter.run {n : Nat} (leaves : Bool) (w : BitVec n) (o : Nat) : Gen (BitVec n) :=
  if leaves then BitWriter.orOne w o else BitWriter.andNotOne w o

/-! ## Register operations -/

/-- The constants of a register's `Writable` and `Resettable` instances. -/
structure RegisterSpec (n : Nat) where
  resetValue : BitVec n
  zeroToModifyFieldsBitmap : BitVec n
  oneToModifyFieldsBitmap : BitVec n

/-- A volatile store: to the register, or the `out` that unlocks it. -/
inductive Store (n : Nat) where
  | register (value : BitVec n)
  | ccp (magic : BitVec 8)
deriving DecidableEq, Repr

/-- What an operation stores, in order, and returns. -/
structure Effect (n : Nat) (α : Type) where
  stores : List (Store n)
  result : α

section Operations

variable {n : Nat} {α : Type} (spec : RegisterSpec n)

/-- `Reg::write`. -/
def Reg.write (f : BitVec n → Gen (BitVec n)) : Gen (Effect n (BitVec n)) := do
  let value ← f (spec.resetValue &&& ~~~spec.oneToModifyFieldsBitmap |||
    spec.zeroToModifyFieldsBitmap)
  return ⟨[.register value], value⟩

/-- `Reg::from_write`. -/
def Reg.fromWrite (f : BitVec n → Gen (BitVec n × α)) : Gen (Effect n α) := do
  let writer := spec.resetValue &&& ~~~spec.oneToModifyFieldsBitmap |||
    spec.zeroToModifyFieldsBitmap
  let (writer, result) ← f writer
  return ⟨[.register writer], result⟩

/-- `Reg::modify` of a register that holds `bits`. -/
def Reg.modify (bits : BitVec n) (f : BitVec n → BitVec n → Gen (BitVec n)) :
    Gen (Effect n (BitVec n)) := do
  let value ← f bits (bits &&& ~~~spec.oneToModifyFieldsBitmap ||| spec.zeroToModifyFieldsBitmap)
  return ⟨[.register value], value⟩

/-- `Reg::from_modify` of a register that holds `bits`. -/
def Reg.fromModify (bits : BitVec n) (f : BitVec n → BitVec n → Gen (BitVec n × α)) :
    Gen (Effect n α) := do
  let writer := bits &&& ~~~spec.oneToModifyFieldsBitmap ||| spec.zeroToModifyFieldsBitmap
  let (writer, result) ← f bits writer
  return ⟨[.register writer], result⟩

/-- `Reg::reset`. -/
def Reg.reset : Effect n Unit := ⟨[.register spec.resetValue], ()⟩

/-- `Reg::write_with_zero`. -/
def Reg.writeWithZero (f : BitVec n → Gen (BitVec n)) : Gen (Effect n (BitVec n)) := do
  let value ← f 0
  return ⟨[.register value], value⟩

/-- `Reg::from_write_with_zero`. -/
def Reg.fromWriteWithZero (f : BitVec n → Gen (BitVec n × α)) : Gen (Effect n α) := do
  let (writer, result) ← f 0
  return ⟨[.register writer], result⟩

end Operations

/-- `ccp_protected_write`. -/
def ccpProtectedWrite (magic val : BitVec 8) : List (Store 8) := [.ccp magic, .register val]

/-- `write_protected`. -/
def Reg.writeProtected (spec : RegisterSpec 8) (magic : BitVec 8)
    (f : BitVec 8 → Gen (BitVec 8)) : Gen (Effect 8 Unit) := do
  let val ← f (spec.resetValue &&& ~~~spec.oneToModifyFieldsBitmap |||
    spec.zeroToModifyFieldsBitmap)
  return ⟨ccpProtectedWrite magic val, ()⟩

/-- `modify_protected` of a register that holds `bits`. -/
def Reg.modifyProtected (spec : RegisterSpec 8) (magic bits : BitVec 8)
    (f : BitVec 8 → BitVec 8 → Gen (BitVec 8)) : Gen (Effect 8 Unit) := do
  let val ← f bits (bits &&& ~~~spec.oneToModifyFieldsBitmap ||| spec.zeroToModifyFieldsBitmap)
  return ⟨ccpProtectedWrite magic val, ()⟩

/-! ## Writers as insertions -/

theorem rawRegMask_ok {n wi : Nat} {mask : BitVec n} :
    rawRegMask n wi = .ok mask ↔ wi ≤ n ∧ lowMask n wi = mask := by
  unfold rawRegMask
  split
  · simp [lowMask, *]
  · simp [*]

theorem shlReg_ok {n o : Nat} {x y : BitVec n} : shlReg x o = .ok y ↔ o < n ∧ x <<< o = y := by
  unfold shlReg
  split
  · simp [*]
  · simp [*]

/-- **Field writers insert.**  `bits` returns exactly for a mask that fits the type
and an offset inside it, and has then replaced the field. -/
theorem FieldWriter.bits_ok {n : Nat} {w w' : BitVec n} {o wi value : Nat} :
    FieldWriter.bits w o wi value = .ok w' ↔
      wi ≤ n ∧ o < n ∧ insert w o wi (BitVec.ofNat n value) = w' := by
  simp only [FieldWriter.bits, gen_bind_ok, rawRegMask_ok, shlReg_ok, gen_pure_ok]
  constructor
  · intro h
    obtain ⟨mask, ⟨hwi, rfl⟩, hole, ⟨ho, rfl⟩, field, ⟨-, rfl⟩, hw⟩ := h
    exact ⟨hwi, ho, hw⟩
  · intro h
    obtain ⟨hwi, ho, hw⟩ := h
    exact ⟨_, ⟨hwi, rfl⟩, _, ⟨ho, rfl⟩, _, ⟨ho, rfl⟩, hw⟩

/-- **Bit writers insert.**  Every method of a bit writer replaces one bit by the
value it leaves. -/
theorem BitWriter.bit_ok {n : Nat} {w w' : BitVec n} {o : Nat} {value : Bool} :
    BitWriter.bit w o value = .ok w' ↔
      o < n ∧ insert w o 1 (BitVec.ofNat n value.toNat) = w' := by
  simp only [BitWriter.bit, gen_bind_ok, shlReg_ok, gen_pure_ok]
  constructor
  · intro h
    obtain ⟨hole, ⟨ho, rfl⟩, field, ⟨-, rfl⟩, hw⟩ := h
    rw [one_eq_lowMask (by omega)] at hw
    exact ⟨ho, hw⟩
  · intro h
    obtain ⟨ho, hw⟩ := h
    refine ⟨_, ⟨ho, rfl⟩, _, ⟨ho, rfl⟩, ?_⟩
    rw [one_eq_lowMask (by omega)]
    exact hw

theorem BitWriter.run_ok {n : Nat} {w w' : BitVec n} {o : Nat} {leaves : Bool} :
    BitWriter.run leaves w o = .ok w' ↔
      o < n ∧ insert w o 1 (BitVec.ofNat n leaves.toNat) = w' := by
  cases leaves with
  | true =>
      have hrun : BitWriter.run true w o = .ok w' ↔ o < n ∧ w ||| (1 : BitVec n) <<< o = w' := by
        simp only [BitWriter.run, BitWriter.orOne, if_true, gen_bind_ok, shlReg_ok, gen_pure_ok]
        constructor
        · intro h
          obtain ⟨one, ⟨ho, rfl⟩, hw⟩ := h
          exact ⟨ho, hw⟩
        · intro h
          exact ⟨_, ⟨h.1, rfl⟩, h.2⟩
      rw [hrun]
      apply and_congr_right
      intro ho
      have hone := one_eq_lowMask (n := n) (by omega)
      have hvalue : BitVec.ofNat n true.toNat &&& lowMask n 1 =
          BitVec.allOnes n &&& lowMask n 1 := by
        rw [BitVec.allOnes_and, ← hone]
        exact BitVec.and_self
      rw [hone, or_shiftLeft_lowMask, insert_congr hvalue]
  | false =>
      have hrun : BitWriter.run false w o = .ok w' ↔
          o < n ∧ w &&& ~~~((1 : BitVec n) <<< o) = w' := by
        simp only [BitWriter.run, BitWriter.andNotOne, Bool.false_eq_true, if_false, gen_bind_ok,
          shlReg_ok, gen_pure_ok]
        constructor
        · intro h
          obtain ⟨one, ⟨ho, rfl⟩, hw⟩ := h
          exact ⟨ho, hw⟩
        · intro h
          exact ⟨_, ⟨h.1, rfl⟩, h.2⟩
      rw [hrun]
      apply and_congr_right
      intro ho
      rw [one_eq_lowMask (n := n) (by omega), and_not_shiftLeft_lowMask]
      rfl

end Svd2Rust
