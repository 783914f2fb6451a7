import Mathlib.Data.List.Sort
import Svd2Rust.Accessors
import Svd2Rust.EnumDecoding
import Svd2Rust.GenericRegister

/-!
# Rendering the fields of a register

`register::fields` and what `render_register_mod` does around it: for each field
the reader and writer proxies, the accessors with their read expressions and
offsets, and the two bitmaps of the fields whose neutral bit is not the value
read.  Documentation strings of the generated code are left out.

A proxy is either a type of `generic.rs` or a re-export of the proxy of the field
an enumeration is derived from.  What the other register emitted there is not
known here, so a re-export keeps the path of its base.
-/

namespace Svd2Rust

open RustStrings

/-! ## Enumerations of a field -/

/-- `register::EV`. -/
inductive EV where
  | new (values : EnumeratedValues)
  | derived (values : EnumeratedValues) (base : EnumPath)
deriving DecidableEq, Repr

def EV.values : EV → EnumeratedValues
  | .new values => values
  | .derived values _ => values

/-- `From<&(EnumeratedValues, Option<EnumPath>)> for EV`. -/
def EV.ofLookup : EnumeratedValues × Option EnumPath → EV
  | (values, some base) => .derived values base
  | (values, none) => .new values

/-- `ReadEnum` and `WriteEnum`, which differ in name only. -/
inductive DirectedEnum where
  | enum (ev : EV)
  | raw
deriving DecidableEq, Repr

/-- `register::RWEnum`. -/
inductive RWEnum where
  | readWriteCommon (ev : EV)
  | readWrite (read write : DirectedEnum)
  | read (read : DirectedEnum)
  | write (write : DirectedEnum)
deriving DecidableEq, Repr

def RWEnum.differentEnums : RWEnum → Bool
  | .readWrite (.enum _) (.enum _) => true
  | _ => false

def RWEnum.readEnum : RWEnum → Option EV
  | .readWriteCommon ev | .readWrite (.enum ev) _ | .read (.enum ev) => some ev
  | _ => none

def RWEnum.writeEnum : RWEnum → Option EV
  | .readWriteCommon ev | .readWrite _ (.enum ev) | .write (.enum ev) => some ev
  | _ => none

def RWEnum.generateWriteEnum : RWEnum → Bool
  | .readWrite _ (.enum _) | .write (.enum _) => true
  | _ => false

/-- `lookup_filter`. -/
def lookupFilter (evs : List (EnumeratedValues × Option EnumPath)) (usage : Usage) :
    Option (EnumeratedValues × Option EnumPath) :=
  (evs.find? fun evsbase => evsbase.1.usage = some usage).or evs.head?

/-- `impl Display` of the paths. -/
def BlockPath.display (path : BlockPath) : String :=
  path.path.foldl (fun text name => text ++ "." ++ name) path.peripheral

def FieldPath.display (path : FieldPath) : String :=
  path.register.block.display ++ "." ++ path.register.name ++ "." ++ path.name

/-- The `match` that picks the enumerations of a field. -/
def RWEnum.choose (canRead canWrite : Bool) (lookup : List (EnumeratedValues × Option EnumPath))
    (fpath : FieldPath) : Gen RWEnum :=
  match canRead, lookupFilter lookup .read, canWrite, lookupFilter lookup .write with
  | true, some e1, true, some e2 =>
      if e1.1 = e2.1 then return .readWriteCommon (.ofLookup e1)
      else return .readWrite (.enum (.ofLookup e1)) (.enum (.ofLookup e2))
  | true, some e, true, none => return .readWrite (.enum (.ofLookup e)) .raw
  | true, none, true, some e => return .readWrite .raw (.enum (.ofLookup e))
  | true, some e, false, _ => return .read (.enum (.ofLookup e))
  | true, none, false, _ => return .read .raw
  | false, _, true, some e => return .write (.enum (.ofLookup e))
  | false, _, true, none => return .write .raw
  | true, none, true, none => return .readWrite .raw .raw
  | false, _, false, _ => bail ("Field " ++ fpath.display ++ " is not writtable or readable")

/-- `lookup_results`: every enumeration with the path it is derived from. -/
def lookupResults (crates : Crates) (info : FieldInfo) (fdpath : Option FieldPath)
    (fpath : FieldPath) (index : Index) : Gen (List (EnumeratedValues × Option EnumPath)) :=
  info.enumeratedValues.mapM fun ev =>
    match ev.derivedFrom with
    | some dpath => do
        let (_, epath) ←
          crates.deriveEnumeratedValues { ev with derivedFrom := none } dpath fpath index
        let base ← unwrap (index.evs epath)
        return (base, some epath)
    | none =>
        return (ev, fdpath.map fun path => path.newEnum (ev.name.getD (removeDim path.name)))

/-! ## Types and widths -/

/-- The types `U32Ext::to_ty` names. -/
inductive RustTy where
  | bool
  | u8
  | u16
  | u32
  | u64
deriving DecidableEq, Repr

def RustTy.text : RustTy → String
  | .bool => "bool"
  | .u8 => "u8"
  | .u16 => "u16"
  | .u32 => "u32"
  | .u64 => "u64"

/-- The bits a value of the type has. -/
def RustTy.bits : RustTy → Nat
  | .bool => 1
  | .u8 => 8
  | .u16 => 16
  | .u32 => 32
  | .u64 => 64

/-- `U32Ext::to_ty`. -/
def toTy (width : Nat) : Gen RustTy :=
  if width = 1 then .ok .bool
  else if 2 ≤ width ∧ width ≤ 8 then .ok .u8
  else if 9 ≤ width ∧ width ≤ 16 then .ok .u16
  else if 17 ≤ width ∧ width ≤ 32 then .ok .u32
  else if 33 ≤ width ∧ width ≤ 64 then .ok .u64
  else bail s!"can't convert {width} bits into a Rust integral type"

/-- `u64::MAX >> (64 - width)` for a width the shift is defined for. -/
def widthMax (width : Nat) : Nat := (2 ^ 64 - 1) >>> (64 - width)

/-- `mask`. -/
def fieldMask (width : Nat) : Gen Nat :=
  if 64 < width then panicking "attempt to subtract with overflow"
  else if width = 0 then panicking "attempt to shift right with overflow"
  else .ok (widthMax width)

/-- `u32::next_power_of_two`. -/
def nextPowerOfTwo (n : Nat) : Nat := if n ≤ 1 then 1 else 2 ^ (Nat.log2 (n - 1) + 1)

/-- `rsize` in `render_register_mod`. -/
def registerSize (size : Nat) : Nat :=
  if size < 8 then 8 else if 2 ^ Nat.log2 size = size then size else nextPowerOfTwo size

theorem toTy_ok {width : Nat} {ty : RustTy} (h : toTy width = .ok ty) :
    1 ≤ width ∧ width ≤ ty.bits ∧ ty.bits ≤ 64 := by
  unfold toTy at h
  split at h
  · cases h
    simp [RustTy.bits, *]
  split at h
  · cases h
    simp only [RustTy.bits]
    omega
  split at h
  · cases h
    simp only [RustTy.bits]
    omega
  split at h
  · cases h
    simp only [RustTy.bits]
    omega
  split at h
  · cases h
    simp only [RustTy.bits]
    omega
  · simp at h

theorem le_registerSize (size : Nat) : size ≤ registerSize size := by
  unfold registerSize
  split
  · omega
  split
  · exact Nat.le_refl size
  · unfold nextPowerOfTwo
    rw [if_neg (by omega)]
    have hlog := @Nat.lt_log2_self (size - 1)
    omega

/-- The storage type of a register has exactly the rounded bits. -/
theorem toTy_registerSize {size : Nat} {rty : RustTy}
    (h : toTy (registerSize size) = .ok rty) : rty.bits = registerSize size := by
  have hle : size < 65 := by
    have hty := toTy_ok h
    have hround := le_registerSize size
    omega
  have hall : ∀ size < 65, registerSize size ∈ [8, 16, 32, 64] := by decide
  have hmem := hall size hle
  generalize registerSize size = n at h hmem ⊢
  simp only [List.mem_cons, List.not_mem_nil, or_false] at hmem
  rcases hmem with rfl | rfl | rfl | rfl
  · cases h
    rfl
  · cases h
    rfl
  · cases h
    rfl
  · cases h
    rfl

/-- The mask of a field width is all its bits. -/
theorem widthMax_eq {width : Nat} (h : width ≤ 64) : widthMax width = 2 ^ width - 1 := by
  have hpow : 2 ^ width * 2 ^ (64 - width) = 2 ^ 64 := by
    rw [← Nat.pow_add]
    congr 1
    omega
  have hpos : 0 < 2 ^ (64 - width) := Nat.two_pow_pos _
  have hwidth : 0 < 2 ^ width := Nat.two_pow_pos _
  rw [widthMax, Nat.shiftRight_eq_div_pow]
  apply Nat.div_eq_of_lt_le
  · rw [Nat.sub_mul, hpow]
    omega
  · rw [Nat.sub_add_cancel hwidth, hpow]
    omega

/-! ## Write safety -/

/-- `register::Safety`. -/
inductive Safety where
  | unsafe_
  | range (range : WriteConstraintRange)
  | safe
deriving DecidableEq, Repr

/-- `Safety::get`. -/
def Safety.get (constraint : Option WriteConstraint) (width : Nat) : Safety :=
  match constraint with
  | some (.range r) =>
      if r.min = 0 ∧ r.max = widthMax width then .safe else .range r
  | none => if width = 1 then .safe else .unsafe_
  | _ => .unsafe_

/-- `Safety::ident`. -/
def Safety.ident (safety : Safety) (width : Nat) : SafetyMarker :=
  match safety with
  | .safe => .safe
  | .unsafe_ => .unsafe_
  | .range r =>
      if r.min = 0 then .rangeTo r.max
      else if r.max = widthMax width then .rangeFrom r.min
      else .range r.min r.max

/-! ## Generated code -/

/-- A read proxy: a reader of `generic.rs` or a re-export. -/
inductive ReaderTy where
  | bitReader (valueTy : String)
  | fieldReader (valueTy : String)
  | reexport (base : EnumPath)
deriving DecidableEq, Repr

/-- A writer of `generic.rs`; `wi` is the width a field writer masks to. -/
inductive WriterProxy where
  | bitWriter (marker : BitMarker) (valueTy : String)
  | fieldWriter (wi : Nat) (valueTy : String) (marker : SafetyMarker)
deriving DecidableEq, Repr

/-- A write proxy: a writer of `generic.rs` or a re-export. -/
inductive WriterTy where
  | own (proxy : WriterProxy)
  | reexport (base : EnumPath)
deriving DecidableEq, Repr

/-- The offset operand of an accessor: a literal, or `n * increment + offset`
without the parts that change nothing. -/
inductive OffsetExpr where
  | literal (offset : Nat)
  | indexed (increment offset : Option Nat)
deriving DecidableEq, Repr

/-- `calculate_offset`. -/
def calculateOffset (increment offset : Nat) : OffsetExpr :=
  .indexed (literalUnless increment 1) (literalUnless offset 0)

/-- The conversion behind a read value: `!= 0` or `as`. -/
inductive Cast where
  | notZero
  | as (ty : RustTy)
deriving DecidableEq, Repr

/-- The read expression of an accessor, `((self.bits >> shift) & mask) cast`. -/
structure ReadExpr where
  shift : Option OffsetExpr
  mask : Option Nat
  cast : Option Cast
deriving DecidableEq, Repr

/-- A method of `R`. -/
inductive ReadAccessor where
  | named (name : String) (value : ReadExpr)
  | indexed (name : String) (dim : Nat) (value : ReadExpr)
  | iter (name : String) (dim : Nat) (value : ReadExpr)
deriving DecidableEq, Repr

/-- A method of `W`. -/
inductive WriteAccessor where
  | named (name : String) (offset : Nat)
  | indexed (name : String) (dim : Nat) (offset : OffsetExpr)
deriving DecidableEq, Repr

/-- A generated variant method of a writer. -/
structure VariantWriter where
  name : String
  pc : String
  value : Nat
deriving DecidableEq, Repr

/-- The code for reading a field.  `valueReexport` is the base whose enum is
re-exported as `valueTy`. -/
structure ReaderCode where
  ty : String
  proxy : ReaderTy
  valueTy : String
  valueReexport : Option EnumPath
  enumReader : Option EnumReader
  accessors : List ReadAccessor
deriving DecidableEq, Repr

/-- The code for writing a field. -/
structure WriterCode where
  ty : String
  proxy : WriterTy
  valueTy : String
  valueReexport : Option EnumPath
  variants : List VariantWriter
  modifiedWriteValues : ModifiedWriteValues
  bitmask : Nat
  accessors : List WriteAccessor
deriving DecidableEq, Repr

/-- The code for a field. -/
structure FieldCode where
  field : Field
  reader : Option ReaderCode
  writer : Option WriterCode
deriving DecidableEq, Repr

/-- The names `fields` has used so far; a proxy that was re-exported under a name
is not re-exported again. -/
structure Derives where
  enums : List String
  readEnums : List String
  writeEnums : List String
  readers : List (String × EnumPath)
  writers : List (String × EnumPath)

/-! ## One field -/

/-- Whether a field can be read and written: the register's access, narrowed by
the field's own. -/
def fieldCanRead (access : Access) (info : FieldInfo) : Bool :=
  access.canRead && info.access != some .writeOnly && info.access != some .writeOnce

def fieldCanWrite (access : Access) (info : FieldInfo) : Bool :=
  access.canWrite && info.access != some .readOnly

/-- `(use_cast, use_mask)`.  Both tests are on the bits of the storage type: the source
shadows `size` with `size.to_ty_width()?` before it compares. -/
def castAndMask (size : Option Nat) (width : Nat) : Gen (Bool × Bool) :=
  match size with
  | some size => do
      let size ← toTyWidth size
      let widthTy ← toTyWidth width
      return (size != widthTy, size != width)
  | none => return (true, true)

/-- `rv`: the bits of the field in the reset value. -/
def resetBits (resetValue : Option Nat) (offset mask : Nat) : Gen (Option Nat) :=
  match resetValue with
  | some rv =>
      if offset < 64 then .ok (some ((rv >>> offset) &&& mask))
      else panicking "attempt to shift right with overflow"
  | none => .ok none

/-- `cast`. -/
def readCast (width : Nat) (fty : RustTy) : Cast := if width = 1 then .notZero else .as fty

/-- The read expression of a named accessor. -/
def namedRead (offset mask : Nat) (cast : Cast) (useCast useMask : Bool) : ReadExpr where
  shift := (literalUnless offset 0).map .literal
  mask := if useMask then some mask else none
  cast := if useMask && useCast then some cast else none

/-- The read expression of an indexed accessor. -/
def indexedRead (increment offset mask : Nat) (cast : Cast) : ReadExpr :=
  ⟨some (calculateOffset increment offset), some mask, some cast⟩

/-- The bit writer of a `modifiedWriteValues`. -/
def bitMarkerOf : ModifiedWriteValues → BitMarker
  | .modify | .set | .clear => .bitM
  | .oneToSet => .bit1S
  | .zeroToClear => .bit0C
  | .oneToClear => .bit1C
  | .zeroToSet => .bit0S
  | .oneToToggle => .bit1T
  | .zeroToToggle => .bit0T

/-- The writer of `generic.rs` for a field. -/
def writerProxy (width : Nat) (mwv : ModifiedWriteValues) (valueTy : String) (safety : Safety) :
    WriterProxy :=
  if width = 1 then .bitWriter (bitMarkerOf mwv) valueTy
  else if safety ≠ .safe then .fieldWriter width valueTy .unsafe_
  else .fieldWriter width valueTy (safety.ident width)

/-- The reader of `generic.rs` for a field. -/
def readerProxy (width : Nat) (valueTy : String) : ReaderTy :=
  if width = 1 then .bitReader valueTy else .fieldReader valueTy

section Fields

variable (crates : Crates) (config : Config)

/-- The text of `field_accessor`; `INTERNALS` are methods every reader and writer has. -/
def fieldAccessorText (name : String) : String :=
  let sc := identText crates config name .fieldAccessor
  if sc ∈ ["bits", "set"] then sc ++ "_" else sc

/-- `field_accessor`. -/
def fieldAccessor (name : String) : Gen String :=
  newIdent crates (fieldAccessorText crates config name)

/-- The text of the name of an enum's type. -/
def enumTypeName (name : String) (ev : EV) (kind : IdentKind) : String :=
  identText crates config
    (if config.fieldNamesForEnums then name else ev.values.name.getD name) kind

/-- The type of the values of a field: its enum, or the Rust type of its bits. -/
def valueTyName (ev : Option EV) (name : String) (kind : IdentKind) (fty : RustTy) : String :=
  match ev with
  | some ev => enumTypeName crates config name ev kind
  | none => fty.text

/-- The type of the values with its identifier made. -/
def valueTyIdent (ev : Option EV) (name : String) (kind : IdentKind) (fty : RustTy) :
    Gen String :=
  match ev with
  | some ev => newIdent crates (enumTypeName crates config name ev kind)
  | none => return fty.text

/-- The identifiers of `util::block_path_to_ty`, behind the path of the crate. -/
def blockPathIdents (bpath : BlockPath) : Gen (List String) := do
  let peripheral ← ident crates config (removeDim bpath.peripheral) .peripheralMod
  let clusters ← bpath.path.mapM fun ps => ident crates config (removeDim ps) .clusterMod
  return peripheral :: clusters

/-- The identifiers of `base_syn_path` in front of that of the base. -/
def basePathIdents (base : EnumPath) (fpath : FieldPath) : Gen (List String) :=
  if base.field.register = fpath.register then return []
  else do
    let block ← if base.field.register.block = fpath.register.block then pure ["super"]
      else blockPathIdents crates config base.field.register.block
    let reg ← ident crates config (removeDim base.field.register.name) .registerMod
    return block ++ [reg]

/-- The identifiers of what a derived enumeration re-exports: `base_ident` is made in any
case, the path to it for a name that is re-exported for the first time. -/
def reexportIdents (ev : Option EV) (fpath : FieldPath) (baseName : EnumPath → String)
    (kind : IdentKind) (fresh : Bool) : Gen (List String) :=
  match ev with
  | some (.derived _ base) => do
      let baseIdent ← ident crates config (baseName base) kind
      let path ← if fresh then basePathIdents crates config base fpath else pure []
      return path ++ [baseIdent]
  | _ => return []

/-- The name of the enum a derived enumeration is re-exported from. -/
def baseEnumName (base : EnumPath) : String :=
  if config.fieldNamesForEnums then removeDim base.field.name else base.name

/-- Variants and safety of a written enumeration. -/
def writeVariants (evs : EnumeratedValues) (width : Nat) (safety : Safety) :
    Gen (List Variant × Safety) := do
  let variants ← Variant.fromEnumeratedValues crates config evs
  let default ← defaultVariant crates config evs width
  let default ← newDefault crates default
  let full ← shlOne width
  if variants.length = full then return (variants, .safe)
  else match default with
    | some v => return (variants ++ [v], .safe)
    | none => return (variants, safety)

/-- The variant methods of a writer and what is left of its safety. -/
def writeEnumCode (rwenum : RWEnum) (width : Nat) (safety : Safety) :
    Gen (List VariantWriter × Safety) :=
  match rwenum.writeEnum with
  | some (.new evs) => do
      let (variants, safety) ← writeVariants crates config evs width safety
      return (variants.map fun v => ⟨v.sc, v.pc, v.value⟩, safety)
  | _ => return ([], safety)

/-- Read accessors of a field: by index, by iterator and by the name of each
element, or one of the field's name. -/
def readAccessors (field : Field) (name : String) (mask : Nat) (fty : RustTy)
    (useCast useMask : Bool) : Gen (List ReadAccessor) :=
  let cast := readCast field.info.bitRange.width fty
  match field with
  | .array info dim => do
      let _firstName ← unwrap (crates.names info.name dim).head?
      let value := indexedRead dim.dimIncrement info.bitRange.offset mask cast
      let named ← (crates.fieldExpand info dim).mapM fun element => do
        let nameN ← fieldAccessor crates config element.name
        return ReadAccessor.named nameN
          (namedRead element.bitRange.offset mask cast useCast useMask)
      return .indexed name dim.dim value :: .iter (name ++ "_iter") dim.dim value :: named
  | .single info => return [.named name (namedRead info.bitRange.offset mask cast useCast useMask)]

/-- Write accessors of a field. -/
def writeAccessors (field : Field) (name : String) : Gen (List WriteAccessor) :=
  match field with
  | .array info dim => do
      let _firstName ← unwrap (crates.names info.name dim).head?
      let named ← (crates.fieldExpand info dim).mapM fun element => do
        let nameN ← fieldAccessor crates config element.name
        return WriteAccessor.named nameN element.bitRange.offset
      return .indexed name dim.dim (calculateOffset dim.dimIncrement info.bitRange.offset) :: named
  | .single info => return [.named name info.bitRange.offset]

/-- The name the accessors of a field start from. -/
def accessorName (field : Field) : String :=
  match field with
  | .array info dim => dim.dimName.getD (removeDim info.name)
  | .single info => removeDim info.name

/-- The enum of a readable field that is not derived. -/
def readEnumCode (rwenum : RWEnum) (width : Nat) : Gen (Option EnumReader) :=
  match rwenum.readEnum with
  | some (.new evs) => do
      let reader ← readEnum crates config evs width
      return some reader
  | _ => return none

/-- The read proxy, and the names used after it. -/
def readerTy (rwenum : RWEnum) (width : Nat) (ty valueTy : String) (derives : Derives) :
    ReaderTy × Derives :=
  match rwenum.readEnum with
  | some (.derived _ base) => match derives.readers.lookup ty with
      | some first => (.reexport first, derives)
      | none => (.reexport base, { derives with readers := (ty, base) :: derives.readers })
  | _ => (readerProxy width valueTy, derives)

/-- The write proxy, and the names used after it. -/
def writerTy (rwenum : RWEnum) (width : Nat) (mwv : ModifiedWriteValues) (safety : Safety)
    (ty valueTy : String) (derives : Derives) : WriterTy × Derives :=
  match rwenum.writeEnum with
  | some (.derived _ base) => match derives.writers.lookup ty with
      | some first => (.reexport first, derives)
      | none => (.reexport base, { derives with writers := (ty, base) :: derives.writers })
  | _ => (.own (writerProxy width mwv valueTy safety), derives)

/-- The format of an enum's name, and the names of that kind used so far. -/
def readEnumKind (rwenum : RWEnum) : IdentKind :=
  if rwenum.differentEnums then .enumReadName else .enumName

def readEnumSeen (rwenum : RWEnum) (derives : Derives) : List String :=
  if rwenum.differentEnums then derives.readEnums else derives.enums

def writeEnumKind (rwenum : RWEnum) : IdentKind :=
  if rwenum.differentEnums then .enumWriteName else .enumName

def writeEnumSeen (rwenum : RWEnum) (derives : Derives) : List String :=
  if rwenum.differentEnums then derives.writeEnums else derives.enums

/-- The code for reading a field once its identifiers are made, and the names used after
it. -/
def assembleReader (field : Field) (rwenum : RWEnum) (derives : Derives) (valueTy ty : String)
    (enumReader : Option EnumReader) (accessors : List ReadAccessor) : ReaderCode × Derives :=
  let seen := readEnumSeen rwenum derives
  let valueReexport := match rwenum.readEnum with
    | some (.derived _ base) => if valueTy ∈ seen then none else some base
    | _ => none
  let derives := match rwenum.readEnum with
    | some _ =>
        if rwenum.differentEnums then { derives with readEnums := valueTy :: seen }
        else { derives with enums := valueTy :: seen }
    | none => derives
  let proxy := readerTy rwenum field.info.bitRange.width ty valueTy derives
  (⟨ty, proxy.1, valueTy, valueReexport, enumReader, accessors⟩, proxy.2)

/-- The part of the loop body for a readable field; its accessors are called
`nameSnakeCase`. -/
def readerCode (fpath : FieldPath) (nameSnakeCase : String) (field : Field) (rwenum : RWEnum)
    (mask : Nat) (fty : RustTy) (useCast useMask : Bool) (derives : Derives) :
    Gen (ReaderCode × Derives) := do
  let width := field.info.bitRange.width
  let name := removeDim field.info.name
  let kind := readEnumKind rwenum
  let valueTy ← valueTyIdent crates config rwenum.readEnum name kind fty
  let enumReader ← readEnumCode crates config rwenum width
  let _basePath ← reexportIdents crates config rwenum.readEnum fpath (baseEnumName config) kind
    (valueTy ∉ readEnumSeen rwenum derives)
  let ty ← ident crates config name .fieldReader
  let _basePath ← reexportIdents crates config rwenum.readEnum fpath
    (fun base => removeDim base.field.name) .fieldReader (derives.readers.lookup ty).isNone
  let accessors ← readAccessors crates config field nameSnakeCase mask fty useCast useMask
  return assembleReader field rwenum derives valueTy ty enumReader accessors

/-- The code for writing a field once its identifiers are made, and the names used after
it. -/
def assembleWriter (field : Field) (rwenum : RWEnum) (rmwv : Option ModifiedWriteValues)
    (derives : Derives) (valueTy ty : String) (variants : List VariantWriter) (safety : Safety)
    (accessors : List WriteAccessor) : WriterCode × Derives :=
  let seen := writeEnumSeen rwenum derives
  let valueReexport := match rwenum.writeEnum with
    | some (.derived _ base) =>
        if rwenum.generateWriteEnum && valueTy ∉ seen then some base else none
    | _ => none
  let derives := match rwenum.writeEnum with
    | some _ =>
        if rwenum.differentEnums then { derives with writeEnums := valueTy :: seen }
        else { derives with enums := valueTy :: seen }
    | none => derives
  let mwv := (field.info.modifiedWriteValues.or rmwv).getD default
  let proxy := writerTy rwenum field.info.bitRange.width mwv safety ty valueTy derives
  (⟨ty, proxy.1, valueTy, valueReexport, variants, mwv, crates.bitmask field, accessors⟩, proxy.2)

/-- The part of the loop body for a writable field. -/
def writerCode (fpath : FieldPath) (nameSnakeCase : String) (field : Field) (rwenum : RWEnum)
    (fty : RustTy) (rmwv : Option ModifiedWriteValues) (derives : Derives) :
    Gen (WriterCode × Derives) := do
  let width := field.info.bitRange.width
  let name := removeDim field.info.name
  let kind := writeEnumKind rwenum
  let valueTy ← valueTyIdent crates config rwenum.writeEnum name kind fty
  let (variants, safety) ←
    writeEnumCode crates config rwenum width (Safety.get field.info.writeConstraint width)
  let _basePath ← reexportIdents crates config rwenum.writeEnum fpath (baseEnumName config) kind
    (rwenum.generateWriteEnum && valueTy ∉ writeEnumSeen rwenum derives)
  let ty ← ident crates config name .fieldWriter
  let _basePath ← reexportIdents crates config rwenum.writeEnum fpath
    (fun base => removeDim base.field.name) .fieldWriter (derives.writers.lookup ty).isNone
  let accessors ← writeAccessors crates config field nameSnakeCase
  return assembleWriter crates field rwenum rmwv derives valueTy ty variants safety accessors

/-- The reader of a field that can be read. -/
def readerCodeIf (canRead : Bool) (fpath : FieldPath) (nameSnakeCase : String) (field : Field)
    (rwenum : RWEnum) (mask : Nat) (fty : RustTy) (useCast useMask : Bool) (derives : Derives) :
    Gen (Option ReaderCode × Derives) :=
  if canRead then do
    let (code, derives) ←
      readerCode crates config fpath nameSnakeCase field rwenum mask fty useCast useMask derives
    return (some code, derives)
  else return (none, derives)

/-- The writer of a field that can be written. -/
def writerCodeIf (canWrite : Bool) (fpath : FieldPath) (nameSnakeCase : String) (field : Field)
    (rwenum : RWEnum) (fty : RustTy) (rmwv : Option ModifiedWriteValues) (derives : Derives) :
    Gen (Option WriterCode × Derives) :=
  if canWrite then do
    let (code, derives) ←
      writerCode crates config fpath nameSnakeCase field rwenum fty rmwv derives
    return (some code, derives)
  else return (none, derives)

/-- What every field goes through before its code is made. -/
def resolveField (field : Field) (rpath : RegisterPath) (index : Index) :
    Gen (Field × Option FieldPath) :=
  match field.info.derivedFrom with
  | some dpath => crates.deriveField (field.mapInfo fun info => { info with derivedFrom := none })
      dpath rpath index
  | none => return (field, none)

/-- The body of the loop of `register::fields`. -/
def fieldCode (rmwv : Option ModifiedWriteValues) (access : Access)
    (properties : RegisterProperties) (rpath : RegisterPath) (index : Index)
    (derives : Derives) (field : Field) : Gen (FieldCode × Derives) := do
  let (field, fdpath) ← resolveField crates field rpath index
  let info := field.info
  let fpath := rpath.newField info.name
  if field.isSingle && contains info.name "%s" then bail ("incorrect field " ++ info.name)
  else
    let nameSnakeCase ← fieldAccessor crates config (accessorName field)
    let mask ← fieldMask info.bitRange.width
    let _resetBits ← resetBits properties.resetValue info.bitRange.offset mask
    let fty ← toTy info.bitRange.width
    let (useCast, useMask) ← castAndMask properties.size info.bitRange.width
    let lookup ← lookupResults crates info fdpath fpath index
    let canRead := fieldCanRead access info
    let canWrite := fieldCanWrite access info
    let rwenum ← RWEnum.choose canRead canWrite lookup fpath
    let (reader, derives) ← readerCodeIf crates config canRead fpath nameSnakeCase field rwenum
      mask fty useCast useMask derives
    let (writer, derives) ←
      writerCodeIf crates config canWrite fpath nameSnakeCase field rwenum fty rmwv derives
    return (⟨field, reader, writer⟩, derives)

/-! ## All fields -/

/-- What `register::fields` returns. -/
structure FieldsCode where
  fields : List FieldCode
  zeroToModifyFieldsBitmap : Nat
  oneToModifyFieldsBitmap : Nat
deriving DecidableEq, Repr

/-- Whether a field of that kind keeps still when it is written 0, or 1. -/
def ModifiedWriteValues.oneToModify : ModifiedWriteValues → Bool
  | .oneToSet | .oneToClear | .oneToToggle => true
  | _ => false

def ModifiedWriteValues.zeroToModify : ModifiedWriteValues → Bool
  | .zeroToClear | .zeroToSet | .zeroToToggle => true
  | _ => false

/-- What a field adds to the bitmap of the kinds. -/
def FieldCode.bitsOf (fc : FieldCode) (kind : ModifiedWriteValues → Bool) : Nat :=
  match fc.writer with
  | some writer => if kind writer.modifiedWriteValues then writer.bitmask else 0
  | none => 0

/-- The two bitmaps after one more field. -/
def FieldsCode.push (code : FieldsCode) (fc : FieldCode) : FieldsCode where
  fields := code.fields ++ [fc]
  zeroToModifyFieldsBitmap := code.zeroToModifyFieldsBitmap ||| fc.bitsOf (·.zeroToModify)
  oneToModifyFieldsBitmap := code.oneToModifyFieldsBitmap ||| fc.bitsOf (·.oneToModify)

/-- One round of the loop. -/
def fieldsStep (rmwv : Option ModifiedWriteValues) (access : Access)
    (properties : RegisterProperties) (rpath : RegisterPath) (index : Index)
    (state : FieldsCode × Derives) (field : Field) : Gen (FieldsCode × Derives) := do
  let (code, derives) ←
    fieldCode crates config rmwv access properties rpath index state.2 field
  return (state.1.push code, derives)

/-- `register::fields`. -/
def fields (fields : List Field) (rmwv : Option ModifiedWriteValues) (access : Access)
    (properties : RegisterProperties) (rpath : RegisterPath) (index : Index) : Gen FieldsCode := do
  let sorted := fields.insertionSort fun a b => a.info.bitRange.offset ≤ b.info.bitRange.offset
  let (code, _derives) ← sorted.foldlM
    (fieldsStep crates config rmwv access properties rpath index)
    (⟨[], 0, 0⟩, ⟨[], [], [], [], []⟩)
  return code

/-! ## The register -/

/-- The code of a register's module: the storage type, the fields and what the
`Writable` and `Resettable` instances say. -/
structure RegisterCode where
  rty : RustTy
  canRead : Bool
  canWrite : Bool
  safety : SafetyMarker
  code : FieldsCode
  resetValue : Option Nat
deriving DecidableEq, Repr

/-- Fields the generator makes code for: "filter out all reserved fields, as we
should not generate code for them". -/
def RegisterInfo.renderedFields (info : RegisterInfo) : List Field :=
  (info.fields.getD []).filter fun field => !isReserved field.info.name

/-- `safe_ty`. -/
def registerSafety (info : RegisterInfo) (rsize : Nat) : Safety :=
  let first := (info.fields.getD []).head?.bind (·.info.writeConstraint)
  if Safety.get first rsize = .safe then .safe
  else if Safety.get info.writeConstraint rsize = .safe then .safe
  else .unsafe_

/-- The code of the rendered fields, if there are any. -/
def renderedFieldsCode (info : RegisterInfo) (access : Access) (rpath : RegisterPath)
    (index : Index) : Gen FieldsCode :=
  if info.renderedFields.isEmpty then return ⟨[], 0, 0⟩
  else fields crates config info.renderedFields info.modifiedWriteValues access info.properties
    rpath index

/-- `render_register_mod`. -/
def renderRegisterMod (register : Register) (access : Access) (rpath : RegisterPath)
    (index : Index) : Gen RegisterCode := do
  let info := register.info
  let name := nameOf register config.ignoreGroups
  let _regspecTy ← ident crates config name .registerSpec
  let _modTy ← ident crates config name .registerMod
  let size ← okOr ("Register " ++ info.name ++ " has no `size` field") info.properties.size
  let rsize := registerSize size
  let rty ← toTy rsize
  let code ← renderedFieldsCode crates config info access rpath index
  return {
    rty := rty
    canRead := access.canRead
    canWrite := access.canWrite
    safety := (registerSafety info rsize).ident rsize
    code := code
    resetValue := info.properties.resetValue }

end Fields

end Svd2Rust
