import Svd2Rust.FallibleRuns
import Svd2Rust.FieldRendering

/-!
# What field accessors do

The meaning of the generated accessors on a register value: an accessor of `R`
evaluates its read expression, one of `W` hands out a writer at an offset, and a
writer method turns the word to be stored into another one.  `IsFieldCode` is
what later modules need to know of the code of a field, and `fields_run` says
that every field of a rendered register is such code and what the bitmaps hold.
-/

namespace Svd2Rust

open BitFields

/-! ## Reading -/

/-- A value of a Rust type. -/
structure ReadValue where
  ty : RustTy
  value : Nat
deriving DecidableEq, Repr

/-- `u8::MAX`, for the index of an accessor. -/
def u8Max : Nat := 2 ^ 8 - 1

/-- `i32::MAX`, for the items of an iterator. -/
def i32Max : Nat := 2 ^ 31 - 1

/-- Checked arithmetic of a type with the given largest value. -/
def checkedNat (limit value : Nat) : Gen Nat :=
  if value ≤ limit then .ok value else panicking "attempt to compute with overflow"

/-- The offset for index `n`. -/
def OffsetExpr.eval (limit n : Nat) : OffsetExpr → Gen Nat
  | .literal offset => return offset
  | .indexed increment offset => do
      let scaled ← checkedNat limit (n * increment.getD 1)
      checkedNat limit (scaled + offset.getD 0)

/-- `>>` on a register type. -/
def shrReg {n : Nat} (x : BitVec n) (o : Nat) : Gen (BitVec n) :=
  if o < n then .ok (x >>> o) else panicking "attempt to shift right with overflow"

/-- `self.bits >> shift`, without a shift where the offset is zero. -/
def ReadExpr.shifted {n : Nat} (bits : BitVec n) (limit index : Nat) (e : ReadExpr) :
    Gen (BitVec n) :=
  match e.shift with
  | some shift => do
      let o ← shift.eval limit index
      shrReg bits o
  | none => return bits

/-- `& mask`, where there is a mask. -/
def ReadExpr.masked {n : Nat} (shifted : BitVec n) (e : ReadExpr) : BitVec n :=
  match e.mask with
  | some mask => shifted &&& BitVec.ofNat n mask
  | none => shifted

/-- The conversion of a masked value, which has the register's type. -/
def ReadExpr.convert (rty : RustTy) (masked : BitVec rty.bits) (e : ReadExpr) : ReadValue :=
  match e.cast with
  | none => ⟨rty, masked.toNat⟩
  | some .notZero => ⟨.bool, (masked != 0).toNat⟩
  | some (.as ty) => ⟨ty, masked.toNat % 2 ^ ty.bits⟩

/-- The read expression on a register of type `rty`. -/
def ReadExpr.eval (rty : RustTy) (bits : BitVec rty.bits) (limit index : Nat) (e : ReadExpr) :
    Gen ReadValue := do
  let shifted ← e.shifted bits limit index
  return e.convert rty (e.masked shifted)

/-- An accessor of `R` for index `n`; a named accessor has none, and an iterator
gives its item `n`. -/
def ReadAccessor.read (rty : RustTy) (bits : BitVec rty.bits) (n : Nat) :
    ReadAccessor → Gen ReadValue
  | .named _ value => value.eval rty bits u8Max n
  | .indexed _ dim value =>
      if n < dim then value.eval rty bits u8Max n else panicking "index out of bounds"
  | .iter _ dim value =>
      if n < dim then value.eval rty bits i32Max n else panicking "no such item"

/-! ## Writing -/

/-- The offset an accessor of `W` hands to the writer. -/
def WriteAccessor.offset (n : Nat) : WriteAccessor → Gen Nat
  | .named _ offset => return offset
  | .indexed _ dim offset =>
      if n < dim then offset.eval u8Max n else panicking "index out of bounds"

/-- A call of a writer method that takes or implies a field value.  `set` and
`variant` call `bits`, or `bit`, with the value they end up with. -/
inductive WriterCall where
  | bits (value : Nat)
  | bit (value : Bool)
  | method (method : BitMethod)
deriving DecidableEq, Repr

/-- The value a call leaves in the field, where the writer has the method. -/
def WriterProxy.leaves : WriterProxy → WriterCall → Option Nat
  | .fieldWriter _ _ _, .bits value => some value
  | .bitWriter _ _, .bit value => some value.toNat
  | .bitWriter marker _, .method method => (BitWriter.method marker method).map Bool.toNat
  | _, _ => none

/-- A call on a writer at offset `o` that starts from the word `w`. -/
def WriterProxy.run {n : Nat} (w : BitVec n) (o : Nat) :
    WriterProxy → WriterCall → Option (Gen (BitVec n))
  | .fieldWriter wi _ _, .bits value => some (FieldWriter.bits w o wi value)
  | .bitWriter _ _, .bit value => some (BitWriter.bit w o value)
  | .bitWriter marker _, .method method =>
      (BitWriter.method marker method).map fun leaves => BitWriter.run leaves w o
  | _, _ => none

/-- The width of the run a writer replaces. -/
def WriterProxy.width : WriterProxy → Nat
  | .bitWriter _ _ => 1
  | .fieldWriter wi _ _ => wi

/-- The proxies of other registers that re-exports name. -/
structure ProxyEnv where
  writer : EnumPath → WriterProxy

/-- The writer an alias stands for. -/
def ProxyEnv.resolve (env : ProxyEnv) : WriterTy → WriterProxy
  | .own proxy => proxy
  | .reexport base => env.writer base

/-- A writer method through an accessor.  What the generated code has no method for
does not compile. -/
def WriterCode.write {n : Nat} (env : ProxyEnv) (writer : WriterCode)
    (path : WriteAccessor × Nat) (call : WriterCall) (w : BitVec n) : Gen (BitVec n) := do
  let o ← path.1.offset path.2
  ((env.resolve writer.proxy).run w o call).getD (panicking "no such method")

/-- A method a writer has leaves a value. -/
theorem WriterProxy.leaves_of_run {n : Nat} {proxy : WriterProxy} {call : WriterCall}
    {w : BitVec n} {o : Nat} {result : Gen (BitVec n)} (h : proxy.run w o call = some result) :
    ∃ value, proxy.leaves call = some value := by
  cases proxy with
  | fieldWriter wi valueTy marker =>
      cases call with
      | bits v => exact ⟨v, rfl⟩
      | bit v => cases h
      | method m => cases h
  | bitWriter marker valueTy =>
      cases call with
      | bits v => cases h
      | bit v => exact ⟨v.toNat, rfl⟩
      | method m =>
          obtain ⟨leaves, hleaves, -⟩ := Option.map_eq_some_iff.mp h
          exact ⟨leaves.toNat, Option.map_eq_some_iff.mpr ⟨leaves, hleaves, rfl⟩⟩

/-- **Writers insert.**  Every call returns exactly when the run of the writer lies
inside the register's type, and then has replaced that run by the value. -/
theorem WriterProxy.run_ok {n : Nat} {proxy : WriterProxy} {call : WriterCall} {w w' : BitVec n}
    {o value : Nat} (h : proxy.leaves call = some value) :
    proxy.run w o call = some (.ok w') ↔
      proxy.width ≤ n ∧ o < n ∧ insert w o proxy.width (BitVec.ofNat n value) = w' := by
  have hpos : ∀ {P : Prop}, 1 ≤ n ∧ o < n ∧ P ↔ o < n ∧ P := by
    intro P
    constructor
    · intro h
      exact h.2
    · intro h
      exact ⟨by omega, h⟩
  cases proxy with
  | fieldWriter wi valueTy marker =>
      cases call with
      | bits v =>
          obtain rfl : v = value := Option.some.inj h
          simpa [WriterProxy.run, WriterProxy.width] using FieldWriter.bits_ok
      | bit v => cases h
      | method m => cases h
  | bitWriter marker valueTy =>
      cases call with
      | bits v => cases h
      | bit v =>
          obtain rfl : v.toNat = value := Option.some.inj h
          rw [WriterProxy.width, hpos]
          simpa [WriterProxy.run] using BitWriter.bit_ok
      | method m =>
          obtain ⟨leaves, hleaves, rfl⟩ := Option.map_eq_some_iff.mp h
          rw [WriterProxy.width, hpos]
          simpa [WriterProxy.run, hleaves] using BitWriter.run_ok

/-- A writer has a method that leaves 0. -/
theorem WriterProxy.exists_leaves_zero (proxy : WriterProxy) :
    ∃ call, proxy.leaves call = some 0 := by
  cases proxy with
  | bitWriter marker valueTy => exact ⟨.bit false, rfl⟩
  | fieldWriter wi valueTy marker => exact ⟨.bits 0, rfl⟩

/-- A call through an accessor inserts at the accessor's offset. -/
theorem WriterCode.write_ok {n : Nat} {env : ProxyEnv} {writer : WriterCode}
    {path : WriteAccessor × Nat} {call : WriterCall} {w w' : BitVec n} {o value : Nat}
    (ho : path.1.offset path.2 = .ok o)
    (h : (env.resolve writer.proxy).leaves call = some value) :
    writer.write env path call w = .ok w' ↔
      (env.resolve writer.proxy).width ≤ n ∧ o < n ∧
        insert w o (env.resolve writer.proxy).width (BitVec.ofNat n value) = w' := by
  rw [← WriterProxy.run_ok h, WriterCode.write, ho]
  change ((env.resolve writer.proxy).run w o call).getD _ = _ ↔ _
  cases (env.resolve writer.proxy).run w o call with
  | none => simp
  | some result => simp

/-! ## The code of a field -/

section Code

variable (crates : Crates) (config : Config)

/-- The offsets of the elements of a field, which are those it is expanded to. -/
def Field.elementOffsets : Field → List Nat
  | .single info => [info.bitRange.offset]
  | .array info dim => (crates.fieldExpand info dim).map (·.bitRange.offset)

/-- The accessors that read element `i`, with the index each is called with. -/
def readPaths (field : Field) (accessors : List ReadAccessor) (i : Nat) :
    List (ReadAccessor × Nat) :=
  match field, accessors with
  | .single _, accessors => accessors.map (·, i)
  | .array _ _, indexed :: iter :: named =>
      (indexed, i) :: (iter, i) :: named[i]?.toList.map (·, i)
  | .array _ _, _ => []

/-- The accessors that hand out the writer of element `i`. -/
def writePaths (field : Field) (accessors : List WriteAccessor) (i : Nat) :
    List (WriteAccessor × Nat) :=
  match field, accessors with
  | .single _, accessors => accessors.map (·, i)
  | .array _ _, indexed :: named => (indexed, i) :: named[i]?.toList.map (·, i)
  | .array _ _, [] => []

/-- What the code of a field is made of: its Rust type, the two flags of its read
expressions, and the accessors and proxies of the directions it has. -/
structure IsFieldCode (access : Access) (properties : RegisterProperties)
    (rmwv : Option ModifiedWriteValues) (fc : FieldCode) (fty : RustTy)
    (useCast useMask : Bool) : Prop where
  fty_ok : toTy fc.field.info.bitRange.width = .ok fty
  flags_ok : castAndMask properties.size fc.field.info.bitRange.width = .ok (useCast, useMask)
  reader_isSome : fc.reader.isSome = fieldCanRead access fc.field.info
  reader_accessors : ∀ reader ∈ fc.reader, ∃ name, readAccessors crates config fc.field name
    (widthMax fc.field.info.bitRange.width) fty useCast useMask = .ok reader.accessors
  reader_proxy : ∀ reader ∈ fc.reader,
    (∃ valueTy, reader.proxy = readerProxy fc.field.info.bitRange.width valueTy) ∨
      ∃ base, reader.proxy = .reexport base
  writer_isSome : fc.writer.isSome = fieldCanWrite access fc.field.info
  writer_accessors : ∀ writer ∈ fc.writer,
    ∃ name, writeAccessors crates config fc.field name = .ok writer.accessors
  writer_mwv : ∀ writer ∈ fc.writer,
    writer.modifiedWriteValues = (fc.field.info.modifiedWriteValues.or rmwv).getD default
  writer_bitmask : ∀ writer ∈ fc.writer, writer.bitmask = crates.bitmask fc.field
  writer_proxy : ∀ writer ∈ fc.writer,
    (∃ valueTy safety, writer.proxy = .own (writerProxy fc.field.info.bitRange.width
      writer.modifiedWriteValues valueTy safety)) ∨ ∃ base, writer.proxy = .reexport base

end Code

section Runs

variable {crates : Crates} {config : Config}

theorem fieldMask_ok {width mask : Nat} (h : fieldMask width = .ok mask) :
    mask = widthMax width := by
  unfold fieldMask at h
  split at h
  · simp at h
  split at h
  · simp at h
  · exact (Except.ok.inj h).symm

/-- A read proxy is the generic reader or a re-export. -/
theorem readerTy_eq (rwenum : RWEnum) (width : Nat) (ty valueTy : String) (derives : Derives) :
    (readerTy rwenum width ty valueTy derives).1 = readerProxy width valueTy ∨
      ∃ base, (readerTy rwenum width ty valueTy derives).1 = .reexport base := by
  unfold readerTy
  split
  · split
    · exact Or.inr ⟨_, rfl⟩
    · exact Or.inr ⟨_, rfl⟩
  · exact Or.inl rfl

/-- A write proxy is the generic writer or a re-export. -/
theorem writerTy_eq (rwenum : RWEnum) (width : Nat) (mwv : ModifiedWriteValues)
    (safety : Safety) (ty valueTy : String) (derives : Derives) :
    (writerTy rwenum width mwv safety ty valueTy derives).1 =
        .own (writerProxy width mwv valueTy safety) ∨
      ∃ base, (writerTy rwenum width mwv safety ty valueTy derives).1 = .reexport base := by
  unfold writerTy
  split
  · split
    · exact Or.inr ⟨_, rfl⟩
    · exact Or.inr ⟨_, rfl⟩
  · exact Or.inl rfl

theorem valueTyIdent_ok {ev : Option EV} {name ty : String} {kind : IdentKind} {fty : RustTy}
    (h : valueTyIdent crates config ev name kind fty = .ok ty) :
    valueTyName crates config ev name kind fty = ty := by
  cases ev with
  | none => exact gen_pure_ok.mp h
  | some ev => exact (newIdent_ok.mp h).2

/-- The code of a reader is assembled from its enum and its accessors, under the texts of its
names. -/
theorem readerCode_ok {fpath : FieldPath} {nameSnakeCase : String} {field : Field}
    {rwenum : RWEnum} {mask : Nat} {fty : RustTy} {useCast useMask : Bool} {derives : Derives}
    {code : ReaderCode × Derives}
    (h : readerCode crates config fpath nameSnakeCase field rwenum mask fty useCast useMask
      derives = .ok code) :
    ∃ enumReader accessors,
      readEnumCode crates config rwenum field.info.bitRange.width = .ok enumReader ∧
      readAccessors crates config field nameSnakeCase mask fty useCast useMask = .ok accessors ∧
      code = assembleReader field rwenum derives
        (valueTyName crates config rwenum.readEnum (removeDim field.info.name)
          (readEnumKind rwenum) fty)
        (identText crates config (removeDim field.info.name) .fieldReader) enumReader accessors := by
  obtain ⟨valueTy, hvalueTy, h⟩ := gen_bind_ok.mp h
  obtain ⟨enumReader, henum, h⟩ := gen_bind_ok.mp h
  obtain ⟨_, -, h⟩ := gen_bind_ok.mp h
  obtain ⟨ty, hty, h⟩ := gen_bind_ok.mp h
  obtain ⟨_, -, h⟩ := gen_bind_ok.mp h
  obtain ⟨accessors, haccessors, h⟩ := gen_bind_ok.mp h
  rw [valueTyIdent_ok hvalueTy, ident_text hty]
  exact ⟨enumReader, accessors, henum, haccessors, (gen_pure_ok.mp h).symm⟩

/-- The code of a writer is assembled from its variants and its accessors. -/
theorem writerCode_ok {fpath : FieldPath} {nameSnakeCase : String} {field : Field}
    {rwenum : RWEnum} {fty : RustTy} {rmwv : Option ModifiedWriteValues} {derives : Derives}
    {code : WriterCode × Derives}
    (h : writerCode crates config fpath nameSnakeCase field rwenum fty rmwv derives = .ok code) :
    ∃ variants safety accessors,
      writeEnumCode crates config rwenum field.info.bitRange.width
        (Safety.get field.info.writeConstraint field.info.bitRange.width) =
          .ok (variants, safety) ∧
      writeAccessors crates config field nameSnakeCase = .ok accessors ∧
      code = assembleWriter crates field rwenum rmwv derives
        (valueTyName crates config rwenum.writeEnum (removeDim field.info.name)
          (writeEnumKind rwenum) fty)
        (identText crates config (removeDim field.info.name) .fieldWriter) variants safety
        accessors := by
  obtain ⟨valueTy, hvalueTy, h⟩ := gen_bind_ok.mp h
  obtain ⟨⟨variants, safety⟩, hvariants, h⟩ := gen_bind_ok.mp h
  obtain ⟨_, -, h⟩ := gen_bind_ok.mp h
  obtain ⟨ty, hty, h⟩ := gen_bind_ok.mp h
  obtain ⟨_, -, h⟩ := gen_bind_ok.mp h
  obtain ⟨accessors, haccessors, h⟩ := gen_bind_ok.mp h
  rw [valueTyIdent_ok hvalueTy, ident_text hty]
  exact ⟨variants, safety, accessors, hvariants, haccessors, (gen_pure_ok.mp h).symm⟩

/-- The reader of a field, if the field can be read. -/
theorem readerCodeIf_ok {canRead : Bool} {fpath : FieldPath} {nameSnakeCase : String}
    {field : Field} {rwenum : RWEnum} {mask : Nat} {fty : RustTy} {useCast useMask : Bool}
    {derives derives' : Derives} {code : Option ReaderCode}
    (h : readerCodeIf crates config canRead fpath nameSnakeCase field rwenum mask fty useCast
      useMask derives = .ok (code, derives')) :
    code.isSome = canRead ∧ ∀ reader ∈ code,
      readAccessors crates config field nameSnakeCase mask fty useCast useMask =
        .ok reader.accessors ∧
      ((∃ valueTy, reader.proxy = readerProxy field.info.bitRange.width valueTy) ∨
        ∃ base, reader.proxy = .reexport base) := by
  unfold readerCodeIf at h
  cases canRead with
  | false =>
      have heq := gen_pure_ok.mp h
      rw [Prod.mk.injEq] at heq
      obtain ⟨rfl, -⟩ := heq
      exact ⟨rfl, fun reader hreader => absurd hreader (by simp)⟩
  | true =>
      obtain ⟨⟨reader, used⟩, hreader, h⟩ := gen_bind_ok.mp h
      have heq := gen_pure_ok.mp h
      rw [Prod.mk.injEq] at heq
      obtain ⟨rfl, -⟩ := heq
      refine ⟨rfl, fun code hcode => ?_⟩
      obtain rfl := Option.some.inj hcode
      obtain ⟨enumReader, accessors, -, haccessors, hcode⟩ := readerCode_ok hreader
      obtain ⟨rfl, -⟩ := Prod.mk.inj hcode
      refine ⟨haccessors, ?_⟩
      rcases readerTy_eq rwenum field.info.bitRange.width _ _ _ with hown | hbase
      · exact Or.inl ⟨_, hown⟩
      · exact Or.inr hbase

/-- The writer of a field, if the field can be written. -/
theorem writerCodeIf_ok {canWrite : Bool} {fpath : FieldPath} {nameSnakeCase : String}
    {field : Field} {rwenum : RWEnum} {fty : RustTy} {rmwv : Option ModifiedWriteValues}
    {derives derives' : Derives} {code : Option WriterCode}
    (h : writerCodeIf crates config canWrite fpath nameSnakeCase field rwenum fty rmwv derives =
      .ok (code, derives')) :
    code.isSome = canWrite ∧ ∀ writer ∈ code,
      writeAccessors crates config field nameSnakeCase = .ok writer.accessors ∧
      writer.modifiedWriteValues = (field.info.modifiedWriteValues.or rmwv).getD default ∧
      writer.bitmask = crates.bitmask field ∧
      ((∃ valueTy safety, writer.proxy = .own (writerProxy field.info.bitRange.width
        writer.modifiedWriteValues valueTy safety)) ∨ ∃ base, writer.proxy = .reexport base) := by
  unfold writerCodeIf at h
  cases canWrite with
  | false =>
      have heq := gen_pure_ok.mp h
      rw [Prod.mk.injEq] at heq
      obtain ⟨rfl, -⟩ := heq
      exact ⟨rfl, fun writer hwriter => absurd hwriter (by simp)⟩
  | true =>
      obtain ⟨⟨writer, used⟩, hwriter, h⟩ := gen_bind_ok.mp h
      have heq := gen_pure_ok.mp h
      rw [Prod.mk.injEq] at heq
      obtain ⟨rfl, -⟩ := heq
      refine ⟨rfl, fun code hcode => ?_⟩
      obtain rfl := Option.some.inj hcode
      obtain ⟨variants, safety, accessors, -, haccessors, hcode⟩ := writerCode_ok hwriter
      obtain ⟨rfl, -⟩ := Prod.mk.inj hcode
      refine ⟨haccessors, rfl, rfl, ?_⟩
      rcases writerTy_eq rwenum field.info.bitRange.width _ safety _ _ _ with hown | hbase
      · exact Or.inl ⟨_, _, hown⟩
      · exact Or.inr hbase

/-- **One field.**  A round of the loop that returns has made the code of a field.  Its mask,
its types and its accessors are determined by the field that is left after derivation. -/
theorem fieldCode_ok {rmwv : Option ModifiedWriteValues} {access : Access}
    {properties : RegisterProperties} {rpath : RegisterPath} {index : Index}
    {derives derives' : Derives} {field : Field} {fc : FieldCode}
    (h : fieldCode crates config rmwv access properties rpath index derives field =
      .ok (fc, derives')) :
    ∃ fty useCast useMask,
      IsFieldCode crates config access properties rmwv fc fty useCast useMask := by
  obtain ⟨⟨field, fdpath⟩, -, h⟩ := gen_bind_ok.mp h
  simp only at h
  split at h
  · simp at h
  obtain ⟨nameSnakeCase, -, h⟩ := gen_bind_ok.mp h
  obtain ⟨mask, hmask, h⟩ := gen_bind_ok.mp h
  obtain ⟨reset, -, h⟩ := gen_bind_ok.mp h
  obtain ⟨fty, hfty, h⟩ := gen_bind_ok.mp h
  obtain ⟨⟨useCast, useMask⟩, hflags, h⟩ := gen_bind_ok.mp h
  obtain ⟨lookup, -, h⟩ := gen_bind_ok.mp h
  obtain ⟨rwenum, -, h⟩ := gen_bind_ok.mp h
  obtain ⟨⟨reader, used⟩, hreader, h⟩ := gen_bind_ok.mp h
  obtain ⟨⟨writer, used'⟩, hwriter, h⟩ := gen_bind_ok.mp h
  have heq := gen_pure_ok.mp h
  rw [Prod.mk.injEq] at heq
  obtain ⟨rfl, -⟩ := heq
  obtain rfl := fieldMask_ok hmask
  obtain ⟨hreadable, hreaders⟩ := readerCodeIf_ok hreader
  obtain ⟨hwritable, hwriters⟩ := writerCodeIf_ok hwriter
  exact ⟨fty, useCast, useMask,
    { fty_ok := hfty
      flags_ok := hflags
      reader_isSome := hreadable
      reader_accessors := fun code hcode => ⟨nameSnakeCase, (hreaders code hcode).1⟩
      reader_proxy := fun code hcode => (hreaders code hcode).2
      writer_isSome := hwritable
      writer_accessors := fun code hcode => ⟨nameSnakeCase, (hwriters code hcode).1⟩
      writer_mwv := fun code hcode => (hwriters code hcode).2.1
      writer_bitmask := fun code hcode => (hwriters code hcode).2.2.1
      writer_proxy := fun code hcode => (hwriters code hcode).2.2.2 }⟩

/-! ## Offsets -/

/-- The element of an array at index `n`. -/
theorem elementOffsets_array (info : FieldInfo) (dim : DimElement) :
    Field.elementOffsets crates (.array info dim) =
      (List.range dim.dim).map fun i => info.bitRange.offset + i * dim.dimIncrement := by
  have hranges := congrArg (List.map BitRange.offset) (crates.fieldExpand_bitRanges info dim)
  simpa [Field.elementOffsets, Function.comp_def] using hranges

theorem checkedNat_ok {limit value o : Nat} :
    checkedNat limit value = .ok o ↔ value ≤ limit ∧ value = o := by
  unfold checkedNat
  split
  · simp [*]
  · simp [*]

/-- The offset expression of an array, where its arithmetic does not overflow. -/
theorem calculateOffset_eval {increment offset limit n o : Nat} :
    (calculateOffset increment offset).eval limit n = .ok o ↔
      offset + n * increment ≤ limit ∧ offset + n * increment = o := by
  have heval : (calculateOffset increment offset).eval limit n = (do
      let scaled ← checkedNat limit (n * (literalUnless increment 1).getD 1)
      checkedNat limit (scaled + (literalUnless offset 0).getD 0)) := rfl
  rw [heval, literalUnless_one_getD, literalUnless_zero_getD]
  simp only [gen_bind_ok, checkedNat_ok]
  constructor
  · intro h
    obtain ⟨scaled, ⟨hscaled, rfl⟩, hsum, rfl⟩ := h
    omega
  · intro h
    exact ⟨_, ⟨by omega, rfl⟩, by omega, by omega⟩

/-- The names of the elements are the texts of their identifiers. -/
theorem mapM_fieldAccessor {β : Type} {build : FieldInfo → String → β} {elements : List FieldInfo}
    {built : List β} (h : elements.mapM (fun element => do
      let nameN ← fieldAccessor crates config element.name
      return build element nameN) = .ok built) :
    built = elements.map fun element =>
      build element (fieldAccessorText crates config element.name) := by
  have hrounds := gen_mapM_ok.mp h
  clear h
  induction hrounds with
  | nil => rfl
  | cons hround _ ih =>
      obtain ⟨nameN, hname, hround⟩ := gen_bind_ok.mp hround
      rw [List.map_cons, ← ih, ← gen_pure_ok.mp hround, (newIdent_ok.mp hname).2]

/-- The write accessors of an array: the indexed one and those of its elements. -/
theorem writeAccessors_array {info : FieldInfo} {dim : DimElement} {name : String}
    {accessors : List WriteAccessor}
    (h : writeAccessors crates config (.array info dim) name = .ok accessors) :
    accessors = .indexed name dim.dim (calculateOffset dim.dimIncrement info.bitRange.offset) ::
      (crates.fieldExpand info dim).map fun element =>
        .named (fieldAccessorText crates config element.name) element.bitRange.offset := by
  obtain ⟨firstName, -, h⟩ := gen_bind_ok.mp h
  obtain ⟨named, hnamed, h⟩ := gen_bind_ok.mp h
  rw [← gen_pure_ok.mp h, mapM_fieldAccessor hnamed]

/-- The read accessors of an array: the indexed one, the iterator and those of its
elements. -/
theorem readAccessors_array {info : FieldInfo} {dim : DimElement} {name : String} {mask : Nat}
    {fty : RustTy} {useCast useMask : Bool} {accessors : List ReadAccessor}
    (h : readAccessors crates config (.array info dim) name mask fty useCast useMask =
      .ok accessors) :
    let cast := readCast info.bitRange.width fty
    let value := indexedRead dim.dimIncrement info.bitRange.offset mask cast
    accessors = .indexed name dim.dim value :: .iter (name ++ "_iter") dim.dim value ::
      (crates.fieldExpand info dim).map fun element =>
        .named (fieldAccessorText crates config element.name)
          (namedRead element.bitRange.offset mask cast useCast useMask) := by
  obtain ⟨firstName, -, h⟩ := gen_bind_ok.mp h
  obtain ⟨named, hnamed, h⟩ := gen_bind_ok.mp h
  rw [← gen_pure_ok.mp h, mapM_fieldAccessor hnamed]
  rfl

/-- Every offset an accessor hands out is that of an element. -/
theorem offset_mem_elementOffsets {field : Field} {name : String}
    {accessors : List WriteAccessor} (h : writeAccessors crates config field name = .ok accessors)
    {accessor : WriteAccessor} (hmem : accessor ∈ accessors) {n o : Nat}
    (ho : accessor.offset n = .ok o) : o ∈ field.elementOffsets crates := by
  cases field with
  | single info =>
      obtain rfl := gen_pure_ok.mp h
      obtain rfl := List.mem_singleton.mp hmem
      obtain rfl := gen_pure_ok.mp ho
      exact List.mem_singleton.mpr rfl
  | array info dim =>
      obtain rfl := writeAccessors_array h
      rcases List.mem_cons.mp hmem with rfl | hnamed
      · by_cases hn : n < dim.dim
        · rw [WriteAccessor.offset, if_pos hn] at ho
          rw [elementOffsets_array]
          exact List.mem_map.mpr
            ⟨n, List.mem_range.mpr hn, (calculateOffset_eval.mp ho).2⟩
        · rw [WriteAccessor.offset, if_neg hn] at ho
          simp at ho
      · obtain ⟨element, helement, rfl⟩ := List.mem_map.mp hnamed
        obtain rfl := gen_pure_ok.mp ho
        exact List.mem_map_of_mem helement

/-- Every element has an accessor that hands out its offset. -/
theorem exists_accessor_of_element {field : Field} {name : String}
    {accessors : List WriteAccessor} (h : writeAccessors crates config field name = .ok accessors)
    {o : Nat} (ho : o ∈ field.elementOffsets crates) :
    ∃ accessor ∈ accessors, accessor.offset 0 = .ok o := by
  cases field with
  | single info =>
      obtain rfl := gen_pure_ok.mp h
      obtain rfl := List.mem_singleton.mp ho
      exact ⟨_, List.mem_singleton.mpr rfl, rfl⟩
  | array info dim =>
      obtain rfl := writeAccessors_array h
      obtain ⟨element, helement, rfl⟩ := List.mem_map.mp ho
      exact ⟨_, List.mem_cons_of_mem _ (List.mem_map_of_mem helement), rfl⟩

/-- The accessors of an element hand out its offset. -/
theorem writePaths_offset {field : Field} {name : String} {accessors : List WriteAccessor}
    (h : writeAccessors crates config field name = .ok accessors) {i o : Nat}
    (ho : (field.elementOffsets crates)[i]? = some o) (hsmall : o ≤ u8Max)
    {path : WriteAccessor × Nat} (hpath : path ∈ writePaths field accessors i) :
    path.1.offset path.2 = .ok o := by
  cases field with
  | single info =>
      obtain rfl := gen_pure_ok.mp h
      obtain rfl := List.mem_singleton.mp hpath
      obtain rfl := List.mem_singleton.mp (List.mem_of_getElem? ho)
      rfl
  | array info dim =>
      obtain rfl := writeAccessors_array h
      rcases List.mem_cons.mp hpath with rfl | hpath
      · rw [elementOffsets_array, List.getElem?_map, Option.map_eq_some_iff] at ho
        obtain ⟨index, hindex, rfl⟩ := ho
        obtain ⟨hlt, rfl⟩ := List.getElem?_eq_some_iff.mp hindex
        rw [List.getElem_range] at hsmall ⊢
        rw [List.length_range] at hlt
        rw [WriteAccessor.offset, if_pos hlt]
        exact calculateOffset_eval.mpr ⟨hsmall, rfl⟩
      · obtain ⟨accessor, haccessor, rfl⟩ := List.mem_map.mp hpath
        have hnamed := Option.mem_toList.mp haccessor
        rw [List.getElem?_map] at hnamed
        obtain ⟨element, helement, rfl⟩ := Option.map_eq_some_iff.mp hnamed
        rw [Field.elementOffsets, List.getElem?_map, helement] at ho
        obtain rfl := Option.some.inj ho
        rfl

/-- Every element has an accessor for its writer. -/
theorem exists_writePath {field : Field} {name : String} {accessors : List WriteAccessor}
    (h : writeAccessors crates config field name = .ok accessors) (i : Nat) :
    ∃ path, path ∈ writePaths field accessors i := by
  cases field with
  | single info =>
      obtain rfl := gen_pure_ok.mp h
      exact ⟨_, List.mem_singleton.mpr rfl⟩
  | array info dim =>
      obtain rfl := writeAccessors_array h
      exact ⟨_, List.mem_cons_self⟩

/-! ## All fields of a register -/

/-- The bits of the writable fields of the given kinds. -/
def modifiedBits (kind : ModifiedWriteValues → Bool) (codes : List FieldCode) (i : Nat) : Prop :=
  ∃ fc ∈ codes, ∃ writer ∈ fc.writer,
    kind writer.modifiedWriteValues = true ∧ writer.bitmask.testBit i = true

/-- The loop of `fields` keeps: every code is the code of a field, and the bitmaps
hold the bits of the fields so far. -/
structure FieldsInv (crates : Crates) (config : Config) (access : Access)
    (properties : RegisterProperties) (rmwv : Option ModifiedWriteValues)
    (code : FieldsCode) : Prop where
  codes : ∀ fc ∈ code.fields, ∃ fty useCast useMask,
    IsFieldCode crates config access properties rmwv fc fty useCast useMask
  zero_bits : ∀ i, code.zeroToModifyFieldsBitmap.testBit i = true ↔
    modifiedBits (·.zeroToModify) code.fields i
  one_bits : ∀ i, code.oneToModifyFieldsBitmap.testBit i = true ↔
    modifiedBits (·.oneToModify) code.fields i

/-- The bits of one more field. -/
theorem modifiedBits_append (kind : ModifiedWriteValues → Bool) (codes : List FieldCode)
    (fc : FieldCode) (i : Nat) :
    modifiedBits kind (codes ++ [fc]) i ↔
      modifiedBits kind codes i ∨ (fc.bitsOf kind).testBit i = true := by
  have hlast : (∃ writer ∈ fc.writer, kind writer.modifiedWriteValues = true ∧
      writer.bitmask.testBit i = true) ↔ (fc.bitsOf kind).testBit i = true := by
    unfold FieldCode.bitsOf
    cases fc.writer with
    | none => simp
    | some writer =>
        cases hkind : kind writer.modifiedWriteValues with
        | false => simp [hkind]
        | true => simp [hkind]
  rw [← hlast]
  unfold modifiedBits
  constructor
  · intro h
    obtain ⟨other, hmem, hbits⟩ := h
    rcases List.mem_append.mp hmem with hold | hnew
    · exact Or.inl ⟨other, hold, hbits⟩
    · exact Or.inr (List.mem_singleton.mp hnew ▸ hbits)
  · intro h
    rcases h with hold | hnew
    · obtain ⟨other, hmem, hbits⟩ := hold
      exact ⟨other, List.mem_append_left _ hmem, hbits⟩
    · exact ⟨fc, List.mem_append_right _ (List.mem_singleton.mpr rfl), hnew⟩

/-- **One round.**  Pushing the code of a field keeps the invariant.  The bitmaps take the
bits of the field by its kind, and the code goes to the end of the list. -/
theorem FieldsInv.push {access : Access} {properties : RegisterProperties}
    {rmwv : Option ModifiedWriteValues} {code : FieldsCode} {fc : FieldCode}
    (h : FieldsInv crates config access properties rmwv code)
    (hfc : ∃ fty useCast useMask,
      IsFieldCode crates config access properties rmwv fc fty useCast useMask) :
    FieldsInv crates config access properties rmwv (code.push fc) where
  codes := by
    intro other hmem
    rcases List.mem_append.mp hmem with hold | hnew
    · exact h.codes other hold
    · exact List.mem_singleton.mp hnew ▸ hfc
  zero_bits := by
    intro i
    rw [FieldsCode.push, Nat.testBit_or, Bool.or_eq_true, h.zero_bits i, modifiedBits_append]
  one_bits := by
    intro i
    rw [FieldsCode.push, Nat.testBit_or, Bool.or_eq_true, h.one_bits i, modifiedBits_append]

/-- **All fields.**  Every run of `fields` that returns ends in the invariant. -/
theorem fields_ok {fieldList : List Field} {rmwv : Option ModifiedWriteValues} {access : Access}
    {properties : RegisterProperties} {rpath : RegisterPath} {index : Index} {code : FieldsCode}
    (h : fields crates config fieldList rmwv access properties rpath index = .ok code) :
    FieldsInv crates config access properties rmwv code := by
  obtain ⟨⟨last, derives⟩, hrun, h⟩ := gen_bind_ok.mp h
  obtain rfl := gen_pure_ok.mp h
  have hstep : ∀ {s : FieldsCode × Derives} {field : Field} {t : FieldsCode × Derives},
      FieldsInv crates config access properties rmwv s.1 →
      fieldsStep crates config rmwv access properties rpath index s field = .ok t →
      FieldsInv crates config access properties rmwv t.1 := by
    intro s field t hinv hround
    obtain ⟨⟨fc, used⟩, hfc, hround⟩ := gen_bind_ok.mp hround
    obtain rfl := gen_pure_ok.mp hround
    exact hinv.push (fieldCode_ok hfc)
  have hinit : FieldsInv crates config access properties rmwv ⟨[], 0, 0⟩ :=
    ⟨by simp, by simp [modifiedBits], by simp [modifiedBits]⟩
  exact @FallibleRuns.invariant_of_safeRun _ _ _ _ _
    (fun (_ : List Field) s => FieldsInv crates config access properties rmwv s.1)
    (fun hinv _ hround => hstep hinv hround) [] _ _ _ hinit (FallibleRuns.safeRun_true _ _) hrun

/-- The fields of a rendered register. -/
theorem renderRegisterMod_ok {register : Register} {access : Access} {rpath : RegisterPath}
    {index : Index} {code : RegisterCode}
    (h : renderRegisterMod crates config register access rpath index = .ok code) :
    FieldsInv crates config access register.info.properties register.info.modifiedWriteValues
      code.code ∧
    ∃ size, register.info.properties.size = some size ∧
      toTy (registerSize size) = .ok code.rty := by
  obtain ⟨_, -, h⟩ := gen_bind_ok.mp h
  obtain ⟨_, -, h⟩ := gen_bind_ok.mp h
  obtain ⟨size, hsize, h⟩ := gen_bind_ok.mp h
  obtain ⟨rty, hrty, h⟩ := gen_bind_ok.mp h
  obtain ⟨fieldsCode, hfields, h⟩ := gen_bind_ok.mp h
  obtain rfl := gen_pure_ok.mp h
  refine ⟨?_, size, okOr_ok.mp hsize, hrty⟩
  unfold renderedFieldsCode at hfields
  split at hfields
  · obtain rfl := gen_pure_ok.mp hfields
    exact ⟨by simp, by simp [modifiedBits], by simp [modifiedBits]⟩
  · exact fields_ok hfields

end Runs

end Svd2Rust
