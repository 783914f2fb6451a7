import Svd2Rust.ClusterSizes

/-!
# Reserved bytes and storage types

`expand_register` reserves the bytes of the size a register declares, while
`render_register_mod` rounds that size up to the integer type that stores it.
The two agree for a register and for an inline array of registers exactly when
the declared size, rounded up to bytes, is the size of an integer type
(`storageReserved_iff`).
-/

namespace Svd2Rust

/-- The struct field of a register has room for exactly its type, and the elements of
an inline array lie where the device has them. -/
structure StorageReserved (env : TypeEnv) (register : Register) (rty : RustTy)
    (rbf : RegisterBlockField) : Prop where
  bytes : bytesOfBits rbf.size = (rbf.synField.ty.layout (env.uint rty)).size
  bits : ∀ size dim name, register.info.properties.size = some size → register.dim = some dim →
    rbf.synField.ty = .array name dim.dim → rbf.size = size * dim.dim
  stride : ∀ dim name, register.dim = some dim → rbf.synField.ty = .array name dim.dim →
    1 < dim.dim → (env.uint rty).size = dim.dimIncrement

/-- The declared size takes as many bytes as an integer type has. -/
def FillsInteger (register : Register) : Prop :=
  ∃ size, register.info.properties.size = some size ∧ bytesOfBits size ∈ [1, 2, 4, 8]

/-- Only sizes of integer types keep their bytes when they are rounded up. -/
theorem bytesOfBits_eq_storage_iff {size : Nat} {rty : RustTy}
    (hrty : toTy (registerSize size) = .ok rty) :
    bytesOfBits size = bytesOfBits rty.bits ↔ bytesOfBits size ∈ [1, 2, 4, 8] := by
  obtain ⟨-, hfits, hwidest⟩ := toTy_ok hrty
  have hle := le_registerSize size
  have hall : ∀ size < 65, ∀ rty ∈ [RustTy.bool, .u8, .u16, .u32, .u64],
      toTy (registerSize size) = .ok rty →
        (bytesOfBits size = bytesOfBits rty.bits ↔ bytesOfBits size ∈ [1, 2, 4, 8]) := by
    decide +kernel
  exact hall size (by omega) rty (by cases rty <;> simp) hrty

/-- Only an inline array has elements. -/
theorem StorageReserved.of_not_array {env : TypeEnv} {register : Register} {rty : RustTy}
    {rbf : RegisterBlockField} (hty : ∀ name n, rbf.synField.ty ≠ .array name n)
    (hbytes : bytesOfBits rbf.size = (rbf.synField.ty.layout (env.uint rty)).size) :
    StorageReserved env register rty rbf where
  bytes := hbytes
  bits _ dim name _ _ harray := absurd harray (hty name dim.dim)
  stride dim name _ harray := absurd harray (hty name dim.dim)

section Storage

variable {crates : Crates} {config : Config}

/-- A declared size fills an integer type if the type that stores it has its bytes. -/
theorem fillsInteger_iff {register : Register} {size : Nat} {rty : RustTy}
    (hsize : register.info.properties.size = some size)
    (hrty : toTy (registerSize size) = .ok rty) :
    FillsInteger register ↔ bytesOfBits size = bytesOfBits rty.bits := by
  rw [bytesOfBits_eq_storage_iff hrty]
  constructor
  · intro h
    obtain ⟨s, hs, hmem⟩ := h
    obtain rfl : size = s := Option.some.inj (hsize.symm.trans hs)
    exact hmem
  · intro hmem
    exact ⟨size, hsize, hmem⟩

/-- An inline array without gaps has room for its elements if each of them has. -/
theorem IsArrayField.reserved_iff {env : TypeEnv} {register : Register} {rty : RustTy}
    {ty : String} {names : List String} {offset size : Nat} {dim : DimElement}
    {rbf : RegisterBlockField} (hfield : IsArrayField ty names offset size dim true rbf)
    (hsize : register.info.properties.size = some size) (hdim : register.dim = some dim)
    (harray : dim.dim = 1 ∨ size = dim.dimIncrement * bitsPerByte) :
    StorageReserved env register rty rbf ↔ bytesOfBits size = bytesOfBits rty.bits := by
  have hbits : rbf.size = size * dim.dim := by rw [hfield.size_eq, if_pos rfl]
  have hlayout : (rbf.synField.ty.layout (env.uint rty)).size =
      bytesOfBits rty.bits * dim.dim := by rw [hfield.ty_eq, if_pos rfl]; rfl
  have hreserved : bytesOfBits rbf.size = bytesOfBits size * dim.dim := by
    rw [hbits]
    exact rustArray_bytes harray
  constructor
  · intro h
    have hsame := h.bytes
    rw [hreserved, hlayout] at hsame
    exact Nat.eq_of_mul_eq_mul_right hfield.dim_pos hsame
  · intro h
    refine ⟨by rw [hreserved, hlayout, h], ?_, ?_⟩
    · intro s dim' name hs hdim' _
      obtain rfl : dim = dim' := Option.some.inj (hdim.symm.trans hdim')
      obtain rfl : size = s := Option.some.inj (hsize.symm.trans hs)
      exact hbits
    · intro dim' name hdim' _ hmany
      obtain rfl : dim = dim' := Option.some.inj (hdim.symm.trans hdim')
      rcases harray with hone | hincrement
      · omega
      · -- elements without gaps: the increment is the declared size
        calc bytesOfBits rty.bits
            = bytesOfBits size := h.symm
          _ = dim.dimIncrement := by rw [hincrement, bitsPerByte, bytesOfBits_mul_eight]

/-- **Reserved bytes.**  A register or inline array of registers reserves its storage exactly
when its size fills an integer type.  The field takes the declared bits rounded up to bytes,
the spec an integer type of 8, 16, 32 or 64 bits; the two agree where the declared size is
within the last byte of one of these types. -/
theorem storageReserved_iff (env : TypeEnv) {register : Register} {path : BlockPath}
    {deriveInfo : DeriveInfo} {rbfs : List RegisterBlockField} {access : Access}
    {rpath : RegisterPath} {index : Index} {code : RegisterCode}
    (hexpand : expandRegister crates config register path deriveInfo = .ok rbfs)
    (hrender : renderRegisterMod crates config register access rpath index = .ok code)
    {rbf : RegisterBlockField} (hrbf : rbf ∈ rbfs) (hinline : rbf.synField.ty ≠ .unit) :
    StorageReserved env register code.rty rbf ↔ FillsInteger register := by
  obtain ⟨size, hsize, hplaced⟩ := expandRegister_placed hexpand
  obtain ⟨_, -, hrender⟩ := gen_bind_ok.mp hrender
  obtain ⟨_, -, hrender⟩ := gen_bind_ok.mp hrender
  obtain ⟨size', hsize', hrender⟩ := gen_bind_ok.mp hrender
  obtain ⟨rty, hrty, hrender⟩ := gen_bind_ok.mp hrender
  obtain ⟨fieldsCode, -, hrender⟩ := gen_bind_ok.mp hrender
  obtain rfl := gen_pure_ok.mp hrender
  obtain rfl : size = size' := Option.some.inj (hsize.symm.trans (okOr_ok.mp hsize'))
  rw [fillsInteger_iff hsize hrty]
  have harray := @rustArray_bits config path (.register register) deriveInfo
  have hdim := registerPlacement_dim config register path deriveInfo
  rw [ercPlacement, ercBits, hsize, Option.getD_some] at harray
  generalize registerPlacement config register path deriveInfo = placement at *
  cases hplaced with
  | single doc name =>
      obtain rfl := List.mem_singleton.mp hrbf
      exact ⟨fun h => h.bytes, fun hbytes => .of_not_array (fun _ _ hty => by cases hty) hbytes⟩
  | @rustArray dim _ hfield =>
      obtain rfl := List.mem_singleton.mp hrbf
      exact hfield.reserved_iff hsize hdim.symm (harray rfl)
  | proxy hfield =>
      obtain rfl := List.mem_singleton.mp hrbf
      rw [hfield.ty_eq, if_neg Bool.false_ne_true] at hinline
      exact absurd rfl hinline
  | list hfields =>
      obtain ⟨i, -, doc, name, rfl⟩ := exists_of_forall₂_mem hfields hrbf
      exact ⟨fun h => h.bytes, fun hbytes => .of_not_array (fun _ _ hty => by cases hty) hbytes⟩

end Storage

/-- Two data registers of 16 bits without a gap. -/
def dataRegisters : Register := .array (plainRegister "DR[%s]" 4 16) (countedDim 2 2)

theorem storageReserved_dataRegisters :
    ∃ rbfs code,
      expandRegister asciiCrates defaultConfig dataRegisters (.new "ADC") .root = .ok rbfs ∧
      renderRegisterMod asciiCrates defaultConfig dataRegisters .readWrite
        ((BlockPath.new "ADC").newRegister "DR[%s]") emptyIndex = .ok code ∧
      ∀ rbf ∈ rbfs, StorageReserved naturalEnv dataRegisters code.rty rbf := by
  have hexpand : expandRegister asciiCrates defaultConfig dataRegisters (.new "ADC") .root =
    .ok _ := rfl
  have hrender : renderRegisterMod asciiCrates defaultConfig dataRegisters .readWrite
    ((BlockPath.new "ADC").newRegister "DR[%s]") emptyIndex = .ok _ := rfl
  refine ⟨_, _, hexpand, hrender, fun rbf hrbf => ?_⟩
  have hinline : rbf.synField.ty ≠ .unit := by
    obtain rfl := List.mem_singleton.mp hrbf
    decide
  exact (storageReserved_iff naturalEnv hexpand hrender hrbf hinline).mpr ⟨16, rfl, by decide⟩

/-- A register of 24 bits is stored in four bytes, but three are reserved. -/
theorem not_storageReserved_threeBytes :
    ∃ rbf code, expandRegister asciiCrates defaultConfig (.single (plainRegister "CR" 0 24))
        (.new "ADC") .root = .ok [rbf] ∧
      renderRegisterMod asciiCrates defaultConfig (.single (plainRegister "CR" 0 24)) .readWrite
        ((BlockPath.new "ADC").newRegister "CR") emptyIndex = .ok code ∧
      ¬ StorageReserved naturalEnv (.single (plainRegister "CR" 0 24)) code.rty rbf :=
  ⟨_, _, rfl, rfl, fun h => absurd h.bytes (by decide)⟩

end Svd2Rust
