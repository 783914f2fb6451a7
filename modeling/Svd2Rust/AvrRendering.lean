import Svd2Rust.PeripheralRendering

/-!
# AVR configuration change protection

`avr::render` translates the protected registers of the settings into trait
implementations for the register types.  It looks peripherals and registers up by
itself, in the device file as it is, and writes their paths by itself.
-/

namespace Svd2Rust

open RustStrings

/-- `CcpProtectedRegister`; the magic value is a `u8`. -/
structure CcpProtectedRegister where
  register : String
  magic : UInt8
deriving DecidableEq, Repr

/-- `CcpConfig`. -/
structure CcpConfig where
  unlockRegister : String
  protectedRegisters : List CcpProtectedRegister
deriving DecidableEq, Repr

/-- `periph_mod::reg_mod::reg_spec`, as it is written for the register `register` of the
peripheral `source`. -/
structure SpecPath where
  source : Peripheral
  register : Register
  periphMod : String
  regMod : String
  regSpec : String

/-- The implementations of `UnlockRegister` and `Protected`. -/
inductive AvrItem where
  | unlockRegister (spec : SpecPath) (periphSpec : String) (offset : Nat)
  | protectedRegister (spec : SpecPath) (magic : UInt8) (ccpReg : SpecPath)

/-- The type paths of an item. -/
def AvrItem.paths : AvrItem → List SpecPath
  | .unlockRegister spec _ _ => [spec]
  | .protectedRegister spec _ ccpReg => [spec, ccpReg]

/-- `str::split_once('.')`. -/
def splitOnceDot (s : String) : Option (String × String) :=
  match s.toList.span (· ≠ '.') with
  | (before, _ :: after) => some (String.ofList before, String.ofList after)
  | (_, []) => none

/-- `Peripheral::registers`: the registers outside of clusters. -/
def childRegisters (p : Peripheral) : List Register :=
  (p.info.registers.getD []).filterMap fun
    | .register reg => some reg
    | .cluster _ => none

/-- The peripheral `resolve_register` takes the registers from: `derivedFrom` is followed
once. -/
def derivedBase (peripherals : List Peripheral) (periph : Peripheral) : Gen Peripheral :=
  match periph.info.derivedFrom with
  | some baseName =>
      okOr ("peripheral `" ++ periph.info.name ++ "` is derived from unknown `" ++ baseName ++ "`")
        (peripherals.find? fun p => p.info.name = baseName)
  | none => return periph

/-- `resolve_register`. -/
def resolveRegister (peripherals : List Peripheral) (path : String) :
    Gen (Peripheral × Register × Nat) := do
  let (periphName, regName) ←
    okOr ("register path `" ++ path ++ "` must have the form `PERIPHERAL.REGISTER`")
      (splitOnceDot path)
  let periph ← okOr ("no peripheral named `" ++ periphName ++ "` in the SVD")
    (peripherals.find? fun p => p.info.name = periphName)
  let base ← derivedBase peripherals periph
  let reg ← okOr ("no register named `" ++ regName ++ "` in peripheral `" ++ periphName ++ "`")
    ((childRegisters base).find? fun r => r.info.name = regName)
  let address ← addU64 periph.info.baseAddress reg.info.addressOffset
  return (periph, reg, address)

section Render

variable (crates : Crates) (config : Config)

/-- The path of texts to the spec of a register. -/
def specPathText (periph : Peripheral) (reg : Register) : SpecPath where
  source := periph
  register := reg
  periphMod := identText crates config periph.info.name .peripheralMod
  regMod := identText crates config reg.info.name .registerMod
  regSpec := identText crates config reg.info.name .registerSpec

/-- `register_spec_path`. -/
def registerSpecPath (periph : Peripheral) (reg : Register) : Gen SpecPath := do
  let periphMod ← ident crates config periph.info.name .peripheralMod
  let regMod ← ident crates config reg.info.name .registerMod
  let regSpec ← ident crates config reg.info.name .registerSpec
  return ⟨periph, reg, periphMod, regMod, regSpec⟩

/-- One round of the loop over the protected registers. -/
def renderProtected (peripherals : List Peripheral) (unlockSpec : SpecPath)
    (entry : CcpProtectedRegister) : Gen AvrItem := do
  let (periph, reg, _) ← withContext ("can't resolve protected register " ++ entry.register)
    (resolveRegister peripherals entry.register)
  if reg.info.properties.size.any (· ≠ 8) then
    bail ("protected register " ++ entry.register ++ " is " ++
      toString (reg.info.properties.size.getD 0) ++
      " bits wide; only 8-bit registers are supported")
  else if reg.info.properties.access = some .readOnly then
    bail ("protected register " ++ entry.register ++ " is read-only")
  else do
    let regSpec ← registerSpecPath crates config periph reg
    return .protectedRegister regSpec entry.magic unlockSpec

/-- `avr::render`. -/
def renderAvr (peripherals : List Peripheral) : Option CcpConfig → Gen (List AvrItem)
  | none => return []
  | some ccp => do
      let (unlockPeriph, unlockReg, unlockAddr) ←
        withContext "can't resolve CCP unlock register"
          (resolveRegister peripherals ccp.unlockRegister)
      if unlockAddr ≥ 0x40 then
        bail ("CCP unlock register " ++ ccp.unlockRegister ++ " is at address 0x" ++
          paddedHex 1 unlockAddr ++ ", but `out` can only reach I/O addresses below 0x40")
      else do
        let unlockSpec ← registerSpecPath crates config unlockPeriph unlockReg
        let unlockPeriphSpec ← ident crates config unlockPeriph.info.name .peripheralSpec
        let protectedItems ←
          ccp.protectedRegisters.mapM (renderProtected crates config peripherals unlockSpec)
        return .unlockRegister unlockSpec unlockPeriphSpec unlockReg.info.addressOffset ::
          protectedItems

end Render

/-! ## What is rendered -/

theorem resolveRegister_ok {peripherals : List Peripheral} {path : String} {periph : Peripheral}
    {reg : Register} {address : Nat}
    (h : resolveRegister peripherals path = .ok (periph, reg, address)) :
    periph ∈ peripherals ∧ address = periph.info.baseAddress + reg.info.addressOffset := by
  obtain ⟨⟨periphName, regName⟩, -, h⟩ := gen_bind_ok.mp h
  obtain ⟨p, hp, h⟩ := gen_bind_ok.mp h
  obtain ⟨base, -, h⟩ := gen_bind_ok.mp h
  obtain ⟨r, -, h⟩ := gen_bind_ok.mp h
  obtain ⟨sum, hsum, h⟩ := gen_bind_ok.mp h
  obtain ⟨rfl, hrest⟩ := Prod.mk.inj (gen_pure_ok.mp h)
  obtain ⟨rfl, rfl⟩ := Prod.mk.inj hrest
  exact ⟨List.mem_of_find?_eq_some (okOr_ok.mp hp), (addU64_ok.mp hsum).2.symm⟩

section Rendered

variable {crates : Crates} {config : Config}

theorem registerSpecPath_ok {periph : Peripheral} {reg : Register} {path : SpecPath}
    (h : registerSpecPath crates config periph reg = .ok path) :
    specPathText crates config periph reg = path := by
  obtain ⟨periphMod, hperiphMod, h⟩ := gen_bind_ok.mp h
  obtain ⟨regMod, hregMod, h⟩ := gen_bind_ok.mp h
  obtain ⟨regSpec, hregSpec, h⟩ := gen_bind_ok.mp h
  rw [← gen_pure_ok.mp h, ← ident_text hperiphMod, ← ident_text hregMod, ← ident_text hregSpec]
  rfl

theorem renderProtected_ok {peripherals : List Peripheral} {unlockSpec : SpecPath}
    {entry : CcpProtectedRegister} {item : AvrItem}
    (h : renderProtected crates config peripherals unlockSpec entry = .ok item) :
    ∃ periph reg address, resolveRegister peripherals entry.register = .ok (periph, reg, address) ∧
      item = .protectedRegister (specPathText crates config periph reg) entry.magic unlockSpec := by
  obtain ⟨⟨periph, reg, address⟩, hresolved, h⟩ := gen_bind_ok.mp h
  refine ⟨periph, reg, address, withContext_ok.mp hresolved, ?_⟩
  simp only at h
  split at h
  · exact (bail_ok.mp h).elim
  · split at h
    · exact (bail_ok.mp h).elim
    · obtain ⟨regSpec, hregSpec, h⟩ := gen_bind_ok.mp h
      rw [registerSpecPath_ok hregSpec, gen_pure_ok.mp h]

/-- **Settings.**  The item of the unlock register, whose address passed the check, comes
first; the others name it beside the registers they protect. -/
theorem renderAvr_ok {peripherals : List Peripheral} {ccp : CcpConfig} {items : List AvrItem}
    (h : renderAvr crates config peripherals (some ccp) = .ok items) :
    ∃ periph reg protectedItems,
      resolveRegister peripherals ccp.unlockRegister =
        .ok (periph, reg, periph.info.baseAddress + reg.info.addressOffset) ∧
      periph.info.baseAddress + reg.info.addressOffset < 0x40 ∧
      items = .unlockRegister (specPathText crates config periph reg)
        (identText crates config periph.info.name .peripheralSpec) reg.info.addressOffset ::
          protectedItems ∧
      List.Forall₂ (fun entry item => ∃ periph' reg' address,
          resolveRegister peripherals entry.register = .ok (periph', reg', address) ∧
            item = .protectedRegister (specPathText crates config periph' reg') entry.magic
              (specPathText crates config periph reg))
        ccp.protectedRegisters protectedItems := by
  obtain ⟨⟨periph, reg, address⟩, hresolved, h⟩ := gen_bind_ok.mp h
  have hresolved := withContext_ok.mp hresolved
  obtain ⟨-, rfl⟩ := resolveRegister_ok hresolved
  simp only at h
  split at h
  · exact (bail_ok.mp h).elim
  · rename_i hbelow
    obtain ⟨unlockSpec, hspec, h⟩ := gen_bind_ok.mp h
    obtain rfl := registerSpecPath_ok hspec
    obtain ⟨-, h⟩ := ident_bind_ok.mp h
    obtain ⟨protectedItems, hprotected, h⟩ := gen_bind_ok.mp h
    obtain rfl := gen_pure_ok.mp h
    exact ⟨periph, reg, protectedItems, hresolved, Nat.lt_of_not_le hbelow, rfl,
      (gen_mapM_ok.mp hprotected).imp fun _ _ => renderProtected_ok⟩

end Rendered

/-! ## The device -/

/-- The code of `device::render` that peripherals and their protection take. -/
structure AvrCode where
  outputs : List PeripheralOutput
  items : List AvrItem

section Device

variable (crates : DeviceCrates) (config : DeviceConfig)

/-- `avr::render` is called at the end, for the target AVR. -/
def renderProtection (peripherals : List Peripheral) (ccp : Option CcpConfig) :
    Gen (List AvrItem) :=
  if config.target = .avr then
    withContext "can't render AVR configuration change protection"
      (renderAvr crates.toCrates config.toConfig peripherals ccp)
  else return []

/-- `device::render`, as far as AVR devices have code of their own. -/
def renderAvrDevice (fuel : Nat) (d : Device) (ccp : Option CcpConfig) : Gen AvrCode := do
  let outputs ← renderPeripherals crates config fuel d
  let items ← renderProtection crates config d.peripherals ccp
  return ⟨outputs, items⟩

/-- The peripheral has an `ADDRESS`: it is not dropped for want of registers. -/
def HasAddress (d : Device) (p : Peripheral) : Prop :=
  ∃ q path, takeDerivedPeripheral crates (crates.indexCreate d.peripherals) p = .ok (q, path) ∧
    isEmitted q path = true

variable {crates config}

theorem renderAvrDevice_ok (htarget : config.target = .avr) {fuel : Nat} {d : Device}
    {ccp : Option CcpConfig} {code : AvrCode}
    (h : renderAvrDevice crates config fuel d ccp = .ok code) :
    renderPeripherals crates config fuel d = .ok code.outputs ∧
      renderAvr crates.toCrates config.toConfig d.peripherals ccp = .ok code.items := by
  obtain ⟨outputs, houtputs, h⟩ := gen_bind_ok.mp h
  obtain ⟨items, hitems, h⟩ := gen_bind_ok.mp h
  obtain rfl := gen_pure_ok.mp h
  rw [renderProtection, if_pos htarget] at hitems
  exact ⟨houtputs, withContext_ok.mp hitems⟩

/-- Every peripheral of an AVR device is rendered. -/
theorem exists_output (htarget : config.target = .avr) {fuel : Nat} {d : Device}
    {outputs : List PeripheralOutput}
    (h : renderPeripherals crates config fuel d = .ok outputs) {p : Peripheral}
    (hp : p ∈ d.peripherals) : ∃ o ∈ outputs, o.source = p := by
  have hkept : p ∈ d.peripherals.filter
      (!isCorePeripheral crates config (fpuPresent d) ·) := by
    refine List.mem_filter.mpr ⟨hp, ?_⟩
    simp [isCorePeripheral, htarget]
  obtain ⟨o, ho, hround⟩ := exists_of_forall₂_mem (gen_mapM_ok.mp h).flip hkept
  exact ⟨o, ho, renderOutput_source hround⟩

/-- What is rendered of a peripheral of an AVR device. -/
theorem output_rendered (htarget : config.target = .avr) {fuel : Nat} {d : Device}
    {outputs : List PeripheralOutput}
    (h : renderPeripherals crates config fuel d = .ok outputs) {o : PeripheralOutput}
    (ho : o ∈ outputs) :
    renderPeripheral crates config (crates.indexCreate d.peripherals) fuel o.source =
      .ok o.items := by
  obtain ⟨p, -, hround⟩ := exists_of_forall₂_mem (gen_mapM_ok.mp h) ho
  rw [renderOutput_source hround]
  have hrendered : isRendered config p = true := by
    simp [isRendered, htarget]
  exact (renderOutput_cases hrendered hround).2

theorem items_ne_nil_iff (htarget : config.target = .avr) {fuel : Nat} {d : Device}
    {outputs : List PeripheralOutput}
    (h : renderPeripherals crates config fuel d = .ok outputs) {o : PeripheralOutput}
    (ho : o ∈ outputs) : o.items ≠ [] ↔ HasAddress crates d o.source := by
  obtain ⟨q, path, hderived, hrendered⟩ := renderPeripheral_ok (output_rendered htarget h ho)
  rw [hrendered.items_ne_nil_iff]
  constructor
  · intro hemitted
    exact ⟨q, path, hderived, hemitted⟩
  · intro h
    obtain ⟨q', path', hderived', hemitted⟩ := h
    obtain ⟨rfl, rfl⟩ := Prod.mk.inj (Except.ok.inj (hderived.symm.trans hderived'))
    exact hemitted

end Device

end Svd2Rust
