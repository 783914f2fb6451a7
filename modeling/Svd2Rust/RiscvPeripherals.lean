import Svd2Rust.BaseAddresses

/-!
# The peripherals of a RISC-V core

The settings may name a CLINT and a PLIC.  `device::render` leaves them out of
`peripheral::render`; `riscv::render` hands them to macros of `riscv-peripheral`, with
the base address the device file gives them.  `baseAddressShift_uniform_iff` says that
this is where a shift gets lost.
-/

namespace Svd2Rust

/-- `RiscvClintConfig`. -/
structure RiscvClintConfig where
  pubNew : Bool
  name : String
  mtimeFreq : Nat
deriving DecidableEq, Repr

/-- `RiscvPlicConfig`. -/
structure RiscvPlicConfig where
  pubNew : Bool
  name : String
  coreInterrupt : Option String
  hartId : Option String
deriving DecidableEq, Repr

/-- What `riscv::render` reads of `RiscvConfig` for the two; a hart is a name with its
value. -/
structure RiscvSettings where
  harts : List (String × Nat)
  clint : Option RiscvClintConfig
  plic : Option RiscvPlicConfig
deriving DecidableEq, Repr

def RiscvSettings.names (s : RiscvSettings) : RiscvConfig :=
  ⟨s.clint.map (·.name), s.plic.map (·.name)⟩

/-- A configuration with the settings behind the names in it. -/
structure RiscvDeviceConfig extends DeviceConfig where
  settings : Option RiscvSettings
  riscvConfig_eq : riscvConfig = settings.map RiscvSettings.names

/-- A call of `clint_codegen!` or `plic_codegen!` for the peripheral `source`. -/
structure CodegenCall where
  source : Peripheral
  macroName : String
  isPub : Bool
  name : String
  base : Nat
  mtimeFreq : Option Nat
  harts : List (String × Nat)

/-- `plic_handler`. -/
structure PlicHandler where
  coreInterrupt : String
  plic : String
  ctx : String
deriving DecidableEq, Repr

/-- The code of `device::render` that peripherals get addresses in. -/
structure DeviceCode where
  coreCalls : List CodegenCall
  plicHandler : Option PlicHandler
  outputs : List PeripheralOutput

section Render

variable (crates : DeviceCrates) (config : RiscvDeviceConfig)

/-- `peripherals.iter().find(|&p| p.name == name).unwrap()`. -/
def findPeripheral (peripherals : List Peripheral) (name : String) : Gen Peripheral :=
  unwrap (peripherals.find? fun p => p.info.name = name)

/-- The part of `riscv::render` for the CLINT. -/
def renderClint (peripherals : List Peripheral) (harts : List (String × Nat))
    (clint : RiscvClintConfig) : Gen CodegenCall := do
  let p ← findPeripheral peripherals clint.name
  let name ← ident crates.toCrates config.toConfig p.info.name .peripheral
  return {
    source := p
    macroName := "clint_codegen"
    isPub := clint.pubNew
    name := name
    base := p.info.baseAddress
    mtimeFreq := some clint.mtimeFreq
    harts := harts }

/-- The part of `riscv::render` for the PLIC. -/
def renderPlic (peripherals : List Peripheral) (harts : List (String × Nat))
    (plic : RiscvPlicConfig) : Gen (CodegenCall × Option PlicHandler) := do
  let p ← findPeripheral peripherals plic.name
  let name ← ident crates.toCrates config.toConfig p.info.name .peripheral
  return ({
    source := p
    macroName := "plic_codegen"
    isPub := plic.pubNew
    name := name
    base := p.info.baseAddress
    mtimeFreq := none
    harts := harts },
    plic.coreInterrupt.map fun coreInterrupt =>
      ⟨coreInterrupt, name, match plic.hartId with
        | some hartId => "ctx(Hart::" ++ hartId ++ ")"
        | none => "ctx_mhartid()"⟩)

/-- `riscv_peripherals` and the handler of the PLIC. -/
def renderCore (peripherals : List Peripheral) (s : RiscvSettings) :
    Gen (List CodegenCall × Option PlicHandler) := do
  let clint ← s.clint.toList.mapM (renderClint crates config peripherals s.harts)
  let plic ← s.plic.toList.mapM (renderPlic crates config peripherals s.harts)
  return (clint ++ plic.map (·.1), plic.findSome? (·.2))

/-- `riscv::render` is called for a RISC-V target with settings. -/
def renderTarget (peripherals : List Peripheral) : Gen (List CodegenCall × Option PlicHandler) :=
  match config.target, config.settings with
  | .riscv, some s => renderCore crates config peripherals s
  | _, _ => return ([], none)

/-- `device::render`, as far as it emits addresses. -/
def renderDevice (fuel : Nat) (d : Device) : Gen DeviceCode := do
  let (coreCalls, plicHandler) ← renderTarget crates config d.peripherals
  let outputs ← renderPeripherals crates config.toDeviceConfig fuel d
  return ⟨coreCalls, plicHandler, outputs⟩

/-- The names of the peripherals that are left to `riscv::render`. -/
def coreNames : List String :=
  match config.target, config.settings with
  | .riscv, some s => (s.clint.map (·.name)).toList ++ (s.plic.map (·.name)).toList
  | _, _ => []

/-- The peripherals that `riscv::render` generates. -/
def coreSources (d : Device) : List Peripheral :=
  (coreNames config).filterMap fun name => d.peripherals.find? fun p => p.info.name = name

/-- Every instance is generated at its shifted base address. -/
structure ShiftUniform (code : DeviceCode) : Prop where
  rendered : ∀ o ∈ code.outputs, o.items ≠ [] →
    emittedInstances o.items = shiftedInstances crates config.toDeviceConfig o.source
  core : ∀ call ∈ code.coreCalls, ∀ base ∈ instanceBases call.source,
    call.base = base + config.baseAddressShift

/-- The instances of the peripheral lie at its base address: there is no shift, and an
array has no second address. -/
def StaysAtBase (p : Peripheral) : Prop :=
  match p with
  | .single _ => config.baseAddressShift = 0
  | .array _ dim =>
      dim.dim = 0 ∨ config.baseAddressShift = 0 ∧ (dim.dim = 1 ∨ dim.dimIncrement = 0)

end Render

section Shift

variable {crates : DeviceCrates} {config : RiscvDeviceConfig}

theorem findPeripheral_ok {peripherals : List Peripheral} {name : String} {p : Peripheral} :
    findPeripheral peripherals name = .ok p ↔
      peripherals.find? (fun p => p.info.name = name) = some p := unwrap_ok

/-- The call for an optional setting is for the peripheral it names, if each round makes
such a call. -/
theorem toList_calls {α β : Type} {peripherals : List Peripheral} {setting : Option α}
    {nameOf : α → String} {render : α → Gen β} {callOf : β → CodegenCall} {rendered : List β}
    (hround : ∀ a b, render a = .ok b →
      peripherals.find? (fun p => p.info.name = nameOf a) = some (callOf b).source ∧
        (callOf b).base = (callOf b).source.info.baseAddress)
    (h : setting.toList.mapM render = .ok rendered) :
    (rendered.map callOf).map (·.source) = (setting.map nameOf).toList.filterMap
        (fun name => peripherals.find? fun p => p.info.name = name) ∧
      ∀ call ∈ rendered.map callOf, call.base = call.source.info.baseAddress := by
  have hrel := gen_mapM_ok.mp h
  cases setting with
  | none =>
      cases hrel
      exact ⟨rfl, List.forall_mem_nil _⟩
  | some a =>
      cases hrel with
      | @cons _ b _ _ hrender hrest =>
          cases hrest
          obtain ⟨hfind, hbase⟩ := hround a b hrender
          exact ⟨by simp [hfind], List.forall_mem_singleton.mpr hbase⟩

/-- **The core.**  The calls are for the peripherals the settings name, each with the
base address as it is in the device file. -/
theorem renderCore_ok {peripherals : List Peripheral} {s : RiscvSettings}
    {calls : List CodegenCall} {handler : Option PlicHandler}
    (h : renderCore crates config peripherals s = .ok (calls, handler)) :
    calls.map (·.source) = ((s.clint.map (·.name)).toList ++ (s.plic.map (·.name)).toList).filterMap
        (fun name => peripherals.find? fun p => p.info.name = name) ∧
      ∀ call ∈ calls, call.base = call.source.info.baseAddress := by
  obtain ⟨clint, hclint, h⟩ := gen_bind_ok.mp h
  obtain ⟨plic, hplic, h⟩ := gen_bind_ok.mp h
  obtain ⟨rfl, rfl⟩ := Prod.mk.inj (gen_pure_ok.mp h)
  obtain ⟨hclintSources, hclintBases⟩ :=
    @toList_calls _ _ peripherals _ (fun c => c.name) _ id _ (fun c call hcall => by
      obtain ⟨p, hp, hcall⟩ := gen_bind_ok.mp hcall
      obtain ⟨name, -, hcall⟩ := gen_bind_ok.mp hcall
      obtain rfl := gen_pure_ok.mp hcall
      exact ⟨findPeripheral_ok.mp hp, rfl⟩) hclint
  obtain ⟨hplicSources, hplicBases⟩ :=
    @toList_calls _ _ peripherals _ (fun c => c.name) _ (·.1) _ (fun c call hcall => by
      obtain ⟨p, hp, hcall⟩ := gen_bind_ok.mp hcall
      obtain ⟨name, -, hcall⟩ := gen_bind_ok.mp hcall
      obtain rfl := gen_pure_ok.mp hcall
      exact ⟨findPeripheral_ok.mp hp, rfl⟩) hplic
  rw [List.map_id] at hclintSources hclintBases
  constructor
  · rw [List.map_append, List.filterMap_append, hclintSources, hplicSources]
  · intro call hcall
    rcases List.mem_append.mp hcall with hcall | hcall
    · exact hclintBases call hcall
    · exact hplicBases call hcall

theorem renderDevice_ok {fuel : Nat} {d : Device} {code : DeviceCode}
    (h : renderDevice crates config fuel d = .ok code) :
    code.coreCalls.map (·.source) = coreSources config d ∧
      (∀ call ∈ code.coreCalls, call.base = call.source.info.baseAddress) ∧
      renderPeripherals crates config.toDeviceConfig fuel d = .ok code.outputs := by
  obtain ⟨⟨calls, handler⟩, hcalls, h⟩ := gen_bind_ok.mp h
  obtain ⟨outputs, houtputs, h⟩ := gen_bind_ok.mp h
  obtain rfl := gen_pure_ok.mp h
  suffices hcore : calls.map (·.source) = coreSources config d ∧
      ∀ call ∈ calls, call.base = call.source.info.baseAddress from
    ⟨hcore.1, hcore.2, houtputs⟩
  unfold coreSources coreNames
  unfold renderTarget at hcalls
  -- the match is the same on both sides
  split at hcalls
  · exact renderCore_ok hcalls
  · obtain ⟨rfl, rfl⟩ := Prod.mk.inj (gen_pure_ok.mp hcalls)
    exact ⟨rfl, List.forall_mem_nil _⟩

/-- The peripherals that `peripheral::render` is called for are shifted alike. -/
theorem renderPeripherals_emitted (hkeep : crates.KeepAddresses) {fuel : Nat} {d : Device}
    {outputs : List PeripheralOutput}
    (h : renderPeripherals crates config.toDeviceConfig fuel d = .ok outputs) :
    ∀ o ∈ outputs, o.items ≠ [] →
      emittedInstances o.items = shiftedInstances crates config.toDeviceConfig o.source := by
  intro o ho hitems
  obtain ⟨p, hp, hround⟩ := exists_of_forall₂_mem (gen_mapM_ok.mp h) ho
  rw [renderOutput_source hround]
  by_cases hrendered : isRendered config.toDeviceConfig p = true
  · exact renderPeripheral_emitted hkeep (renderOutput_cases hrendered hround).2 hitems
  · exact absurd (renderOutput_notRendered hrendered hround) hitems

/-- Unshifted, the base address is right for the instances that stay there. -/
theorem unshifted_iff (p : Peripheral) :
    (∀ base ∈ instanceBases p, p.info.baseAddress = base + config.baseAddressShift) ↔
      StaysAtBase config p := by
  cases p with
  | single info =>
      simp only [instanceBases, List.forall_mem_singleton, MaybeArray.info_single, StaysAtBase]
      omega
  | array info dim =>
      simp only [instanceBases, List.forall_mem_map, List.mem_range, MaybeArray.info_array,
        StaysAtBase]
      constructor
      · intro hall
        by_cases hzero : dim.dim = 0
        · exact .inl hzero
        · have hfirst := hall 0 (by omega)
          refine .inr ⟨by omega, ?_⟩
          by_cases hone : dim.dim = 1
          · exact .inl hone
          · have hsecond := hall 1 (by omega)
            exact .inr (by omega)
      · intro hcase i hi
        rcases hcase with hzero | ⟨hshift, hone | hincrement⟩
        · omega
        · obtain rfl : i = 0 := by omega
          omega
        · rw [hincrement, hshift]
          omega

/-- **Base address shift.**  It is uniform exactly when the CLINT and the PLIC that are
generated stay at their base addresses, which a shift rules out.  `peripheral::render` adds
the shift to the address of every instance; `riscv::render` prints the base address of the
peripheral it finds as it is. -/
theorem baseAddressShift_uniform_iff (hkeep : crates.KeepAddresses) {fuel : Nat} {d : Device}
    {code : DeviceCode} (h : renderDevice crates config fuel d = .ok code) :
    ShiftUniform crates config code ↔ ∀ p ∈ coreSources config d, StaysAtBase config p := by
  obtain ⟨hsources, hbases, houtputs⟩ := renderDevice_ok h
  have hcore : (∀ call ∈ code.coreCalls, ∀ base ∈ instanceBases call.source,
      call.base = base + config.baseAddressShift) ↔
        ∀ p ∈ coreSources config d, StaysAtBase config p := by
    rw [← hsources, List.forall_mem_map]
    refine forall₂_congr fun call hcall => ?_
    rw [hbases call hcall]
    exact unshifted_iff call.source
  constructor
  · intro huniform
    exact hcore.mp huniform.core
  · intro hstay
    exact ⟨renderPeripherals_emitted hkeep houtputs, hcore.mpr hstay⟩

end Shift

/-- A RISC-V configuration with a shift and the name of the CLINT. -/
def shiftedClintConfig (shift : Nat) (clint : Option RiscvClintConfig) : RiscvDeviceConfig where
  toDeviceConfig := { defaultDeviceConfig with
    target := .riscv
    baseAddressShift := shift
    riscvConfig := some ⟨clint.map (·.name), none⟩ }
  settings := some ⟨[], clint, none⟩
  riscvConfig_eq := rfl

/-- A CLINT, two serial ports and a timer derived from another. -/
def riscvDevice : Device where
  cpu := none
  peripherals :=
    [.single { plainPeripheral "CLINT" with baseAddress := 0x2000000 },
    .array { plainPeripheral "UART%s" with
      baseAddress := 0x10013000
      registers := some [.register (.single (plainRegister "TXDATA" 0 32))] } (countedDim 2 0x1000),
    .single { plainPeripheral "UART2" with
      baseAddress := 0x10023000
      derivedFrom := some "UART0" }]

/-- Without settings for the core nothing gets lost. -/
theorem baseAddressShift_uniform_riscvDevice :
    ∃ code, renderDevice asciiDeviceCrates (shiftedClintConfig 0x80000000 none) 8 riscvDevice =
        .ok code ∧
      ShiftUniform asciiDeviceCrates (shiftedClintConfig 0x80000000 none) code :=
  ⟨_, rfl, (@baseAddressShift_uniform_iff asciiDeviceCrates (shiftedClintConfig 0x80000000 none)
    asciiDeviceCrates_keepAddresses 8 riscvDevice _ rfl).mpr (List.forall_mem_nil _)⟩

/-- The CLINT stays behind. -/
theorem not_baseAddressShift_uniform_clint :
    ¬ ∀ code, renderDevice asciiDeviceCrates (shiftedClintConfig 0x80000000
        (some ⟨false, "CLINT", 32768⟩)) 8 riscvDevice = .ok code →
      ShiftUniform asciiDeviceCrates (shiftedClintConfig 0x80000000
        (some ⟨false, "CLINT", 32768⟩)) code := by
  intro h
  have hbase := (h _ rfl).core _ List.mem_cons_self 0x2000000 List.mem_cons_self
  exact absurd hbase (by decide)

end Svd2Rust
