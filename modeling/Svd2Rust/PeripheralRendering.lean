import Svd2Rust.ClusterRendering
import Svd2Rust.DeviceModel

/-!
# Rendering the peripherals of a device

`peripheral::render` resolves the `derivedFrom` of a peripheral and emits a type, a
spec and its `PeripheralSpec` for each instance, and then the module of its registers,
or a re-export of the module it derives from.  `device::render` calls it for all
peripherals and collects the fields of the `Peripherals` struct.  Both put the items
behind features, each in its own way; `renderPeripheral_ok` says behind which.
-/

namespace Svd2Rust

open CfgAttributes RustStrings

/-- The items of a peripheral. -/
inductive PeripheralItem where
  | alias (doc : String) (html docAlias : Option String) (ty spec : String)
  | spec (spec : String)
  | specImpl (spec base : String) (address : Nat) (name : String)
  | reexport (doc base modTy : String)
  | module (doc modTy : String) (block : RegisterBlock) (items : List ErcCode)

def PeripheralItem.isAlias : PeripheralItem → Bool
  | .alias _ _ _ _ _ => true
  | _ => false

/-- The module an item refers to. -/
def PeripheralItem.base : PeripheralItem → Option String
  | .specImpl _ base _ _ => some base
  | .reexport _ base _ => some base
  | _ => none

/-- The name under which an item emits a module. -/
def PeripheralItem.modTy : PeripheralItem → Option String
  | .reexport _ _ modTy => some modTy
  | .module _ modTy _ _ => some modTy
  | _ => none

/-- A field of `struct Peripherals`. -/
structure PeripheralField where
  doc : String
  singleton : String
  ty : String
deriving DecidableEq, Repr

/-- The part of `device::render` that one peripheral takes. -/
structure PeripheralOutput where
  source : Peripheral
  items : List (GatedItem PeripheralItem)
  fields : List (GatedItem PeripheralField)

def u64Max : Nat := 2 ^ 64 - 1

def addU64 (a b : Nat) : Gen Nat :=
  if a + b ≤ u64Max then .ok (a + b) else panicking "attempt to add with overflow"

theorem addU64_ok {a b n : Nat} : addU64 a b = .ok n ↔ a + b ≤ u64Max ∧ a + b = n := by
  unfold addU64
  split <;> simp_all

section Render

variable (crates : DeviceCrates) (config : DeviceConfig)

/-- The peripheral after its `derivedFrom` was taken and resolved, with the block
whose registers it uses if these are not its own. -/
def takeDerivedPeripheral (index : DeviceIndex) (p : Peripheral) :
    Gen (Peripheral × Option BlockPath) :=
  match p.info.derivedFrom with
  | some dpath =>
      crates.derivePeripheral (p.mapInfo fun info => { info with derivedFrom := none }) dpath index
  | none => return (p, none)

/-- The documentation of a peripheral. -/
def peripheralDoc (description : Option String) (name : String) : String :=
  escapeSpecialChars (respace (description.getD name))

/-- The items of an instance with its spec. -/
def instanceItems (base : String) (html : Option String) (fs : List String)
    (doc nameStr spec : String) (docAlias : Option String) (address : Nat) :
    List (GatedItem PeripheralItem) :=
  [⟨features fs, .alias doc html docAlias nameStr spec⟩,
    ⟨features fs, .spec spec⟩,
    ⟨features fs, .specImpl spec base address nameStr⟩]

/-- `per_to_tokens`. -/
def perToTokens (base : String) (html : Option String) (fs : List String) (doc nameStr : String)
    (docAlias : Option String) (address : Nat) : Gen (List (GatedItem PeripheralItem)) := do
  let spec ← ident crates.toCrates config.toConfig nameStr .peripheralSpec
  return instanceItems base html fs doc nameStr spec docAlias address

/-- The items of the instances: the peripheral itself, of the type `pTy`, or the elements of
an array. -/
def renderInstances (base : String) (html : Option String) (group : List String)
    (p : Peripheral) (pTy : String) : Gen (List (List (GatedItem PeripheralItem))) :=
  match p with
  | .single info => do
      let address ← addU64 info.baseAddress config.baseAddressShift
      let items ← perToTokens crates config base html
        (group ++ peripheralFeatures crates.toCrates config info.name)
        (peripheralDoc info.description info.name) pTy none address
      return [items]
  | .array info dim => (crates.peripheralExpand info dim).mapM fun pi => do
      let nameStr ← ident crates.toCrates config.toConfig pi.name .peripheral
      let address ← addU64 pi.baseAddress config.baseAddressShift
      perToTokens crates config base html
        (group ++ peripheralFeatures crates.toCrates config pi.name)
        (peripheralDoc pi.description pi.name) nameStr
        (if nameStr ≠ pi.name then some pi.name else none) address

/-- The attributes of the re-export of the base module: those of a single peripheral,
any feature of the elements of an array. -/
def reexportCfg (group : List String) (p : Peripheral) : List (Predicate String) :=
  match p with
  | .single info => features (group ++ peripheralFeatures crates.toCrates config info.name)
  | .array info dim =>
      [.any ((crates.peripheralExpand info dim).map fun pi =>
        featureName crates.toCrates config pi.name)]

/-- The attributes of a module of its own. -/
def moduleCfg (group : List String) (p : Peripheral) : List (Predicate String) :=
  match p with
  | .single info => features (group ++ peripheralFeatures crates.toCrates config info.name)
  | .array _ _ => features group

/-- `base`: the module of the block whose registers are used, or that of the peripheral. -/
def baseIdent (path : Option BlockPath) (modTy : String) : Gen String :=
  match path with
  | some path => ident crates.toCrates config.toConfig path.peripheral .peripheralMod
  | none => return modTy

/-- `peripheral::render`. -/
def renderPeripheral (index : DeviceIndex) (fuel : Nat) (pOriginal : Peripheral) :
    Gen (List (GatedItem PeripheralItem)) := do
  let (p, path) ← takeDerivedPeripheral crates index pOriginal
  let name := peripheralNameOf p
  let pTy ← ident crates.toCrates config.toConfig name .peripheral
  let _address ← addU64 p.info.baseAddress config.baseAddressShift
  let doc := peripheralDoc p.info.description name
  let modTy ← ident crates.toCrates config.toConfig name .peripheralMod
  let base ← baseIdent crates config path modTy
  let blockPath := path.getD (.new p.info.name)
  let group := groupFeatures crates.toCrates config p.info.groupName
  let html := config.htmlUrl.map fun url =>
    "See peripheral [structure](" ++ url ++ "#" ++ blockPath.peripheral ++ ")"
  let instances ← renderInstances crates config base html group p pTy
  match path with
  | some _ =>
      return instances.flatten ++ [⟨reexportCfg crates config group p, .reexport doc base modTy⟩]
  | none =>
      let ercs := p.info.registers.getD []
      if ercs.isEmpty then return []
      else do
        let deriveInfos ← checkErcDeriveInfos crates.toCrates config.toConfig index.toIndex fuel
          blockPath ercs
        let modItems ← renderErcs crates.toCrates config.toConfig index.toIndex
          (clusterBlock crates.toCrates config.toConfig index.toIndex fuel) ercs deriveInfos
          blockPath
        let block ← registerOrClusterBlock crates.toCrates config.toConfig
          (modItems.map ErcCode.erc) (.new p.info.name) deriveInfos none "Register block" none
        return instances.flatten ++
          [⟨moduleCfg crates config group p, .module doc modTy block modItems⟩]

/-- The fields of the elements of an array; the attributes pile up. -/
def elementFields (featureAttribute : List String) : List String → List (GatedItem PeripheralField)
  | [] => []
  | name :: rest =>
      let featureAttribute := featureAttribute ++ peripheralFeatures crates.toCrates config name
      ⟨features featureAttribute, name,
        identText crates.toCrates config.toConfig name .peripheralSingleton,
        identText crates.toCrates config.toConfig name .peripheral⟩ ::
          elementFields featureAttribute rest

/-- The fields of a peripheral as the device file describes it. -/
def structFields (p : Peripheral) : List (GatedItem PeripheralField) :=
  let group := groupFeatures crates.toCrates config p.info.groupName
  match p with
  | .single info => elementFields crates config group [info.name]
  | .array info dim => elementFields crates config group (crates.names info.name dim)

/-- The fields with their identifiers made. -/
def madeFields (p : Peripheral) : Gen (List (GatedItem PeripheralField)) := do
  let names := match p with
    | .single info => [info.name]
    | .array info dim => crates.names info.name dim
  let _idents ← names.mapM fun name => do
    let pTy ← ident crates.toCrates config.toConfig name .peripheral
    let pSingleton ← ident crates.toCrates config.toConfig name .peripheralSingleton
    return (pTy, pSingleton)
  return structFields crates config p

/-- `core_peripherals`. -/
def corePeripherals (fpuPresent : Bool) : List String :=
  if fpuPresent then
    ["CBP", "CPUID", "DCB", "DWT", "FPB", "FPU", "ITM", "MPU", "NVIC", "SCB", "SYST", "TPIU"]
  else ["CBP", "CPUID", "DCB", "DWT", "FPB", "ITM", "MPU", "NVIC", "SCB", "SYST", "TPIU"]

/-- A peripheral of the core, which the loop skips. -/
def isCorePeripheral (fpuPresent : Bool) (p : Peripheral) : Bool :=
  config.target = .cortexM && crates.toUppercase p.info.name ∈ corePeripherals fpuPresent

/-- `is_riscv_peripheral`. -/
def isRiscvPeripheral (p : Peripheral) : Bool :=
  match config.riscvConfig with
  | some c => c.clint = some p.info.name || c.plic = some p.info.name
  | none => false

/-- A peripheral `peripheral::render` is called for. -/
def isRendered (p : Peripheral) : Bool :=
  config.target ≠ .riscv || !isRiscvPeripheral config p

/-- The context of an error. -/
def peripheralContext (p : Peripheral) : String :=
  "can't render peripheral '" ++ p.info.name ++ "', group '" ++
    p.info.groupName.getD "No group name" ++ "'" ++
    match p.info.derivedFrom with
    | some dname => ", derived from: '" ++ dname ++ "'"
    | none => ""

/-- No register block is generated, as `device::render` sees it. -/
def hasNoBlock (p : Peripheral) : Bool :=
  (p.info.registers.getD []).isEmpty && p.info.derivedFrom.isNone

/-- The fields of a peripheral that is rendered. -/
def renderedFields (p : Peripheral) : Gen (List (GatedItem PeripheralField)) :=
  if hasNoBlock p then return [] else madeFields crates config p

/-- One round of the loop of `device::render`. -/
def renderOutput (index : DeviceIndex) (fuel : Nat) (p : Peripheral) : Gen PeripheralOutput :=
  if isRendered config p then do
    let items ← withContext (peripheralContext p) (renderPeripheral crates config index fuel p)
    let fields ← renderedFields crates config p
    return ⟨p, items, fields⟩
  else do
    let fields ← madeFields crates config p
    return ⟨p, [], fields⟩

/-- `fpu_present`. -/
def fpuPresent (d : Device) : Bool :=
  match d.cpu with
  | some cpu => cpu.fpuPresent
  | none => true

/-- The loop of `device::render` over the peripherals. -/
def renderPeripherals (fuel : Nat) (d : Device) : Gen (List PeripheralOutput) :=
  (d.peripherals.filter (!isCorePeripheral crates config (fpuPresent d) ·)).mapM
    (renderOutput crates config (crates.indexCreate d.peripherals) fuel)

/-- The peripherals `peripheral::render` is called for. -/
def renderedPeripherals (d : Device) : List Peripheral :=
  (d.peripherals.filter (!isCorePeripheral crates config (fpuPresent d) ·)).filter
    (isRendered config)

/-- The `Peripherals` struct. -/
def peripheralsStruct (outputs : List PeripheralOutput) :
    Option (List (GatedItem PeripheralField)) :=
  if config.skipPeripheralsStruct then none else some (outputs.flatMap (·.fields))

/-- The names of the instances. -/
def instanceNames (p : Peripheral) : List String :=
  match p with
  | .single info => [info.name]
  | .array info dim => crates.names info.name dim

end Render

/-! ## What rendering emits -/

section Rendered

variable (crates : DeviceCrates) (config : DeviceConfig)

/-- The features of an instance of a peripheral. -/
def instanceFeatures (p : Peripheral) (name : String) : List String :=
  groupFeatures crates.toCrates config p.info.groupName ++
    peripheralFeatures crates.toCrates config name

/-- The name of the module a peripheral emits. -/
def peripheralModTy (p : Peripheral) : String :=
  identText crates.toCrates config.toConfig (peripheralNameOf p) .peripheralMod

/-- The items of an instance with the registers of the module `base`. -/
def IsInstance (base : String) (fs : List String) (name : String)
    (items : List (GatedItem PeripheralItem)) : Prop :=
  ∃ html doc docAlias address, items = instanceItems base html fs doc
    (identText crates.toCrates config.toConfig name .peripheral)
    (identText crates.toCrates config.toConfig
      (identText crates.toCrates config.toConfig name .peripheral) .peripheralSpec)
    docAlias address

/-- One group of items for each instance. -/
def AreInstances (base : String) (p : Peripheral)
    (instances : List (List (GatedItem PeripheralItem))) : Prop :=
  List.Forall₂ (fun name items =>
      IsInstance crates config base (instanceFeatures crates config p name) name items)
    (instanceNames crates p) instances

/-- The items of a peripheral that was resolved to `p`, with the block whose registers
it uses. -/
inductive Rendered (p : Peripheral) : Option BlockPath → List (GatedItem PeripheralItem) → Prop
  | dropped (hempty : p.info.registers.getD [] = []) : Rendered p none []
  | derived {path : BlockPath} {instances : List (List (GatedItem PeripheralItem))} {doc : String}
      (hinstances : AreInstances crates config
        (identText crates.toCrates config.toConfig path.peripheral .peripheralMod) p instances) :
      Rendered p (some path) (instances.flatten ++
        [⟨reexportCfg crates config (groupFeatures crates.toCrates config p.info.groupName) p,
          .reexport doc (identText crates.toCrates config.toConfig path.peripheral .peripheralMod)
            (peripheralModTy crates config p)⟩])
  | own {instances : List (List (GatedItem PeripheralItem))} {doc : String} {block : RegisterBlock}
      {items : List ErcCode} (hregisters : p.info.registers.getD [] ≠ [])
      (hinstances : AreInstances crates config (peripheralModTy crates config p) p instances) :
      Rendered p none (instances.flatten ++
        [⟨moduleCfg crates config (groupFeatures crates.toCrates config p.info.groupName) p,
          .module doc (peripheralModTy crates config p) block items⟩])

variable {crates config}

/-- The features of the elements of an array. -/
theorem elementFeatures_eq (info : PeripheralInfo) (dim : DimElement) :
    (crates.peripheralExpand info dim).map
        (fun pi => featureName crates.toCrates config pi.name) =
      (crates.names info.name dim).map (featureName crates.toCrates config) := by
  rw [← crates.peripheralExpand_names, List.map_map]
  rfl

theorem perToTokens_ok {base : String} {html : Option String} {fs : List String}
    {doc nameStr : String} {docAlias : Option String} {address : Nat}
    {items : List (GatedItem PeripheralItem)}
    (h : perToTokens crates config base html fs doc nameStr docAlias address = .ok items) :
    items = instanceItems base html fs doc nameStr
      (identText crates.toCrates config.toConfig nameStr .peripheralSpec) docAlias address := by
  obtain ⟨spec, hspec, h⟩ := gen_bind_ok.mp h
  rw [ident_text hspec, gen_pure_ok.mp h]

/-- The type of the instance if there is one only. -/
def instanceTy (crates : DeviceCrates) (config : DeviceConfig) (p : Peripheral) : String :=
  identText crates.toCrates config.toConfig (peripheralNameOf p) .peripheral

theorem renderInstances_ok {base : String} {html : Option String} {p : Peripheral}
    {instances : List (List (GatedItem PeripheralItem))}
    (h : renderInstances crates config base html
      (groupFeatures crates.toCrates config p.info.groupName) p (instanceTy crates config p) =
        .ok instances) :
    AreInstances crates config base p instances := by
  cases p with
  | single info =>
      obtain ⟨address, -, h⟩ := gen_bind_ok.mp h
      obtain ⟨items, hitems, h⟩ := gen_bind_ok.mp h
      obtain rfl := gen_pure_ok.mp h
      exact .cons ⟨html, _, _, _, perToTokens_ok hitems⟩ .nil
  | array info dim =>
      have hrel := gen_mapM_ok.mp h
      rw [AreInstances, instanceNames, ← crates.peripheralExpand_names,
        List.forall₂_map_left_iff]
      refine hrel.imp fun pi items hitems => ?_
      obtain ⟨nameStr, hname, hitems⟩ := gen_bind_ok.mp hitems
      obtain ⟨address, -, hitems⟩ := gen_bind_ok.mp hitems
      obtain rfl := ident_text hname
      exact ⟨html, _, _, _, perToTokens_ok hitems⟩

/-- The module with the registers of a peripheral: that of the base, or its own. -/
def baseTy (crates : DeviceCrates) (config : DeviceConfig) (p : Peripheral)
    (path : Option BlockPath) : String :=
  match path with
  | some path => identText crates.toCrates config.toConfig path.peripheral .peripheralMod
  | none => peripheralModTy crates config p

/-- What follows the instances of a peripheral that was resolved to `p`: a re-export, nothing,
or the module with the block of its registers. -/
inductive RendersTail (index : DeviceIndex) (fuel : Nat) (p : Peripheral)
    (instances : List (List (GatedItem PeripheralItem))) :
    Option BlockPath → List (GatedItem PeripheralItem) → Prop
  | derived (path : BlockPath) (doc : String) : RendersTail index fuel p instances (some path)
      (instances.flatten ++
        [⟨reexportCfg crates config (groupFeatures crates.toCrates config p.info.groupName) p,
          .reexport doc (baseTy crates config p (some path)) (peripheralModTy crates config p)⟩])
  | dropped (hempty : p.info.registers.getD [] = []) : RendersTail index fuel p instances none []
  | own {deriveInfos : List DeriveInfo} {modItems : List ErcCode} {block : RegisterBlock}
      (doc : String) (hregisters : p.info.registers.getD [] ≠ [])
      (hinfos : checkErcDeriveInfos crates.toCrates config.toConfig index.toIndex fuel
        (.new p.info.name) (p.info.registers.getD []) = .ok deriveInfos)
      (hitems : renderErcs crates.toCrates config.toConfig index.toIndex
        (clusterBlock crates.toCrates config.toConfig index.toIndex fuel)
        (p.info.registers.getD []) deriveInfos (.new p.info.name) = .ok modItems)
      (hblock : registerOrClusterBlock crates.toCrates config.toConfig
        (modItems.map ErcCode.erc) (.new p.info.name) deriveInfos none "Register block" none =
          .ok block) :
      RendersTail index fuel p instances none (instances.flatten ++
        [⟨moduleCfg crates config (groupFeatures crates.toCrates config p.info.groupName) p,
          .module doc (peripheralModTy crates config p) block modItems⟩])

/-- **One peripheral.**  What a run of `peripheral::render` that returns has done. -/
theorem renderPeripheral_cases {index : DeviceIndex} {fuel : Nat} {p : Peripheral}
    {items : List (GatedItem PeripheralItem)}
    (h : renderPeripheral crates config index fuel p = .ok items) :
    ∃ q path html instances, takeDerivedPeripheral crates index p = .ok (q, path) ∧
      renderInstances crates config (baseTy crates config q path) html
        (groupFeatures crates.toCrates config q.info.groupName) q (instanceTy crates config q) =
          .ok instances ∧
      @RendersTail crates config index fuel q instances path items := by
  obtain ⟨⟨q, path⟩, hderived, h⟩ := gen_bind_ok.mp h
  obtain ⟨-, h⟩ := ident_bind_ok.mp h
  obtain ⟨address, -, h⟩ := gen_bind_ok.mp h
  obtain ⟨-, h⟩ := ident_bind_ok.mp h
  obtain ⟨base, hbase, h⟩ := gen_bind_ok.mp h
  cases path with
  | some path =>
      obtain rfl := ident_text hbase
      obtain ⟨instances, hinstances, h⟩ := gen_bind_ok.mp h
      obtain rfl := gen_pure_ok.mp h
      exact ⟨q, some path, _, instances, hderived, hinstances, .derived path _⟩
  | none =>
      obtain rfl := gen_pure_ok.mp hbase
      obtain ⟨instances, hinstances, h⟩ := gen_bind_ok.mp h
      refine ⟨q, none, _, instances, hderived, hinstances, ?_⟩
      simp only at h
      split at h
      · rename_i hempty
        obtain rfl := gen_pure_ok.mp h
        exact .dropped (List.isEmpty_iff.mp hempty)
      · rename_i hregisters
        obtain ⟨deriveInfos, hinfos, h⟩ := gen_bind_ok.mp h
        obtain ⟨modItems, hmodItems, h⟩ := gen_bind_ok.mp h
        obtain ⟨block, hblock, h⟩ := gen_bind_ok.mp h
        obtain rfl := gen_pure_ok.mp h
        exact .own _ (fun hempty => hregisters (List.isEmpty_iff.mpr hempty)) hinfos hmodItems
          hblock

/-- **Rendered peripherals.**  The last part of the code tells the three cases apart: derived,
dropped without registers, or with a module of its own. -/
theorem renderPeripheral_ok {index : DeviceIndex} {fuel : Nat} {p : Peripheral}
    {items : List (GatedItem PeripheralItem)}
    (h : renderPeripheral crates config index fuel p = .ok items) :
    ∃ q path, takeDerivedPeripheral crates index p = .ok (q, path) ∧
      Rendered crates config q path items := by
  obtain ⟨q, path, html, instances, hderived, hinstances, htail⟩ := renderPeripheral_cases h
  refine ⟨q, path, hderived, ?_⟩
  cases htail with
  | derived path doc => exact .derived (renderInstances_ok hinstances)
  | dropped hempty => exact .dropped hempty
  | own doc hregisters hinfos hitems hblock =>
      exact .own hregisters (renderInstances_ok hinstances)

/-- The fields are made of the texts of their identifiers. -/
theorem madeFields_ok {p : Peripheral} {fields : List (GatedItem PeripheralField)}
    (h : madeFields crates config p = .ok fields) : structFields crates config p = fields := by
  obtain ⟨_, -, h⟩ := gen_bind_ok.mp h
  exact gen_pure_ok.mp h

theorem renderedFields_ok {p : Peripheral} {fields : List (GatedItem PeripheralField)}
    (h : renderedFields crates config p = .ok fields) :
    fields = if hasNoBlock p then [] else structFields crates config p := by
  unfold renderedFields at h
  split at h
  · rw [if_pos ‹_›, gen_pure_ok.mp h]
  · rw [if_neg ‹_›, madeFields_ok h]

theorem renderOutput_source {index : DeviceIndex} {fuel : Nat} {p : Peripheral}
    {o : PeripheralOutput} (h : renderOutput crates config index fuel p = .ok o) : o.source = p := by
  unfold renderOutput at h
  split at h
  · obtain ⟨items, -, h⟩ := gen_bind_ok.mp h
    obtain ⟨fields, -, h⟩ := gen_bind_ok.mp h
    exact congrArg PeripheralOutput.source (gen_pure_ok.mp h).symm
  · obtain ⟨fields, -, h⟩ := gen_bind_ok.mp h
    exact congrArg PeripheralOutput.source (gen_pure_ok.mp h).symm

/-- A peripheral that is not rendered has fields, but no items. -/
theorem renderOutput_skipped {index : DeviceIndex} {fuel : Nat} {p : Peripheral}
    {o : PeripheralOutput} (hrendered : ¬ isRendered config p = true)
    (h : renderOutput crates config index fuel p = .ok o) :
    o.items = [] ∧ o.fields = structFields crates config p := by
  simp only [renderOutput, hrendered] at h
  obtain ⟨fields, hfields, h⟩ := gen_bind_ok.mp h
  obtain rfl := gen_pure_ok.mp h
  exact ⟨rfl, (madeFields_ok hfields).symm⟩

theorem renderOutput_notRendered {index : DeviceIndex} {fuel : Nat} {p : Peripheral}
    {o : PeripheralOutput} (hrendered : ¬ isRendered config p = true)
    (h : renderOutput crates config index fuel p = .ok o) : o.items = [] :=
  (renderOutput_skipped hrendered h).1

/-- What a round does for a peripheral that is rendered. -/
theorem renderOutput_cases {index : DeviceIndex} {fuel : Nat} {p : Peripheral}
    {o : PeripheralOutput} (hrendered : isRendered config p = true)
    (h : renderOutput crates config index fuel p = .ok o) :
    o.fields = (if hasNoBlock p then [] else structFields crates config p) ∧
      renderPeripheral crates config index fuel p = .ok o.items := by
  simp only [renderOutput, hrendered, if_true] at h
  obtain ⟨items, hitems, h⟩ := gen_bind_ok.mp h
  obtain ⟨fields, hfields, h⟩ := gen_bind_ok.mp h
  obtain rfl := gen_pure_ok.mp h
  exact ⟨renderedFields_ok hfields, withContext_ok.mp hitems⟩

/-- The output of a peripheral that is rendered. -/
theorem renderOutput_ok {index : DeviceIndex} {fuel : Nat} {p : Peripheral} {o : PeripheralOutput}
    (hrendered : isRendered config p = true)
    (h : renderOutput crates config index fuel p = .ok o) :
    o.fields = (if hasNoBlock p then [] else structFields crates config p) ∧
      ∃ q path, takeDerivedPeripheral crates index p = .ok (q, path) ∧
        Rendered crates config q path o.items := by
  obtain ⟨hfields, hitems⟩ := renderOutput_cases hrendered h
  exact ⟨hfields, renderPeripheral_ok hitems⟩

/-- The items are those of the derived peripheral. -/
theorem renderOutput_rendered {index : DeviceIndex} {fuel : Nat} {p q : Peripheral}
    {path : Option BlockPath} {o : PeripheralOutput} (hrendered : isRendered config p = true)
    (h : renderOutput crates config index fuel p = .ok o)
    (hderived : takeDerivedPeripheral crates index p = .ok (q, path)) :
    Rendered crates config q path o.items := by
  obtain ⟨-, q', path', hderived', hitems⟩ := renderOutput_ok hrendered h
  obtain ⟨rfl, rfl⟩ := Prod.mk.inj (Except.ok.inj (hderived'.symm.trans hderived))
  exact hitems

/-- Derivation keeps the name and the dimensions. -/
theorem takeDerivedPeripheral_keeps {index : DeviceIndex} {p q : Peripheral}
    {path : Option BlockPath} (h : takeDerivedPeripheral crates index p = .ok (q, path)) :
    q.info.name = p.info.name ∧ q.dim = p.dim := by
  unfold takeDerivedPeripheral at h
  split at h
  · have hname := crates.derivePeripheral_name h
    have hdim := crates.derivePeripheral_dim h
    cases p with
    | single info => exact ⟨hname, hdim⟩
    | array info dim => exact ⟨hname, hdim⟩
  · obtain ⟨rfl, -⟩ := Prod.mk.inj (gen_pure_ok.mp h)
    exact ⟨rfl, rfl⟩

/-- Derivation keeps the names of the instances and of the module. -/
theorem names_derived {index : DeviceIndex} {p q : Peripheral} {path : Option BlockPath}
    (h : takeDerivedPeripheral crates index p = .ok (q, path)) :
    instanceNames crates q = instanceNames crates p ∧ peripheralNameOf q = peripheralNameOf p := by
  obtain ⟨hname, hdim⟩ := takeDerivedPeripheral_keeps h
  cases p with
  | single info =>
      cases q with
      | single info' => exact ⟨congrArg (fun name => [name]) hname, hname⟩
      | array info' dim' => cases hdim
  | array info dim =>
      cases q with
      | single info' => cases hdim
      | array info' dim' =>
          obtain rfl := Option.some.inj hdim
          exact ⟨congrArg (crates.names · dim') hname, congrArg removeDim hname⟩

theorem instanceNames_derived {index : DeviceIndex} {p q : Peripheral} {path : Option BlockPath}
    (h : takeDerivedPeripheral crates index p = .ok (q, path)) :
    instanceNames crates q = instanceNames crates p := (names_derived h).1

theorem peripheralNameOf_derived {index : DeviceIndex} {p q : Peripheral} {path : Option BlockPath}
    (h : takeDerivedPeripheral crates index p = .ok (q, path)) :
    peripheralNameOf q = peripheralNameOf p := (names_derived h).2

/-- A group of its own is kept by derivation. -/
theorem groupFeatures_derived {index : DeviceIndex} {p q : Peripheral} {path : Option BlockPath}
    (h : takeDerivedPeripheral crates index p = .ok (q, path)) :
    groupFeatures crates.toCrates config p.info.groupName ⊆
      groupFeatures crates.toCrates config q.info.groupName := by
  cases hgroup : p.info.groupName with
  | none => exact List.nil_subset _
  | some group =>
      have hkeeps : q.info.groupName = some group := by
        unfold takeDerivedPeripheral at h
        split at h
        · refine crates.derivePeripheral_group h ?_
          cases p with
          | single info => exact hgroup
          | array info dim => exact hgroup
        · obtain ⟨rfl, -⟩ := Prod.mk.inj (gen_pure_ok.mp h)
          exact hgroup
      rw [hkeeps]
      exact List.Subset.refl _

theorem isAlias_instanceItems (base : String) (html : Option String) (fs : List String)
    (doc nameStr spec : String) (docAlias : Option String) (address : Nat) :
    ((instanceItems base html fs doc nameStr spec docAlias address).filter
      (·.item.isAlias)).map (·.cfg) = [features fs] := rfl

/-- Every instance has an alias, behind the features of the instance. -/
theorem AreInstances.aliases_cfg {base : String} {p : Peripheral}
    {instances : List (List (GatedItem PeripheralItem))}
    (h : AreInstances crates config base p instances) :
    (instances.flatten.filter (·.item.isAlias)).map (·.cfg) =
      (instanceNames crates p).map fun name => features (instanceFeatures crates config p name) := by
  unfold AreInstances at h
  generalize instanceNames crates p = names at h
  induction h with
  | nil => rfl
  | cons hinstance _ ih =>
      obtain ⟨html, doc, docAlias, address, rfl⟩ := hinstance
      rw [List.flatten_cons, List.filter_append, List.map_append, isAlias_instanceItems, ih]
      rfl

/-- Whether rendering emits the items of a peripheral that was resolved to `p`. -/
def isEmitted (p : Peripheral) (path : Option BlockPath) : Bool :=
  path.isSome || !(p.info.registers.getD []).isEmpty

/-- A peripheral has items exactly when it is emitted. -/
theorem Rendered.items_ne_nil_iff {p : Peripheral} {path : Option BlockPath}
    {items : List (GatedItem PeripheralItem)} (h : Rendered crates config p path items) :
    items ≠ [] ↔ isEmitted p path = true := by
  cases h with
  | dropped hempty => simp [isEmitted, hempty]
  | derived hinstances => simp [isEmitted]
  | own hregisters hinstances => simp [isEmitted, hregisters]

/-- The attributes of the aliases of a peripheral. -/
theorem Rendered.aliases_cfg {p : Peripheral} {path : Option BlockPath}
    {items : List (GatedItem PeripheralItem)} (h : Rendered crates config p path items) :
    (items.filter (·.item.isAlias)).map (·.cfg) = if isEmitted p path then
      (instanceNames crates p).map fun name => features (instanceFeatures crates config p name)
    else [] := by
  cases h with
  | dropped hempty => simp [isEmitted, hempty]
  | derived hinstances =>
      rw [List.filter_append, List.map_append, hinstances.aliases_cfg]
      simp [isEmitted, PeripheralItem.isAlias]
  | own hregisters hinstances =>
      rw [List.filter_append, List.map_append, hinstances.aliases_cfg]
      simp [isEmitted, PeripheralItem.isAlias, hregisters]

/-- The items of the instances emit no module. -/
theorem AreInstances.modTy_eq_none {base : String} {p : Peripheral}
    {instances : List (List (GatedItem PeripheralItem))}
    (h : AreInstances crates config base p instances) {g : GatedItem PeripheralItem}
    (hg : g ∈ instances.flatten) : g.item.modTy = none := by
  obtain ⟨items, hitems, hg⟩ := List.mem_flatten.mp hg
  obtain ⟨name, -, html, doc, docAlias, address, rfl⟩ := exists_of_forall₂_mem h hitems
  simp only [instanceItems, List.mem_cons, List.not_mem_nil, or_false] at hg
  rcases hg with rfl | rfl | rfl <;> rfl

/-- Only the item behind those of the instances emits a module. -/
theorem AreInstances.eq_last {base modTy : String} {p : Peripheral}
    {instances : List (List (GatedItem PeripheralItem))}
    (h : AreInstances crates config base p instances) {g last : GatedItem PeripheralItem}
    (hg : g ∈ instances.flatten ++ [last]) (hmodTy : g.item.modTy = some modTy) : g = last := by
  rcases List.mem_append.mp hg with hg | hg
  · rw [h.modTy_eq_none hg] at hmodTy
    cases hmodTy
  · exact List.mem_singleton.mp hg

/-- The module of a peripheral has its name and the code of the loop over its registers. -/
theorem renderPeripheral_module {index : DeviceIndex} {fuel : Nat} {p : Peripheral}
    {items : List (GatedItem PeripheralItem)}
    (h : renderPeripheral crates config index fuel p = .ok items) {g : GatedItem PeripheralItem}
    (hg : g ∈ items) {doc modTy : String} {block : RegisterBlock} {codes : List ErcCode}
    (hmodule : g.item = .module doc modTy block codes) :
    ∃ q deriveInfos, takeDerivedPeripheral crates index p = .ok (q, none) ∧
      q.info.registers.getD [] ≠ [] ∧ modTy = peripheralModTy crates config q ∧
      checkErcDeriveInfos crates.toCrates config.toConfig index.toIndex fuel (.new q.info.name)
        (q.info.registers.getD []) = .ok deriveInfos ∧
      renderErcs crates.toCrates config.toConfig index.toIndex
        (clusterBlock crates.toCrates config.toConfig index.toIndex fuel)
        (q.info.registers.getD []) deriveInfos (.new q.info.name) = .ok codes := by
  obtain ⟨q, path, html, instances, hderived, hinstances, htail⟩ := renderPeripheral_cases h
  have hmodTy : g.item.modTy = some modTy := by rw [hmodule]; rfl
  have hlast : ∀ {last}, g ∈ instances.flatten ++ [last] → g = last :=
    fun hg => (renderInstances_ok hinstances).eq_last hg hmodTy
  cases htail with
  | derived path doc =>
      rw [hlast hg] at hmodule
      exact PeripheralItem.noConfusion hmodule
  | dropped hempty => cases hg
  | own doc hregisters hinfos hmodItems hblock =>
      rw [hlast hg] at hmodule
      obtain ⟨-, rfl, -, rfl⟩ := PeripheralItem.module.inj hmodule
      exact ⟨q, _, hderived, hregisters, rfl, hinfos, hmodItems⟩

end Rendered

end Svd2Rust
