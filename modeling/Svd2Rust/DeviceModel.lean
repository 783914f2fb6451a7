import Svd2Rust.CfgAttributes
import Svd2Rust.Identifiers

/-!
# Peripherals and devices

The upper part of the SVD model, with the configuration and the functions of other
crates that the generation of a whole device adds.  A generated item carries the
Cargo features its `#[cfg(..)]` attributes name.
-/

namespace Svd2Rust

/-- `svd::Interrupt`. -/
structure Interrupt where
  name : String
  description : Option String
  value : Nat
deriving DecidableEq, Repr

/-- `svd::PeripheralInfo`. -/
structure PeripheralInfo where
  name : String
  description : Option String
  groupName : Option String
  baseAddress : Nat
  interrupt : List Interrupt
  registers : Option (List RegisterCluster)
  derivedFrom : Option String

abbrev Peripheral := MaybeArray PeripheralInfo

/-- `config::Target`. -/
inductive Target where
  | cortexM
  | msp430
  | riscv
  | xtensaLX
  | mips
  | avr
  | none
deriving DecidableEq, Repr

/-- `svd::Cpu`. -/
structure Cpu where
  fpuPresent : Bool
deriving DecidableEq, Repr

/-- `svd::Device`. -/
structure Device where
  cpu : Option Cpu
  peripherals : List Peripheral

/-- `RiscvConfig`: the names of the core's own peripherals. -/
structure RiscvConfig where
  clint : Option String
  plic : Option String
deriving DecidableEq, Repr

/-- The part of `Config` that only the generation of a device reads, with what it reads
of `Settings`. -/
structure DeviceConfig extends Config where
  target : Target
  featureGroup : Bool
  featurePeripheral : Bool
  skipPeripheralsStruct : Bool
  baseAddressShift : Nat
  htmlUrl : Option String
  cratePath : Option (List String)
  riscvConfig : Option RiscvConfig

/-- `svd_parser::expand::Index` with the peripherals. -/
structure DeviceIndex extends Index where
  peripherals : BlockPath → Option Peripheral

/-- The functions of other crates that only the generation of a device calls.  An
expanded array has the names of its elements, and a derived peripheral keeps its own
name, its dimensions and the group it has. -/
structure DeviceCrates extends Crates where
  toUppercase : String → String
  indexCreate : List Peripheral → DeviceIndex
  peripheralExpand : PeripheralInfo → DimElement → List PeripheralInfo
  derivePeripheral : Peripheral → String → DeviceIndex → Gen (Peripheral × Option BlockPath)
  peripheralExpand_names : ∀ info dim,
    (peripheralExpand info dim).map (·.name) = names info.name dim
  derivePeripheral_name : ∀ {p dpath index q path},
    derivePeripheral p dpath index = .ok (q, path) → q.info.name = p.info.name
  derivePeripheral_dim : ∀ {p dpath index q path},
    derivePeripheral p dpath index = .ok (q, path) → q.dim = p.dim
  derivePeripheral_group : ∀ {p dpath index q path group},
    derivePeripheral p dpath index = .ok (q, path) → p.info.groupName = some group →
      q.info.groupName = some group

/-- A Cargo feature, and an item behind `#[cfg(..)]` attributes over them. -/
abbrev GatedItem (Item : Type) := CfgAttributes.Gated String Item

section Features

variable (crates : Crates) (config : DeviceConfig)

/-- `util::name_of` a peripheral. -/
def peripheralNameOf (p : Peripheral) : String :=
  match p with
  | .single info => info.name
  | .array info _ => removeDim info.name

/-- `feature_format.apply`. -/
def featureName (name : String) : String :=
  (config.identFormats .peripheralFeature).apply crates name

/-- The attribute of the group, with `feature_group`. -/
def groupFeatures (groupName : Option String) : List String :=
  match groupName with
  | some group => if config.featureGroup then [featureName crates config group] else []
  | none => []

/-- The attribute of the peripheral, with `feature_peripheral`. -/
def peripheralFeatures (name : String) : List String :=
  if config.featurePeripheral then [featureName crates config name] else []

end Features

end Svd2Rust
