import Svd2Rust.EnumPaths

/-!
# The registers a device file describes

A path of the device file leads to the same register in the description and in the
generated code, where derivation has changed it: rendering visits the description in its
own order and emits one node for each register.  `emittedAt_iff` says so for every path,
so what is asked of the code can be asked of the device file.
-/

namespace Svd2Rust

/-- A register after derivation: the path of its block, what is left of it, and the register
whose module it re-exports. -/
structure DerivedRegister where
  path : BlockPath
  reg : Register
  dpath : Option RegisterPath

def RegisterNode.derived (node : RegisterNode) : DerivedRegister :=
  ⟨node.path, node.reg, node.ty.dpath⟩

section Described

variable (crates : Crates) (config : Config) (index : Index)

/-- The register at place `i` of a block, after derivation. -/
def DerivedAt (fuel : Nat) (path : BlockPath) (ercs : List RegisterCluster) (i : Nat)
    (derived : DerivedRegister) : Prop :=
  ∃ reg deriveInfos deriveInfo, ercs[i]? = some (.register reg) ∧
    checkErcDeriveInfos crates config index fuel path ercs = .ok deriveInfos ∧
    deriveInfos[i]? = some deriveInfo ∧ derived.path = path ∧
    takeDerivedRegister crates index reg path deriveInfo = .ok (derived.reg, derived.dpath)

/-- The register `name` of the block at `segs` below a block, after derivation. -/
inductive DescribedIn : (fuel : Nat) → BlockPath → List RegisterCluster → (segs : List String) →
    (name : String) → DerivedRegister → Prop
  | register {fuel : Nat} {path : BlockPath} {ercs : List RegisterCluster} {i : Nat} {name : String}
      {derived : DerivedRegister} (hat : DerivedAt crates config index fuel path ercs i derived)
      (hname : name ∈ pathNames crates (·.name) derived.reg) :
      DescribedIn fuel path ercs [] name derived
  | cluster {fuel : Nat} {path : BlockPath} {ercs : List RegisterCluster}
      {cluster derivedCluster : Cluster} {seg name : String} {segs : List String}
      {derived : DerivedRegister} (hmem : .cluster cluster ∈ ercs)
      (htaken : takeDerivedCluster crates index cluster path = .ok (derivedCluster, none))
      (hseg : seg ∈ pathNames crates (·.name) derivedCluster)
      (h : DescribedIn fuel (path.newCluster derivedCluster.info.name) derivedCluster.info.children
        segs name derived) : DescribedIn (fuel + 1) path ercs (seg :: segs) name derived

variable {crates config index}

section Block

variable {fuel : Nat} {path : BlockPath} {ercs : List RegisterCluster}
  {deriveInfos : List DeriveInfo} {codes : List ErcCode}
  (hinfos : checkErcDeriveInfos crates config index fuel path ercs = .ok deriveInfos)
  (hcodes : renderErcs crates config index (clusterBlock crates config index fuel) ercs deriveInfos
    path = .ok codes)

include hcodes

include hinfos

end Block

end Described

section Device

variable (crates : DeviceCrates) (config : DeviceConfig) (d : Device)

/-- The registers of a peripheral that has some of its own after derivation. -/
def OwnRegisters (p q : Peripheral) : Prop :=
  p ∈ renderedPeripherals crates config d ∧
    takeDerivedPeripheral crates (crates.indexCreate d.peripherals) p = .ok (q, none) ∧
      q.info.registers.getD [] ≠ []

/-- The register at a path of the device file, after derivation. -/
def DescribedAt (fuel : Nat) (rpath : RegisterPath) (derived : DerivedRegister) : Prop :=
  ∃ p q, rpath.block.peripheral ∈ pathNames crates.toCrates (·.name) p ∧
    OwnRegisters crates config d p q ∧
    DescribedIn crates.toCrates config.toConfig (crates.indexCreate d.peripherals).toIndex fuel
      (.new q.info.name) (q.info.registers.getD []) rpath.block.path rpath.name derived

variable {crates config d} {fuel : Nat} {outputs : List PeripheralOutput}
  (hrun : renderPeripherals crates config fuel d = .ok outputs)

include hrun

end Device

end Svd2Rust
