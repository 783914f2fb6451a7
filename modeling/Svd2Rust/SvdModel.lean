import Mathlib.Algebra.GroupWithZero.Nat
import Mathlib.Data.Nat.Basic
import Mathlib.Data.List.Basic

/-!
# The SVD device model

The data the generator reads: registers, fields, enumerations, clusters and
their `dim` arrays, with the paths that name them.  Members no modelled
function reads are left out.
-/

namespace Svd2Rust

/-- `svd::Access`. -/
inductive Access where
  | readOnly
  | readWrite
  | readWriteOnce
  | writeOnce
  | writeOnly
deriving DecidableEq, Repr

def Access.canRead : Access → Bool
  | .readOnly | .readWrite | .readWriteOnce => true
  | .writeOnce | .writeOnly => false

def Access.canWrite : Access → Bool
  | .readOnly => false
  | _ => true

/-- `svd::ModifiedWriteValues`; its default is `modify`. -/
inductive ModifiedWriteValues where
  | oneToClear
  | oneToSet
  | oneToToggle
  | zeroToClear
  | zeroToSet
  | zeroToToggle
  | clear
  | set
  | modify
deriving DecidableEq, Repr

instance : Inhabited ModifiedWriteValues := ⟨.modify⟩

/-- `svd::ReadAction`. -/
inductive ReadAction where
  | clear
  | set
  | modify
  | modifyExternal
deriving DecidableEq, Repr

/-- `svd::Usage` of an enumeration. -/
inductive Usage where
  | read
  | write
  | readWrite
deriving DecidableEq, Repr

/-- `svd::WriteConstraintRange`. -/
structure WriteConstraintRange where
  min : Nat
  max : Nat
deriving DecidableEq, Repr

/-- `svd::WriteConstraint`. -/
inductive WriteConstraint where
  | writeAsRead (flag : Bool)
  | useEnumeratedValues (flag : Bool)
  | range (range : WriteConstraintRange)
deriving DecidableEq, Repr

/-- `svd::EnumeratedValue`. -/
structure EnumeratedValue where
  name : String
  description : Option String
  value : Option Nat
  isDefault : Bool
deriving DecidableEq, Repr

/-- `svd::EnumeratedValues`. -/
structure EnumeratedValues where
  name : Option String
  usage : Option Usage
  derivedFrom : Option String
  values : List EnumeratedValue
deriving DecidableEq, Repr

/-- `svd::BitRange` without its notation tag. -/
structure BitRange where
  offset : Nat
  width : Nat
deriving DecidableEq, Repr

/-- `svd::DimElement`.  A list of indexes names every element, which the parser
checks when it reads a `dim` array. -/
structure DimElement where
  dim : Nat
  dimIncrement : Nat
  dimIndex : Option (List String)
  dimName : Option String
  dimIndex_length : ∀ index ∈ dimIndex, index.length = dim
deriving DecidableEq, Repr

/-- `svd::MaybeArray`. -/
inductive MaybeArray (α : Type) where
  | single (info : α)
  | array (info : α) (dim : DimElement)
deriving DecidableEq, Repr

/-- Rust reads the members of the element description through `Deref`. -/
def MaybeArray.info {α : Type} : MaybeArray α → α
  | .single info => info
  | .array info _ => info

def MaybeArray.isSingle {α : Type} : MaybeArray α → Bool
  | .single _ => true
  | .array _ _ => false

def MaybeArray.dim {α : Type} : MaybeArray α → Option DimElement
  | .single _ => none
  | .array _ dim => some dim

/-- The element description changed in place. -/
def MaybeArray.mapInfo {α : Type} (f : α → α) : MaybeArray α → MaybeArray α
  | .single info => .single (f info)
  | .array info dim => .array (f info) dim

@[simp] theorem MaybeArray.info_single {α : Type} (info : α) : (single info).info = info := rfl

@[simp] theorem MaybeArray.info_array {α : Type} (info : α) (dim : DimElement) :
    (array info dim).info = info := rfl

/-- `svd::FieldInfo`. -/
structure FieldInfo where
  name : String
  description : Option String
  bitRange : BitRange
  access : Option Access
  modifiedWriteValues : Option ModifiedWriteValues
  writeConstraint : Option WriteConstraint
  readAction : Option ReadAction
  enumeratedValues : List EnumeratedValues
  derivedFrom : Option String
deriving DecidableEq, Repr

abbrev Field := MaybeArray FieldInfo

/-- `svd::Protection`. -/
inductive Protection where
  | secure
  | nonSecure
  | privileged
deriving DecidableEq, Repr

/-- `svd::RegisterProperties`. -/
structure RegisterProperties where
  size : Option Nat
  access : Option Access
  protection : Option Protection
  resetValue : Option Nat
  resetMask : Option Nat
deriving DecidableEq, Repr

/-- `svd::RegisterInfo`. -/
structure RegisterInfo where
  name : String
  description : Option String
  alternateGroup : Option String
  addressOffset : Nat
  properties : RegisterProperties
  modifiedWriteValues : Option ModifiedWriteValues
  writeConstraint : Option WriteConstraint
  readAction : Option ReadAction
  fields : Option (List Field)
  derivedFrom : Option String
deriving DecidableEq, Repr

abbrev Register := MaybeArray RegisterInfo

/-- `svd::ClusterInfo`, over the type of its children. -/
structure ClusterInfoOf (Child : Type) where
  name : String
  description : Option String
  addressOffset : Nat
  children : List Child
  derivedFrom : Option String

/-- `svd::RegisterCluster`: an *E*ither *R*egister or *C*luster. -/
inductive RegisterCluster where
  | register (reg : Register)
  | cluster (cluster : MaybeArray (ClusterInfoOf RegisterCluster))

abbrev ClusterInfo := ClusterInfoOf RegisterCluster

abbrev Cluster := MaybeArray ClusterInfo

/-- `BlockPath`: a peripheral and the clusters below it. -/
structure BlockPath where
  peripheral : String
  path : List String
deriving DecidableEq, Repr

/-- `RegisterPath`: a register and the block that holds it. -/
structure RegisterPath where
  block : BlockPath
  name : String
deriving DecidableEq, Repr

/-- `FieldPath`: a field and the register that holds it. -/
structure FieldPath where
  register : RegisterPath
  name : String
deriving DecidableEq, Repr

/-- `EnumPath`: an enumeration and the field that holds it. -/
structure EnumPath where
  field : FieldPath
  name : String
deriving DecidableEq, Repr

def BlockPath.new (peripheral : String) : BlockPath := ⟨peripheral, []⟩

def BlockPath.newCluster (block : BlockPath) (name : String) : BlockPath :=
  ⟨block.peripheral, block.path ++ [name]⟩

def BlockPath.newRegister (block : BlockPath) (name : String) : RegisterPath := ⟨block, name⟩

def RegisterPath.newField (register : RegisterPath) (name : String) : FieldPath := ⟨register, name⟩

def FieldPath.newEnum (field : FieldPath) (name : String) : EnumPath := ⟨field, name⟩

end Svd2Rust
