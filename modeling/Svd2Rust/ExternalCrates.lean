import Svd2Rust.RustOutcome
import Svd2Rust.RustStrings
import Svd2Rust.SvdModel

/-!
# What the generator takes from other crates

`svd-rs` expands `dim` arrays, `svd-parser` builds the index and resolves
`derivedFrom`, `inflections` changes the case of names and `regex` matches
array names, and `proc_macro2` takes a text for an identifier by the tables of Unicode.
None of them is part of the repository, so the model takes them
as one parameter, `Crates`, whose proof fields say what their documentation
promises and the generator relies on.
-/

namespace Svd2Rust

/-- `svd_parser::expand::Index`: what the paths of the device name. -/
structure Index where
  registers : RegisterPath → Option Register
  clusters : BlockPath → Option Cluster
  evs : EnumPath → Option EnumeratedValues

/-- The functions of other crates.  The proof fields are documented behaviour:
a `dim` array has `dim` elements, element `i` lies `i * dim_increment` after
the first and is otherwise the description itself, and a sequence without
`dimIndex` counts from zero. -/
structure Crates where
  indexes : DimElement → List String
  indexesAsRange : DimElement → Option (Nat × Nat)
  names : String → DimElement → List String
  registerExpand : RegisterInfo → DimElement → List RegisterInfo
  clusterExpand : ClusterInfo → DimElement → List ClusterInfo
  fieldExpand : FieldInfo → DimElement → List FieldInfo
  bitmask : Field → Nat
  parseStr : String → Option BlockPath × String
  deriveRegister : Register → String → BlockPath → Index → Gen (Register × Option RegisterPath)
  deriveCluster : Cluster → String → BlockPath → Index → Gen (Cluster × Option BlockPath)
  deriveField : Field → String → RegisterPath → Index → Gen (Field × Option FieldPath)
  deriveEnumeratedValues :
    EnumeratedValues → String → FieldPath → Index → Gen (EnumeratedValues × EnumPath)
  toConstantCase : String → String
  toPascalCase : String → String
  toSnakeCase : String → String
  isConstantCase : String → Bool
  isPascalCase : String → Bool
  isSnakeCase : String → Bool
  isNumeric : Char → Bool
  isAlphabetic : Char → Bool
  isXidStart : Char → Bool
  isXidContinue : Char → Bool
  regexNew : String → Option (String → Bool)
  indexes_length : ∀ dim, (indexes dim).length = dim.dim
  indexesAsRange_counted : ∀ dim, dim.dimIndex = none → 0 < dim.dim →
    indexesAsRange dim = some (0, dim.dim - 1)
  names_length : ∀ name dim, (names name dim).length = dim.dim
  registerExpand_offsets : ∀ info dim, (registerExpand info dim).map (·.addressOffset) =
    (List.range dim.dim).map fun i => info.addressOffset + i * dim.dimIncrement
  registerExpand_names : ∀ info dim,
    (registerExpand info dim).map (·.name) = names info.name dim
  clusterExpand_offsets : ∀ info dim, (clusterExpand info dim).map (·.addressOffset) =
    (List.range dim.dim).map fun i => info.addressOffset + i * dim.dimIncrement
  fieldExpand_bitRanges : ∀ info dim, (fieldExpand info dim).map (·.bitRange) =
    (List.range dim.dim).map fun i =>
      ⟨info.bitRange.offset + i * dim.dimIncrement, info.bitRange.width⟩

end Svd2Rust
