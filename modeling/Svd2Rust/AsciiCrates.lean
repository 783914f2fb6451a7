import Svd2Rust.DeviceModel

/-!
# The other crates on plain ASCII input

A concrete `Crates` for plain ASCII names: it expands `dim` arrays, converts the
case of names, matches the array regexes of the generator and resolves one step
of `derivedFrom`.  The concrete inputs of the development run on it.
-/

namespace Svd2Rust

open RustStrings

namespace AsciiCrates

/-- `svd::DimElement::indexes`. -/
def indexes (dim : DimElement) : List String :=
  dim.dimIndex.getD ((List.range dim.dim).map fun i => String.ofList (Nat.toDigits 10 i))

/-- A decimal number without sign. -/
def parseNat (s : String) : Option Nat :=
  if s ≠ "" ∧ s.toList.all Char.isDigit then
    some (s.toList.foldl (fun n c => 10 * n + (c.toNat - 48)) 0)
  else none

/-- `svd::DimElement::indexes_as_range`: the first and last index of a sequence
of consecutive numbers. -/
def indexesAsRange (dim : DimElement) : Option (Nat × Nat) :=
  match dim.dimIndex with
  | none => if dim.dim = 0 then none else some (0, dim.dim - 1)
  | some texts => do
      let numbers ← texts.mapM parseNat
      let first ← numbers.head?
      if numbers = (List.range dim.dim).map (first + ·) then some (first, first + dim.dim - 1)
      else none

/-- `svd::array::names`. -/
def names (name : String) (dim : DimElement) : List String :=
  (indexes dim).map (expandDim name)

/-- `svd::register::expand`. -/
def registerExpand (info : RegisterInfo) (dim : DimElement) : List RegisterInfo :=
  (indexes dim).zipIdx.map fun (index, i) =>
    { info with
      name := expandDim info.name index
      description := info.description.map (expandDim · index)
      addressOffset := info.addressOffset + i * dim.dimIncrement }

/-- `svd::cluster::expand`. -/
def clusterExpand (info : ClusterInfo) (dim : DimElement) : List ClusterInfo :=
  (indexes dim).zipIdx.map fun (index, i) =>
    { info with
      name := expandDim info.name index
      description := info.description.map (expandDim · index)
      addressOffset := info.addressOffset + i * dim.dimIncrement }

/-- `svd::field::expand`. -/
def fieldExpand (info : FieldInfo) (dim : DimElement) : List FieldInfo :=
  (indexes dim).zipIdx.map fun (index, i) =>
    { info with
      name := expandDim info.name index
      description := info.description.map (expandDim · index)
      bitRange := ⟨info.bitRange.offset + i * dim.dimIncrement, info.bitRange.width⟩ }

/-- The bits of one field. -/
def fieldBits (info : FieldInfo) : Nat :=
  (2 ^ info.bitRange.width - 1) <<< info.bitRange.offset

/-- `svd::Field::bitmask`. -/
def bitmask : Field → Nat
  | .single info => fieldBits info
  | .array info dim => ((fieldExpand info dim).map fieldBits).foldl (· ||| ·) 0

/-- `RegisterPath::parse_str`: a block before the last dot, and a name. -/
def parseStr (s : String) : Option BlockPath × String :=
  match ((splitChars (· == '.') s.toList).map String.ofList).reverse with
  | name :: last :: before => match (last :: before).reverse with
      | peripheral :: path => (some ⟨peripheral, path⟩, name)
      | [] => (none, name)
  | _ => (none, s)

/-- What stands between the words of a name. -/
def isSeparator (c : Char) : Bool := c == '_' || c == '-' || c == ' '

/-- The words of a name: between separators, which leave an empty word where two of them
meet, and before a capital after a small letter. -/
def wordChars : (small : Bool) → List Char → List (List Char)
  | _, [] => [[]]
  | small, c :: cs =>
      if isSeparator c then [] :: wordChars false cs
      else
        match wordChars c.isLower cs with
        | word :: words =>
            if small && c.isUpper then [] :: (c :: word) :: words else (c :: word) :: words
        | [] => [[c]]

def words (s : String) : List (List Char) := wordChars false s.toList

def toPascalCase (s : String) : String :=
  String.ofList ((words s).flatMap fun word => match word with
    | [] => []
    | c :: cs => c.toUpper :: cs.map Char.toLower)

def toSnakeCase (s : String) : String :=
  String.ofList (List.intercalate ['_'] ((words s).map (·.map Char.toLower)))

def toConstantCase (s : String) : String :=
  String.ofList (List.intercalate ['_'] ((words s).map (·.map Char.toUpper)))

/-- `Regex::new` for the patterns `check_erc_derive_infos` builds: plain text
with one group of digits or `%s`. -/
def regexNew (pattern : String) : Option (String → Bool) :=
  let body := (pattern.toList.drop 1).dropLast
  let group := "([0-9]+|%s)".toList
  match (List.range (body.length + 1)).find? fun i => group.isPrefixOf (body.drop i) with
  | none => some fun s => s.toList == body
  | some i => some fun s =>
      let before := body.take i
      let after := body.drop (i + group.length)
      let middle := (s.toList.drop i).take (s.toList.length - i - after.length)
      s.toList == before ++ middle ++ after &&
        (middle == "%s".toList || (middle != [] && middle.all Char.isDigit))

/-- One step of `derive_register`: what the description leaves open comes from
the named register. -/
def deriveRegister (reg : Register) (dpath : String) (path : BlockPath) (index : Index) :
    Gen (Register × Option RegisterPath) := do
  let (block, name) := parseStr dpath
  let rpath := (block.getD path).newRegister name
  let base ← okOr ("register " ++ dpath ++ " not found") (index.registers rpath)
  let fill := fun (info : RegisterInfo) =>
    { info with
      properties :=
        { size := info.properties.size.or base.info.properties.size
          access := info.properties.access.or base.info.properties.access
          protection := info.properties.protection.or base.info.properties.protection
          resetValue := info.properties.resetValue.or base.info.properties.resetValue
          resetMask := info.properties.resetMask.or base.info.properties.resetMask }
      fields := info.fields.or base.info.fields
      derivedFrom := none }
  let inherits := reg.info.fields.isNone
  let reg := match reg with
    | .single info => .single (fill info)
    | .array info dim => .array (fill info) dim
  return (reg, if inherits then some rpath else none)

/-- `derive_enumerated_values` for a reference `FIELD.ENUM` into the same register. -/
def deriveEnumeratedValues (evs : EnumeratedValues) (dpath : String) (path : FieldPath)
    (index : Index) : Gen (EnumeratedValues × EnumPath) :=
  match (splitChars (· == '.') dpath.toList).map String.ofList with
  | [field, name] => do
      let epath := (path.register.newField field).newEnum name
      let base ← okOr ("enum " ++ dpath ++ " not found") (index.evs epath)
      return ({ evs with values := base.values }, epath)
  | _ => bail ("enum " ++ dpath ++ " not found")

/-- `svd::peripheral::expand`. -/
def peripheralExpand (info : PeripheralInfo) (dim : DimElement) : List PeripheralInfo :=
  (indexes dim).zipIdx.map fun (index, i) =>
    { info with
      name := expandDim info.name index
      description := info.description.map (expandDim · index)
      baseAddress := info.baseAddress + i * dim.dimIncrement }

/-- One step of `derive_peripheral`: group and registers come from the named
peripheral where there are none. -/
def derivePeripheral (p : Peripheral) (dpath : String) (index : DeviceIndex) :
    Gen (Peripheral × Option BlockPath) := do
  let base ← okOr ("peripheral " ++ dpath ++ " not found") (index.peripherals (.new dpath))
  let q := p.mapInfo fun info =>
    { info with
      groupName := info.groupName.or base.info.groupName
      registers := info.registers.or base.info.registers }
  return (q, if p.info.registers.isNone then some (.new dpath) else none)

/-- The names a peripheral is found under: its own and those of its elements. -/
def peripheralNames : Peripheral → List String
  | .single info => [info.name]
  | .array info dim => info.name :: names info.name dim

/-- `Index::create` for peripherals whose registers are found elsewhere. -/
def indexCreate (peripherals : List Peripheral) : DeviceIndex where
  registers _ := none
  clusters _ := none
  evs _ := none
  peripherals path := peripherals.find? fun p => path.path = [] ∧ path.peripheral ∈ peripheralNames p

end AsciiCrates

open AsciiCrates

theorem AsciiCrates.indexes_length (dim : DimElement) : (indexes dim).length = dim.dim := by
  unfold indexes
  cases hdim : dim.dimIndex with
  | none => simp
  | some texts => exact dim.dimIndex_length texts hdim

/-- Element `i` of a numbered list depends on `i` alone. -/
theorem AsciiCrates.map_zipIdx_snd {α β : Type} (l : List α) (f : Nat → β) :
    l.zipIdx.map (fun p => f p.2) = (List.range l.length).map f := by
  rw [← Function.comp_def f Prod.snd, ← List.map_map, List.zipIdx_map_snd, List.range_eq_range']

/-- The crates on plain ASCII input. -/
def asciiCrates : Crates where
  indexes := indexes
  indexesAsRange := indexesAsRange
  names := names
  registerExpand := registerExpand
  clusterExpand := clusterExpand
  fieldExpand := fieldExpand
  bitmask := bitmask
  parseStr := parseStr
  deriveRegister := deriveRegister
  deriveCluster cluster _ _ _ := return (cluster, none)
  deriveField field _ _ _ := return (field, none)
  deriveEnumeratedValues := deriveEnumeratedValues
  toConstantCase := toConstantCase
  toPascalCase := AsciiCrates.toPascalCase
  toSnakeCase := toSnakeCase
  isConstantCase s := s == toConstantCase s
  isPascalCase s := s == AsciiCrates.toPascalCase s
  isSnakeCase s := s == toSnakeCase s
  isNumeric := Char.isDigit
  isAlphabetic := Char.isAlpha
  isXidStart := Char.isAlpha
  isXidContinue c := c.isAlphanum || c == '_'
  regexNew := regexNew
  indexes_length := indexes_length
  indexesAsRange_counted dim hnone hpos := by
    simp [indexesAsRange, hnone, Nat.pos_iff_ne_zero.mp hpos]
  names_length name dim := by simp [names, indexes_length]
  registerExpand_offsets info dim := by
    rw [registerExpand, List.map_map, ← indexes_length dim]
    exact map_zipIdx_snd _ fun i => info.addressOffset + i * dim.dimIncrement
  registerExpand_names info dim := by
    simp only [registerExpand, names, List.map_map]
    rw [← List.zipIdx_map_fst 0 (indexes dim), List.map_map]
    simp [Function.comp_def]
  clusterExpand_offsets info dim := by
    rw [clusterExpand, List.map_map, ← indexes_length dim]
    exact map_zipIdx_snd _ fun i => info.addressOffset + i * dim.dimIncrement
  fieldExpand_bitRanges info dim := by
    rw [fieldExpand, List.map_map, ← indexes_length dim]
    exact map_zipIdx_snd _ fun i =>
      (⟨info.bitRange.offset + i * dim.dimIncrement, info.bitRange.width⟩ : BitRange)

/-- Changed in place, a description keeps its dimensions. -/
theorem AsciiCrates.dim_mapInfo {α : Type} (f : α → α) (x : MaybeArray α) :
    (x.mapInfo f).dim = x.dim := by
  cases x with
  | single info => rfl
  | array info dim => rfl

theorem AsciiCrates.info_mapInfo {α : Type} (f : α → α) (x : MaybeArray α) :
    (x.mapInfo f).info = f x.info := by
  cases x with
  | single info => rfl
  | array info dim => rfl

/-- The crates for a device on plain ASCII input. -/
def asciiDeviceCrates : DeviceCrates where
  toCrates := asciiCrates
  toUppercase s := String.ofList (s.toList.map Char.toUpper)
  indexCreate := indexCreate
  peripheralExpand := peripheralExpand
  derivePeripheral := derivePeripheral
  peripheralExpand_names info dim := by
    simp only [peripheralExpand, asciiCrates, names, List.map_map]
    rw [← List.zipIdx_map_fst 0 (indexes dim), List.map_map]
    simp [Function.comp_def]
  derivePeripheral_name h := by
    obtain ⟨base, -, h⟩ := gen_bind_ok.mp h
    obtain ⟨rfl, -⟩ := Prod.mk.inj (gen_pure_ok.mp h)
    rw [info_mapInfo]
  derivePeripheral_dim h := by
    obtain ⟨base, -, h⟩ := gen_bind_ok.mp h
    obtain ⟨rfl, -⟩ := Prod.mk.inj (gen_pure_ok.mp h)
    exact dim_mapInfo _ _
  derivePeripheral_group h hgroup := by
    obtain ⟨base, -, h⟩ := gen_bind_ok.mp h
    obtain ⟨rfl, -⟩ := Prod.mk.inj (gen_pure_ok.mp h)
    rw [info_mapInfo]
    exact congrArg (·.or base.info.groupName) hgroup

/-- `Config::default` with the default theme. -/
def defaultConfig : Config where
  ignoreGroups := false
  keepList := false
  maxClusterSize := false
  fieldNamesForEnums := false
  identFormats := defaultTheme

/-- A register of which only the name, the place and the size are given. -/
def plainRegister (name : String) (addressOffset size : Nat) : RegisterInfo where
  name := name
  description := none
  alternateGroup := none
  addressOffset := addressOffset
  properties := ⟨some size, none, none, none, none⟩
  modifiedWriteValues := none
  writeConstraint := none
  readAction := none
  fields := none
  derivedFrom := none

/-- A field of which only the name and the bits are given. -/
def bitField (name : String) (offset width : Nat) : FieldInfo where
  name := name
  description := none
  bitRange := ⟨offset, width⟩
  access := none
  modifiedWriteValues := none
  writeConstraint := none
  readAction := none
  enumeratedValues := []
  derivedFrom := none

/-- A `dim` array without `dimIndex`. -/
def countedDim (dim dimIncrement : Nat) : DimElement where
  dim := dim
  dimIncrement := dimIncrement
  dimIndex := none
  dimName := none
  dimIndex_length := by simp

/-- The default configuration of a device without features. -/
def defaultDeviceConfig : DeviceConfig where
  toConfig := defaultConfig
  target := .cortexM
  featureGroup := false
  featurePeripheral := false
  skipPeripheralsStruct := false
  baseAddressShift := 0
  htmlUrl := none
  cratePath := none
  riscvConfig := none

/-- The default configuration with features for groups. -/
def groupConfig : DeviceConfig := { defaultDeviceConfig with featureGroup := true }

/-- The default configuration with features for groups and peripherals. -/
def featureConfig : DeviceConfig :=
  { defaultDeviceConfig with featureGroup := true, featurePeripheral := true }

/-- A peripheral of which only the name is given. -/
def plainPeripheral (name : String) : PeripheralInfo where
  name := name
  description := none
  groupName := none
  baseAddress := 0
  interrupt := []
  registers := none
  derivedFrom := none

end Svd2Rust
