import Svd2Rust.FieldRegions

/-!
# Expansion of registers and clusters into block fields

`expand_register` and `expand_cluster` turn every register and cluster of a
block into `RegisterBlockField`s, and `expand` sorts what they return.  The
functions follow the source, comments and warning notes included.

What the later modules need to know of an expansion is its `Placement`: a
single field, an inline Rust array, a field of type `()` in front of which only
raw pointers work, or one field for each element.  `expandRegister_placed` and
`expandCluster_placed` say that an expansion is placed as the inputs alone
determine, and `expand_footprints` reads off which bytes the fields take.
-/

namespace Svd2Rust

open RustStrings

/-- `DeriveInfo`. -/
inductive DeriveInfo where
  | root
  | explicit (path : RegisterPath)
  | implicit (path : RegisterPath)
  | cluster
deriving DecidableEq, Repr

/-- `make_comment`. -/
def makeComment (size offset : Nat) (description : String) : Gen String := do
  let desc := escapeSpecialChars (respace description)
  if size > 32 then
    let end_ ← addU32 offset (size / 8)
    return "0x" ++ paddedHex 2 offset ++ "..0x" ++ paddedHex 2 end_ ++ " - " ++ desc
  else return "0x" ++ paddedHex 2 offset ++ " - " ++ desc

/-- The field of one register or cluster; `accessorOffset` is the offset its
accessor records. -/
def elementField (doc name ty : String) (accessorOffset offset size : Nat) :
    RegisterBlockField where
  synField := ⟨name, .path ty⟩
  offset := offset
  size := size
  accessors := [(Accessor.reg ⟨doc, name, ty, accessorOffset⟩).rawIf false]
  accessors_ne := by simp

/-- An element of an array field, with the name its accessor gets its identifier from. -/
structure ArrayElement where
  name : String
  description : String
  offset : Nat

section Expansion

variable (crates : Crates) (config : Config)

/-- The part the branches for arrays of registers and of clusters share: one
field, `[ty; dim]` where the array is convertible and `()` where it is not.  The accessors
of the elements are identifiers of `kind`. -/
def arrayField (word : String) (kind : IdentKind) (name accessorName ty : String)
    (size offset : Nat) (description : String) (dim : DimElement) (convertible : Bool)
    (elements : List ArrayElement) : Gen RegisterBlockField := do
  let total ← mulU32 size dim.dim
  let doc ← makeComment total offset description
  let _capacity ← addU32 dim.dim 1
  let firstName ← unwrap (crates.names name dim).head?
  let firstIndex ← unwrap (crates.indexes dim).head?
  let note := if firstIndex ≠ "0" then
      some ("<div class=\"warning\">`n` is the index of " ++ word ++
        " in the array. `n == 0` corresponds to `" ++ firstName ++ "` " ++ word ++ ".</div>")
    else none
  let elems ← elements.zipIdx.mapM fun (element, i) => do
    let idxName ← ident crates config element.name kind
    let doc ← makeComment size element.offset element.description
    return (Accessor.arrayElem ⟨doc, idxName, ty, accessorName, i⟩).rawIf false
  return {
    synField := ⟨accessorName, if convertible then .array ty dim.dim else .unit⟩
    offset := offset
    size := if convertible then total else 0
    accessors :=
      (Accessor.array ⟨doc, accessorName, ty, offset, dim.dim, dim.dimIncrement, note⟩).rawIf
        (!convertible) :: elems
    accessors_ne := by simp }

/-- `indexes_as_range().filter(|r| *r.start() == 0).is_some()`. -/
def sequentialIndexesFrom0 (dim : DimElement) : Bool :=
  (crates.indexesAsRange dim).any (·.1 == 0)

/-- Whether the name of an array ends with its placeholder. -/
def endsWithIndex (name : String) : Bool := endsWith name "[%s]" || endsWith name "%s"

/-- `convert_list`: with `keep_list` only a name with `[%s]` becomes an array. -/
def convertList (name : String) : Bool :=
  if config.keepList then contains name "[%s]" else true

/-- The index a derived array takes its type name from. -/
def deriveIndex (dim : DimElement) : Gen String :=
  match dim.dimIndex with
  | some dimIndex => match dimIndex with
      | index :: _ => .ok index
      | [] => panicking "index out of bounds: the len is 0 but the index is 0"
  | none => if sequentialIndexesFrom0 crates dim then .ok "0" else .ok ""

/-- `dim_increment * BITS_PER_BYTE` of the two address tests of
`expand_register`; `||` leaves the product out where there is one element. -/
def comparedBits (dim : DimElement) : Gen Nat :=
  if dim.dim = 1 then pure 0 else mulU32 dim.dimIncrement bitsPerByte

/-- Whether `expand_register` expands the array and renames its type: it is
derived from a register of the same block and is not a `[%s]` array. -/
def renamesDerived (deriveInfo : DeriveInfo) (path : BlockPath) (infoName : String) : Bool :=
  match deriveInfo with
  | .implicit di | .explicit di => path = di.block && !contains infoName "[%s]"
  | _ => false

/-- The elements of an array of registers that get accessors of their own. -/
def registerElements (info : RegisterInfo) (dim : DimElement) : List ArrayElement :=
  if !sequentialIndexesFrom0 crates dim || !endsWithIndex info.name then
    (crates.registerExpand info dim).map fun ri =>
      ⟨fullname ri.name info.alternateGroup config.ignoreGroups, ri.description.getD ri.name,
        ri.addressOffset⟩
  else []

/-- The name of the accessor of a whole array: its `dimName`, behind the group, or the name
of its type. -/
def arrayAccessorName (info : RegisterInfo) (dim : DimElement) (tyName : String) : String :=
  match dim.dimName with
  | some dimName => fullname dimName info.alternateGroup config.ignoreGroups
  | none => tyName

/-- The end of `expand_register`: an array of registers once its type name and
the two tests are known. -/
def expandRegisterArray (info : RegisterInfo) (dim : DimElement) (size : Nat)
    (description tyName : String) (arrayConvertible arrayProxyConvertible : Bool) :
    Gen (List RegisterBlockField) := do
  let ty ← ident crates config tyName .register
  if arrayConvertible || arrayProxyConvertible then
    let accessorName ←
      ident crates config (arrayAccessorName config info dim tyName) .registerAccessor
    let field ← arrayField crates config "register" .registerAccessor info.name accessorName ty
      size info.addressOffset description dim arrayConvertible
      (registerElements crates config info dim)
    return [field]
  else
    (crates.registerExpand info dim).mapM fun ri => do
      let doc ← makeComment size info.addressOffset (ri.description.getD ri.name)
      let name ← ident crates config ri.name .registerAccessor
      return elementField doc name ty info.addressOffset ri.addressOffset size

/-- `expand_register`. -/
def expandRegister (register : Register) (path : BlockPath) (deriveInfo : DeriveInfo) :
    Gen (List RegisterBlockField) := do
  let registerSize ←
    okOr ("Register " ++ register.info.name ++ " has no `size` field") register.info.properties.size
  let description := register.info.description.getD ""
  let infoName := register.info.fullname config.ignoreGroups
  match register with
  | .single info =>
      let doc ← makeComment registerSize info.addressOffset description
      let ty ← ident crates config infoName .register
      let name ← ident crates config infoName .registerAccessor
      return [elementField doc name ty info.addressOffset info.addressOffset registerSize]
  | .array info dim =>
      let incrementBits ← comparedBits dim
      let sequentialAddresses := dim.dim == 1 || registerSize == incrementBits
      let disjointSequentialAddresses := dim.dim == 1 || decide (registerSize ≤ incrementBits)
      let index ← deriveIndex crates dim
      let renames := renamesDerived deriveInfo path infoName
      let tyName := if renames then expandDim infoName index else removeDim infoName
      let ac := !renames && convertList config infoName
      expandRegisterArray crates config info dim registerSize description tyName
        (ac && sequentialAddresses) (ac && disjointSequentialAddresses)

/-! The recursion over the clusters of a cluster. -/

mutual

/-- `cluster_size_in_bits`. -/
def clusterSizeInBits (cluster : MaybeArray (ClusterInfoOf RegisterCluster)) (path : BlockPath) :
    Gen Nat :=
  match cluster with
  | .single info => clusterInfoSizeInBits info path
  | .array info dim =>
      if dim.dim = 0 then return 0
      else do
        let lastElement ← mulU32 (dim.dim - 1) dim.dimIncrement
        let lastOffset ← mulU32 lastElement bitsPerByte
        let lastSize ← clusterInfoSizeInBits info path
        addU32 lastOffset lastSize

/-- `cluster_info_size_in_bits`. -/
def clusterInfoSizeInBits (info : ClusterInfoOf RegisterCluster) (path : BlockPath) : Gen Nat :=
  match info with
  | ⟨_, _, _, children, _⟩ => childrenSizeInBits children path 0

/-- The loop of `cluster_info_size_in_bits`. -/
def childrenSizeInBits (children : List RegisterCluster) (path : BlockPath) (size : Nat) :
    Gen Nat :=
  match children with
  | [] => return size
  | c :: rest => do
      let end_ ← childEnd c path
      childrenSizeInBits rest path (max size end_)

/-- One round of that loop: the end of a child. -/
def childEnd (c : RegisterCluster) (path : BlockPath) : Gen Nat :=
  match c with
  | .register reg => do
      let fields ← expandRegister crates config reg path .root
      let regSize ← fields.foldlM (fun sum rbf => addU32 sum rbf.size) 0
      let start ← mulU32 reg.info.addressOffset bitsPerByte
      addU32 start regSize
  | .cluster clust => do
      let start ← mulU32 clust.info.addressOffset bitsPerByte
      let clusterSize ← clusterSizeInBits clust path
      addU32 start clusterSize

end

/-- The elements of an array of clusters that get accessors of their own. -/
def clusterElements (info : ClusterInfo) (dim : DimElement) : List ArrayElement :=
  if !sequentialIndexesFrom0 crates dim || !endsWithIndex info.name then
    (crates.clusterExpand info dim).map fun ci =>
      ⟨ci.name, ci.description.getD ci.name, ci.addressOffset⟩
  else []

/-- The end of `expand_cluster`: an array of clusters of `size` bits each. -/
def expandClusterArray (info : ClusterInfo) (dim : DimElement) (size : Nat)
    (description ty : String) (arrayConvertible convert : Bool) :
    Gen (List RegisterBlockField) := do
  if convert then
    let accessorName ←
      ident crates config (dim.dimName.getD (removeDim info.name)) .clusterAccessor
    let field ← arrayField crates config "cluster" .clusterAccessor info.name accessorName ty
      size info.addressOffset description dim arrayConvertible (clusterElements crates info dim)
    return [field]
  else
    (crates.clusterExpand info dim).mapM fun ci => do
      let doc ← makeComment size ci.addressOffset (ci.description.getD ci.name)
      let name ← ident crates config ci.name .clusterAccessor
      return elementField doc name ty info.addressOffset ci.addressOffset size

/-- `ty_name` in `expand_cluster`. -/
def clusterTyName (cluster : Cluster) : String :=
  match cluster with
  | .single info => info.name
  | .array info _ => removeDim info.name

/-- `expand_cluster`. -/
def expandCluster (cluster : Cluster) (path : BlockPath) : Gen (List RegisterBlockField) := do
  let clusterSize ← withContext ("Can't calculate cluster " ++ cluster.info.name ++ " size")
    (clusterInfoSizeInBits crates config cluster.info path)
  let description := cluster.info.description.getD cluster.info.name
  let ty ← ident crates config (clusterTyName cluster) .cluster
  match cluster with
  | .single info =>
      let doc ← makeComment clusterSize info.addressOffset description
      let name ← ident crates config info.name .clusterAccessor
      return [elementField doc name ty info.addressOffset info.addressOffset clusterSize]
  | .array info dim =>
      let incrementBits ← mulU32 dim.dimIncrement bitsPerByte
      if clusterSize > incrementBits then
        bail s!"Cluster {info.name} has size {clusterSize} bits that is more then array increment {incrementBits} bits"
      else
        let clusterSize := if config.maxClusterSize then incrementBits else clusterSize
        let sequentialAddresses := dim.dim == 1 || clusterSize == incrementBits
        let convert := convertList config info.name
        expandClusterArray crates config info dim clusterSize description ty
          (sequentialAddresses && convert) convert

/-- One round of the loop of `expand`. -/
def expandErc (erc : RegisterCluster) (deriveInfo : DeriveInfo) (path : BlockPath) :
    Gen (List RegisterBlockField) :=
  match erc with
  | .register register =>
      withContext ("can't expand register '" ++ register.info.name ++ "'")
        (expandRegister crates config register path deriveInfo)
  | .cluster cluster =>
      withContext ("can't expand cluster '" ++ cluster.info.name ++ "'")
        (expandCluster crates config cluster path)

/-- `expand`. -/
def expand (ercs : List RegisterCluster) (path : BlockPath) (deriveInfos : List DeriveInfo) :
    Gen (List RegisterBlockField) := do
  let expanded ← (ercs.zip deriveInfos).mapM fun (erc, deriveInfo) =>
    expandErc crates config erc deriveInfo path
  return FieldRegions.sortByOffset expanded.flatten

end Expansion

end Svd2Rust
