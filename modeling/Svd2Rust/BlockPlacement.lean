import Svd2Rust.BlockExpansion

/-!
# Where an expansion puts its fields

`Placement` is the choice the expansion functions make: a single field, an
inline Rust array, a field of type `()` whose elements only raw pointers reach,
or one field for each element.  It is a function of the register or cluster, the
configuration and the derive info, and together with the address offset and the
size it determines the `Footprint`s of the fields.
-/

namespace Svd2Rust

/-- How the fields of one register or cluster are placed. -/
inductive Placement where
  | single
  | rustArray (dim : DimElement)
  | proxy (dim : DimElement)
  | list (dim : DimElement)

def Placement.dim : Placement → Option DimElement
  | .single => none
  | .rustArray dim | .proxy dim | .list dim => some dim

/-- The bits one field takes, in a block.  `shift` says how far the element lies
behind the offset its accessor records. -/
structure Footprint where
  start : Nat
  bits : Nat
  shift : Nat
deriving DecidableEq, Repr

def Footprint.end_ (p : Footprint) : Nat := p.start + bytesOfBits p.bits

/-- The footprints of a placed register or cluster. -/
def Placement.footprints (offset size : Nat) : Placement → List Footprint
  | .single => [⟨offset, size, 0⟩]
  | .rustArray dim => [⟨offset, size * dim.dim, 0⟩]
  | .proxy _ => [⟨offset, 0, 0⟩]
  | .list dim => (List.range dim.dim).map fun i =>
      ⟨offset + i * dim.dimIncrement, size, i * dim.dimIncrement⟩

/-- The bits the fields have together. -/
def Placement.bits (size : Nat) (placement : Placement) : Nat :=
  ((placement.footprints 0 size).map (·.bits)).sum

def AccessType.offset (a : AccessType) : Nat :=
  match a.accessor with
  | .reg a => a.offset
  | .array a => a.offset
  | .arrayElem _ => 0

def RegisterBlockField.accessor (rbf : RegisterBlockField) : AccessType :=
  rbf.accessors.head rbf.accessors_ne

/-- What a field of the struct takes. -/
def RegisterBlockField.footprint (rbf : RegisterBlockField) : Footprint :=
  ⟨rbf.offset, rbf.size, rbf.offset - rbf.accessor.offset⟩

/-- The single field of an array: its type, bits and accessors.  All accessors
behind the first call it with a constant index; `names` are their names. -/
structure IsArrayField (ty : String) (names : List String) (offset size : Nat) (dim : DimElement)
    (convertible : Bool) (rbf : RegisterBlockField) : Prop where
  dim_pos : 0 < dim.dim
  offset_eq : rbf.offset = offset
  size_eq : rbf.size = if convertible then size * dim.dim else 0
  ty_eq : rbf.synField.ty = if convertible then .array ty dim.dim else .unit
  accessors_eq : ∃ doc note elems,
    rbf.accessors = (Accessor.array ⟨doc, rbf.synField.ident, ty, offset, dim.dim,
        dim.dimIncrement, note⟩).rawIf (!convertible) :: elems ∧
      ∀ i a, elems[i]? = some a → i < dim.dim ∧ ∃ doc name, names[i]? = some name ∧
        a = .ref (.arrayElem ⟨doc, name, ty, rbf.synField.ident, i⟩)

/-- The fields of a register or cluster at `offset` whose elements have type
`ty` and `size` bits; `names` are those of the element accessors of an array. -/
inductive Placed (ty : String) (names : List String) (offset size : Nat) :
    Placement → List RegisterBlockField → Prop
  | single (doc name : String) :
      Placed ty names offset size .single [elementField doc name ty offset offset size]
  | rustArray {dim : DimElement} {rbf : RegisterBlockField}
      (h : IsArrayField ty names offset size dim true rbf) :
      Placed ty names offset size (.rustArray dim) [rbf]
  | proxy {dim : DimElement} {rbf : RegisterBlockField}
      (h : IsArrayField ty names offset size dim false rbf) :
      Placed ty names offset size (.proxy dim) [rbf]
  | list {dim : DimElement} {rbfs : List RegisterBlockField}
      (h : List.Forall₂ (fun i rbf => ∃ doc name, rbf =
        elementField doc name ty offset (offset + i * dim.dimIncrement) size)
        (List.range dim.dim) rbfs) :
      Placed ty names offset size (.list dim) rbfs

@[simp] theorem elementField_footprint (doc name ty : String) (accessorOffset offset size : Nat) :
    (elementField doc name ty accessorOffset offset size).footprint =
      ⟨offset, size, offset - accessorOffset⟩ := rfl

theorem IsArrayField.footprint_eq {ty : String} {names : List String} {offset size : Nat}
    {dim : DimElement} {convertible : Bool} {rbf : RegisterBlockField}
    (h : IsArrayField ty names offset size dim convertible rbf) :
    rbf.footprint = ⟨offset, if convertible then size * dim.dim else 0, 0⟩ := by
  obtain ⟨doc, note, elems, hacc, -⟩ := h.accessors_eq
  have hoffset : rbf.accessor.offset = offset := by
    unfold RegisterBlockField.accessor
    simp only [hacc, List.head_cons]
    cases convertible <;> rfl
  unfold RegisterBlockField.footprint
  rw [hoffset, h.offset_eq, h.size_eq, Nat.sub_self]

/-- **Placement determines the footprints.**  A list takes the increments one after the other,
all other placements are one stretch from the offset on. -/
theorem Placed.footprints_eq {ty : String} {names : List String} {offset size : Nat}
    {placement : Placement} {rbfs : List RegisterBlockField}
    (h : Placed ty names offset size placement rbfs) :
    rbfs.map (·.footprint) = placement.footprints offset size := by
  cases h with
  | single => simp [Placement.footprints]
  | rustArray h => simp [Placement.footprints, h.footprint_eq]
  | proxy h => simp [Placement.footprints, h.footprint_eq]
  | @list dim _ h =>
      simp only [Placement.footprints]
      generalize List.range dim.dim = is at h
      induction h with
      | nil => rfl
      | cons hfield _ ih =>
          obtain ⟨doc, name, rfl⟩ := hfield
          simp [ih]

/-- The bits of all fields together do not depend on where they are. -/
theorem Placed.sum_size {ty : String} {names : List String} {offset size : Nat}
    {placement : Placement} {rbfs : List RegisterBlockField}
    (h : Placed ty names offset size placement rbfs) :
    (rbfs.map (·.size)).sum = placement.bits size := by
  have hbits : rbfs.map (·.size) = (placement.footprints offset size).map (·.bits) := by
    rw [← h.footprints_eq, List.map_map]
    rfl
  rw [hbits, Placement.bits]
  cases placement <;> simp [Placement.footprints, Function.comp_def]

section Placements

variable (crates : Crates) (config : Config)

/-- How `expand_register` places a register. -/
def registerPlacement (register : Register) (path : BlockPath) (deriveInfo : DeriveInfo) :
    Placement :=
  match register with
  | .single _ => .single
  | .array info dim =>
      let size := info.properties.size.getD 0
      let infoName := info.fullname config.ignoreGroups
      if renamesDerived deriveInfo path infoName || !convertList config infoName then .list dim
      else if dim.dim = 1 ∨ size = dim.dimIncrement * bitsPerByte then .rustArray dim
      else if size ≤ dim.dimIncrement * bitsPerByte then .proxy dim
      else .list dim

/-- The names of the accessors an array of registers gives its elements. -/
def registerElementNames : Register → List String
  | .single _ => []
  | .array info dim => (registerElements crates config info dim).map fun element =>
      identText crates config element.name .registerAccessor

/-- The names of the accessors an array of clusters gives its elements. -/
def clusterElementNames : Cluster → List String
  | .single _ => []
  | .array info dim => (clusterElements crates info dim).map fun element =>
      identText crates config element.name .clusterAccessor

/-- The index in the type name of a derived array. -/
def derivedIndex (dim : DimElement) : String :=
  match dim.dimIndex with
  | some dimIndex => dimIndex.head?.getD ""
  | none => if sequentialIndexesFrom0 crates dim then "0" else ""

/-- The name whose identifier is the type of a register in its block. -/
def registerTyName (register : Register) (path : BlockPath) (deriveInfo : DeriveInfo) : String :=
  let infoName := register.info.fullname config.ignoreGroups
  match register with
  | .single _ => infoName
  | .array _ dim =>
      if renamesDerived deriveInfo path infoName then expandDim infoName (derivedIndex crates dim)
      else removeDim infoName

mutual

/-- The bits from the start of a cluster to the end of its last element. -/
def clusterBits (cluster : MaybeArray (ClusterInfoOf RegisterCluster)) (path : BlockPath) : Nat :=
  match cluster with
  | .single info => clusterInfoBits info path
  | .array info dim =>
      if dim.dim = 0 then 0
      else (dim.dim - 1) * dim.dimIncrement * bitsPerByte + clusterInfoBits info path

/-- The bits from the start of a cluster to the end of its last child. -/
def clusterInfoBits (info : ClusterInfoOf RegisterCluster) (path : BlockPath) : Nat :=
  match info with
  | ⟨_, _, _, children, _⟩ => childrenBits children path

def childrenBits (children : List RegisterCluster) (path : BlockPath) : Nat :=
  match children with
  | [] => 0
  | c :: rest => max (childBits c path) (childrenBits rest path)

def childBits (c : RegisterCluster) (path : BlockPath) : Nat :=
  match c with
  | .register reg => reg.info.addressOffset * bitsPerByte +
      (registerPlacement config reg path .root).bits (reg.info.properties.size.getD 0)
  | .cluster clust => clust.info.addressOffset * bitsPerByte + clusterBits clust path

end

/-- The bits `expand_cluster` gives one element of a cluster. -/
def clusterElementBits (cluster : Cluster) (path : BlockPath) : Nat :=
  match cluster with
  | .single info => clusterInfoBits config info path
  | .array info dim =>
      if config.maxClusterSize then dim.dimIncrement * bitsPerByte
      else clusterInfoBits config info path

/-- How `expand_cluster` places a cluster. -/
def clusterPlacement (cluster : Cluster) (path : BlockPath) : Placement :=
  match cluster with
  | .single _ => .single
  | .array info dim =>
      if !convertList config info.name then .list dim
      else if dim.dim = 1 ∨
          clusterElementBits config cluster path = dim.dimIncrement * bitsPerByte then
        .rustArray dim
      else .proxy dim

theorem registerPlacement_dim (register : Register) (path : BlockPath) (deriveInfo : DeriveInfo) :
    (registerPlacement config register path deriveInfo).dim = register.dim := by
  cases register with
  | single info => rfl
  | array info dim =>
      simp only [registerPlacement]
      split_ifs <;> rfl

theorem clusterPlacement_dim (cluster : Cluster) (path : BlockPath) :
    (clusterPlacement config cluster path).dim = cluster.dim := by
  cases cluster with
  | single info => rfl
  | array info dim =>
      simp only [clusterPlacement]
      split_ifs <;> rfl

/-- The footprints of one register or cluster of a block. -/
def ercFootprints (erc : RegisterCluster) (deriveInfo : DeriveInfo) (path : BlockPath) :
    List Footprint :=
  match erc with
  | .register reg => (registerPlacement config reg path deriveInfo).footprints
      reg.info.addressOffset (reg.info.properties.size.getD 0)
  | .cluster clust => (clusterPlacement config clust path).footprints
      clust.info.addressOffset (clusterElementBits config clust path)

/-- The footprints of a block. -/
def blockFootprints (ercs : List RegisterCluster) (path : BlockPath)
    (deriveInfos : List DeriveInfo) : List Footprint :=
  (ercs.zip deriveInfos).flatMap fun (erc, deriveInfo) => ercFootprints config erc deriveInfo path

end Placements

/-! ## Expansions are placed as the inputs say -/

section Expanded

variable {crates : Crates} {config : Config}

/-- Results of a loop over a list whose elements are those of `is` in another
shape. -/
theorem forall₂_of_map_eq {α β γ ι : Type} {g : α → γ} {h : ι → γ} {r : α → β → Prop}
    {as : List α} {bs : List β} {is : List ι} (hr : List.Forall₂ r as bs)
    (hmap : as.map g = is.map h) :
    List.Forall₂ (fun i b => ∃ a, g a = h i ∧ r a b) is bs := by
  induction hr generalizing is with
  | nil =>
      cases is with
      | nil => exact .nil
      | cons i is => simp at hmap
  | cons hab _ ih =>
      cases is with
      | nil => simp at hmap
      | cons i is =>
          simp only [List.map_cons, List.cons.injEq] at hmap
          exact .cons ⟨_, hmap.1, hab⟩ (ih hmap.2)

/-- A successful `arrayField` builds an array field. -/
theorem arrayField_ok {word name accessorName ty description : String} {kind : IdentKind}
    {size offset : Nat} {dim : DimElement} {convertible : Bool} {elements : List ArrayElement}
    {rbf : RegisterBlockField} (hlen : elements.length ≤ dim.dim)
    (h : arrayField crates config word kind name accessorName ty size offset description dim
      convertible elements = .ok rbf) :
    IsArrayField ty (elements.map fun element => identText crates config element.name kind)
      offset size dim convertible rbf := by
  unfold arrayField at h
  simp only [gen_bind_ok, gen_pure_ok] at h
  obtain ⟨total, htotal, doc, -, _, -, firstName, hfirst, firstIndex, -, elems, helems, rfl⟩ := h
  obtain ⟨-, rfl⟩ := mulU32_ok.mp htotal
  have hpos : 0 < dim.dim := by
    rw [← crates.names_length name dim]
    exact List.length_pos_of_mem (List.mem_of_head? (unwrap_ok.mp hfirst))
  refine ⟨hpos, rfl, rfl, rfl, doc, _, elems, rfl, ?_⟩
  intro i a ha
  have hrel := gen_mapM_ok.mp helems
  obtain ⟨hi, rfl⟩ := List.getElem?_eq_some_iff.mp ha
  have hlength := hrel.length_eq
  rw [List.length_zipIdx] at hlength
  have helem := hrel.get (by rw [List.length_zipIdx]; omega) hi
  simp only [List.get_eq_getElem, List.getElem_zipIdx, Nat.zero_add] at helem
  obtain ⟨idxName, hname, helem⟩ := gen_bind_ok.mp helem
  obtain ⟨doc, -, hacc⟩ := gen_bind_ok.mp helem
  have hielem : i < elements.length := by omega
  exact ⟨by omega, doc, idxName, by simp [hielem, ident_text hname], (gen_pure_ok.mp hacc).symm⟩

theorem deriveIndex_ok {dim : DimElement} {index : String}
    (h : deriveIndex crates dim = .ok index) : index = derivedIndex crates dim := by
  unfold deriveIndex at h
  unfold derivedIndex
  cases hdim : dim.dimIndex with
  | none =>
      rw [hdim] at h
      cases hseq : sequentialIndexesFrom0 crates dim <;> simp_all
  | some dimIndex =>
      rw [hdim] at h
      cases dimIndex with
      | nil => simp at h
      | cons first rest =>
          simp only [Except.ok.injEq] at h
          simp [h]

theorem comparedBits_ok {dim : DimElement} {bits : Nat} (h : comparedBits dim = .ok bits) :
    dim.dim = 1 ∨ bits = dim.dimIncrement * bitsPerByte := by
  unfold comparedBits at h
  by_cases hone : dim.dim = 1
  · exact .inl hone
  · rw [if_neg hone] at h
    exact .inr (mulU32_ok.mp h).2.symm

/-- One field for each element gives a list. -/
theorem elementFields_placed {α : Type} {elements : List α} {offsetOf : α → Nat}
    {docOf nameOf : α → Gen String} {ty : String} {names : List String}
    {offset size : Nat} {dim : DimElement} {rbfs : List RegisterBlockField}
    (hoffsets : elements.map offsetOf =
      (List.range dim.dim).map fun i => offset + i * dim.dimIncrement)
    (h : elements.mapM (fun e => do
      let doc ← docOf e
      let name ← nameOf e
      return elementField doc name ty offset (offsetOf e) size) = .ok rbfs) :
    Placed ty names offset size (.list dim) rbfs := by
  have hfields := forall₂_of_map_eq (gen_mapM_ok.mp h) hoffsets
  refine .list (hfields.imp ?_)
  intro i rbf h
  obtain ⟨e, he, hrbf⟩ := h
  obtain ⟨doc, -, hrbf⟩ := gen_bind_ok.mp hrbf
  obtain ⟨name, -, hrbf⟩ := gen_bind_ok.mp hrbf
  rw [he] at hrbf
  exact ⟨doc, name, (gen_pure_ok.mp hrbf).symm⟩

theorem registerElements_length (info : RegisterInfo) (dim : DimElement) :
    (registerElements crates config info dim).length ≤ dim.dim := by
  have h : (crates.registerExpand info dim).length = dim.dim := by
    simpa using congrArg List.length (crates.registerExpand_offsets info dim)
  unfold registerElements
  split <;> simp [h]

theorem clusterElements_length (info : ClusterInfo) (dim : DimElement) :
    (clusterElements crates info dim).length ≤ dim.dim := by
  have h : (crates.clusterExpand info dim).length = dim.dim := by
    simpa using congrArg List.length (crates.clusterExpand_offsets info dim)
  unfold clusterElements
  split <;> simp [h]

/-- The two tests decide how an array of registers is placed. -/
theorem expandRegisterArray_placed {info : RegisterInfo} {dim : DimElement} {size : Nat}
    {description tyName : String} {convertible proxyConvertible : Bool}
    {rbfs : List RegisterBlockField}
    (h : expandRegisterArray crates config info dim size description tyName convertible
      proxyConvertible = .ok rbfs) :
    Placed (identText crates config tyName .register)
      (registerElementNames crates config (.array info dim)) info.addressOffset size
      (if convertible then .rustArray dim else if proxyConvertible then .proxy dim else .list dim)
      rbfs := by
  unfold expandRegisterArray at h
  obtain ⟨-, h⟩ := ident_bind_ok.mp h
  by_cases harray : (convertible || proxyConvertible) = true
  · rw [if_pos harray] at h
    obtain ⟨accessorName, -, h⟩ := gen_bind_ok.mp h
    obtain ⟨rbf, hrbf, h⟩ := gen_bind_ok.mp h
    rw [← gen_pure_ok.mp h]
    have hfield := arrayField_ok (registerElements_length info dim) hrbf
    cases convertible with
    | true => exact .rustArray hfield
    | false =>
        rw [Bool.false_or] at harray
        subst harray
        exact .proxy hfield
  · rw [if_neg harray] at h
    rw [Bool.or_eq_true, not_or] at harray
    rw [if_neg harray.1, if_neg harray.2]
    exact elementFields_placed (crates.registerExpand_offsets info dim) h

/-- The two tests of `expand_register`, on the product the source compares with. -/
theorem registerPlacement_array {info : RegisterInfo} {dim : DimElement} {path : BlockPath}
    {deriveInfo : DeriveInfo} {size bits : Nat} (hsize : info.properties.size = some size)
    (hbits : dim.dim = 1 ∨ bits = dim.dimIncrement * bitsPerByte) :
    registerPlacement config (.array info dim) path deriveInfo =
      let infoName := info.fullname config.ignoreGroups
      let ac := !renamesDerived deriveInfo path infoName && convertList config infoName
      if ac && (dim.dim == 1 || size == bits) then .rustArray dim
      else if ac && (dim.dim == 1 || decide (size ≤ bits)) then .proxy dim
      else .list dim := by
  have hseq : (dim.dim == 1 || size == bits) = true ↔
      dim.dim = 1 ∨ size = dim.dimIncrement * bitsPerByte := by
    rcases hbits with hone | rfl <;> simp_all
  have hdisjoint : (dim.dim == 1 || decide (size ≤ bits)) = true ↔
      dim.dim = 1 ∨ size ≤ dim.dimIncrement * bitsPerByte := by
    rcases hbits with hone | rfl <;> simp_all
  unfold registerPlacement
  simp only [hsize, Option.getD_some, Bool.and_eq_true, hseq, hdisjoint]
  cases renamesDerived deriveInfo path (info.fullname config.ignoreGroups) <;>
    cases convertList config (info.fullname config.ignoreGroups) <;> simp
  split <;> simp_all

/-- The two tests of `expand_register` say how an array of registers is placed. -/
theorem expandRegister_array_ok {info : RegisterInfo} {dim : DimElement} {path : BlockPath}
    {deriveInfo : DeriveInfo} {rbfs : List RegisterBlockField}
    (h : expandRegister crates config (.array info dim) path deriveInfo = .ok rbfs) :
    ∃ (size : Nat) (convertible proxyConvertible : Bool), info.properties.size = some size ∧
      registerPlacement config (.array info dim) path deriveInfo =
        (if convertible then .rustArray dim else if proxyConvertible then .proxy dim
          else .list dim) ∧
      expandRegisterArray crates config info dim size (info.description.getD "")
        (registerTyName crates config (.array info dim) path deriveInfo) convertible
        proxyConvertible = .ok rbfs := by
  unfold expandRegister at h
  obtain ⟨size, hsize, h⟩ := gen_bind_ok.mp h
  obtain ⟨bits, hbits, h⟩ := gen_bind_ok.mp h
  obtain ⟨index, hindex, h⟩ := gen_bind_ok.mp h
  have hsize := okOr_ok.mp hsize
  rw [deriveIndex_ok hindex] at h
  exact ⟨size, _, _, hsize, registerPlacement_array hsize (comparedBits_ok hbits), h⟩

/-- **Registers.**  A successful `expand_register` places the register by its
size, its name and the derive info. -/
theorem expandRegister_placed {register : Register} {path : BlockPath} {deriveInfo : DeriveInfo}
    {rbfs : List RegisterBlockField}
    (h : expandRegister crates config register path deriveInfo = .ok rbfs) :
    ∃ size, register.info.properties.size = some size ∧
      Placed (identText crates config (registerTyName crates config register path deriveInfo)
        .register) (registerElementNames crates config register) register.info.addressOffset size
        (registerPlacement config register path deriveInfo) rbfs := by
  cases register with
  | single info =>
      unfold expandRegister at h
      obtain ⟨size, hsize, h⟩ := gen_bind_ok.mp h
      obtain ⟨doc, -, h⟩ := gen_bind_ok.mp h
      obtain ⟨ty, hty, h⟩ := gen_bind_ok.mp h
      obtain ⟨name, -, h⟩ := gen_bind_ok.mp h
      obtain rfl := ident_text hty
      rw [← gen_pure_ok.mp h]
      exact ⟨size, okOr_ok.mp hsize, .single doc name⟩
  | array info dim =>
      obtain ⟨size, convertible, proxyConvertible, hsize, hplacement, h⟩ :=
        expandRegister_array_ok h
      rw [hplacement]
      exact ⟨size, hsize, expandRegisterArray_placed h⟩

/-- The fields of a register have the bits its placement gives them. -/
theorem expandRegister_sum {register : Register} {path : BlockPath} {deriveInfo : DeriveInfo}
    {rbfs : List RegisterBlockField}
    (h : expandRegister crates config register path deriveInfo = .ok rbfs) :
    (rbfs.map (·.size)).sum = (registerPlacement config register path deriveInfo).bits
      (register.info.properties.size.getD 0) := by
  obtain ⟨size, hsize, hplaced⟩ := expandRegister_placed h
  rw [hplaced.sum_size, hsize, Option.getD_some]

theorem sumU32_ok {rbfs : List RegisterBlockField} {start sum : Nat}
    (h : rbfs.foldlM (fun sum rbf => addU32 sum rbf.size) start = .ok sum) :
    sum = start + (rbfs.map (·.size)).sum := by
  induction rbfs generalizing start with
  | nil => simpa using (gen_pure_ok.mp h).symm
  | cons rbf rest ih =>
      rw [List.foldlM_cons] at h
      obtain ⟨next, hnext, h⟩ := gen_bind_ok.mp h
      rw [ih h, ← (addU32_ok.mp hnext).2, List.map_cons, List.sum_cons]
      omega

/-! The checked recursion computes the extents, if it returns. -/

mutual

theorem clusterSizeInBits_ok {cluster : MaybeArray (ClusterInfoOf RegisterCluster)}
    {path : BlockPath} {bits : Nat} (h : clusterSizeInBits crates config cluster path = .ok bits) :
    bits = clusterBits config cluster path := by
  match cluster with
  | .single info =>
      rw [clusterSizeInBits] at h
      rw [clusterBits]
      exact clusterInfoSizeInBits_ok h
  | .array info dim =>
      rw [clusterSizeInBits] at h
      rw [clusterBits]
      by_cases hzero : dim.dim = 0
      · rw [if_pos hzero] at h ⊢
        exact (gen_pure_ok.mp h).symm
      · rw [if_neg hzero] at h ⊢
        obtain ⟨lastElement, hlast, h⟩ := gen_bind_ok.mp h
        obtain ⟨lastOffset, hoffset, h⟩ := gen_bind_ok.mp h
        obtain ⟨lastSize, hsize, h⟩ := gen_bind_ok.mp h
        rw [← (addU32_ok.mp h).2, ← (mulU32_ok.mp hoffset).2, ← (mulU32_ok.mp hlast).2,
          clusterInfoSizeInBits_ok hsize]

theorem clusterInfoSizeInBits_ok {info : ClusterInfoOf RegisterCluster} {path : BlockPath}
    {bits : Nat} (h : clusterInfoSizeInBits crates config info path = .ok bits) :
    bits = clusterInfoBits config info path := by
  match info with
  | ⟨_, _, _, children, _⟩ =>
      rw [clusterInfoSizeInBits] at h
      rw [clusterInfoBits, childrenSizeInBits_ok h, Nat.zero_max]

theorem childrenSizeInBits_ok {children : List RegisterCluster} {path : BlockPath}
    {size bits : Nat} (h : childrenSizeInBits crates config children path size = .ok bits) :
    bits = max size (childrenBits config children path) := by
  match children with
  | [] =>
      rw [childrenSizeInBits] at h
      rw [childrenBits, Nat.max_zero]
      exact (gen_pure_ok.mp h).symm
  | c :: rest =>
      rw [childrenSizeInBits] at h
      obtain ⟨end_, hend, h⟩ := gen_bind_ok.mp h
      rw [childrenBits, childrenSizeInBits_ok h, childEnd_ok hend, Nat.max_assoc]

theorem childEnd_ok {c : RegisterCluster} {path : BlockPath} {bits : Nat}
    (h : childEnd crates config c path = .ok bits) : bits = childBits config c path := by
  match c with
  | .register reg =>
      rw [childEnd] at h
      obtain ⟨fields, hfields, h⟩ := gen_bind_ok.mp h
      obtain ⟨sum, hsum, h⟩ := gen_bind_ok.mp h
      obtain ⟨start, hstart, h⟩ := gen_bind_ok.mp h
      rw [childBits, ← (addU32_ok.mp h).2, ← (mulU32_ok.mp hstart).2, sumU32_ok hsum,
        expandRegister_sum hfields, Nat.zero_add]
  | .cluster clust =>
      rw [childEnd] at h
      obtain ⟨start, hstart, h⟩ := gen_bind_ok.mp h
      obtain ⟨size, hsize, h⟩ := gen_bind_ok.mp h
      rw [childBits, ← (addU32_ok.mp h).2, ← (mulU32_ok.mp hstart).2, clusterSizeInBits_ok hsize]

end

/-- `convert` and the test decide how an array of clusters is placed. -/
theorem expandClusterArray_placed {info : ClusterInfo} {dim : DimElement} {size : Nat}
    {description ty : String} {convertible convert : Bool} {rbfs : List RegisterBlockField}
    (h : expandClusterArray crates config info dim size description ty convertible convert =
      .ok rbfs) :
    Placed ty (clusterElementNames crates config (.array info dim)) info.addressOffset size
      (if convert then if convertible then .rustArray dim else .proxy dim else .list dim)
      rbfs := by
  unfold expandClusterArray at h
  cases convert with
  | true =>
      obtain ⟨accessorName, -, h⟩ := gen_bind_ok.mp h
      obtain ⟨rbf, hrbf, h⟩ := gen_bind_ok.mp h
      rw [← gen_pure_ok.mp h]
      have hfield := arrayField_ok (clusterElements_length info dim) hrbf
      cases convertible with
      | true => exact .rustArray hfield
      | false => exact .proxy hfield
  | false => exact elementFields_placed (crates.clusterExpand_offsets info dim) h

/-- The test of `expand_cluster`. -/
theorem clusterPlacement_array (info : ClusterInfo) (dim : DimElement) (path : BlockPath) :
    clusterPlacement config (.array info dim) path =
      if convertList config info.name then
        if (dim.dim == 1 || clusterElementBits config (.array info dim) path ==
          dim.dimIncrement * bitsPerByte) && convertList config info.name
        then .rustArray dim else .proxy dim
      else .list dim := by
  unfold clusterPlacement
  cases hconvert : convertList config info.name <;> simp [hconvert]

/-- **Clusters.**  A successful `expand_cluster` places the cluster by its
extent, its name and the configuration. -/
theorem expandCluster_placed {cluster : Cluster} {path : BlockPath}
    {rbfs : List RegisterBlockField} (h : expandCluster crates config cluster path = .ok rbfs) :
    ∃ ty, Placed ty (clusterElementNames crates config cluster) cluster.info.addressOffset
      (clusterElementBits config cluster path) (clusterPlacement config cluster path) rbfs := by
  unfold expandCluster at h
  obtain ⟨size, hsize, h⟩ := gen_bind_ok.mp h
  have hsize := clusterInfoSizeInBits_ok (withContext_ok.mp hsize)
  subst hsize
  obtain ⟨ty, -, h⟩ := gen_bind_ok.mp h
  cases cluster with
  | single info =>
      obtain ⟨doc, -, h⟩ := gen_bind_ok.mp h
      obtain ⟨name, -, h⟩ := gen_bind_ok.mp h
      rw [← gen_pure_ok.mp h]
      exact ⟨ty, .single doc name⟩
  | array info dim =>
      obtain ⟨bits, hbits, h⟩ := gen_bind_ok.mp h
      obtain ⟨-, rfl⟩ := mulU32_ok.mp hbits
      rw [MaybeArray.info_array] at h
      by_cases hbig : clusterInfoBits config info path > dim.dimIncrement * bitsPerByte
      · rw [if_pos hbig] at h
        exact (bail_ok.mp h).elim
      · rw [if_neg hbig] at h
        rw [clusterPlacement_array]
        exact ⟨ty, expandClusterArray_placed h⟩

theorem expandErc_footprints {erc : RegisterCluster} {deriveInfo : DeriveInfo} {path : BlockPath}
    {rbfs : List RegisterBlockField}
    (h : expandErc crates config erc deriveInfo path = .ok rbfs) :
    rbfs.map (·.footprint) = ercFootprints config erc deriveInfo path := by
  cases erc with
  | register reg =>
      obtain ⟨size, hsize, hplaced⟩ := expandRegister_placed (withContext_ok.mp h)
      rw [hplaced.footprints_eq, ercFootprints, hsize, Option.getD_some]
  | cluster clust =>
      obtain ⟨ty, hplaced⟩ := expandCluster_placed (withContext_ok.mp h)
      rw [hplaced.footprints_eq, ercFootprints]

/-- **Blocks.**  The fields of a successful `expand` take the footprints of the
block, in the order of their offsets. -/
theorem expand_footprints {ercs : List RegisterCluster} {path : BlockPath}
    {deriveInfos : List DeriveInfo} {rbfs : List RegisterBlockField}
    (h : expand crates config ercs path deriveInfos = .ok rbfs) :
    (rbfs.map (·.footprint)).Perm (blockFootprints config ercs path deriveInfos) := by
  unfold expand at h
  obtain ⟨expanded, hexpanded, h⟩ := gen_bind_ok.mp h
  rw [← gen_pure_ok.mp h]
  have hmap : expanded.flatten.map (·.footprint) =
      blockFootprints config ercs path deriveInfos := by
    unfold blockFootprints
    have hrel := gen_mapM_ok.mp hexpanded
    generalize ercs.zip deriveInfos = zipped at hrel
    clear hexpanded h
    induction hrel with
    | nil => rfl
    | cons hab _ ih =>
        rw [List.flatten_cons, List.map_append, List.flatMap_cons, expandErc_footprints hab, ih]
  rw [← hmap]
  exact (List.perm_insertionSort _ _).map _

end Expanded

end Svd2Rust
