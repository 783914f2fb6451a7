import Svd2Rust.AsciiCrates
import Svd2Rust.BlockPlacement
import Svd2Rust.FatalErrors

/-!
# Where the expansion of a block panics

Sizes are carried in bits, in `u32`, an array without elements has neither a
first name nor a first index, and a name may have characters that no identifier
has.  `expand` and the size computation of clusters panic where a product or a sum
leaves `u32`, at the `unwrap`s and the index expression that need a first element,
and where `Ident::new` refuses the text of a name.

`BlockFits` says of the description alone when that does not happen, in exact
integers and about the names whose identifiers are made, and `expansionTotal_iff`
that it is the condition.  The recursion is the one of the source: an error it
reports hides everything behind it, so a child counts as long as the children in
front of it are `ChildSized`.
-/

namespace Svd2Rust

open FatalErrors

def Fault.IsPanic : Fault → Prop
  | .panic _ => True
  | .bail _ => False

/-- The computation does not panic. -/
abbrev NoPanic {α : Type} (x : Gen α) : Prop := NoFatal Fault.IsPanic x

/-- When a computation of the generator does not panic, and when it returns. -/
abbrev GenEnds {α : Type} (fits sound : Prop) (x : Gen α) : Prop :=
  Ends Fault.IsPanic fits sound x

theorem ends_bail {α : Type} (message : String) : GenEnds True False (bail message : Gen α) :=
  Ends.reported id

theorem ends_panicking {α : Type} (reason : String) :
    GenEnds False True (panicking reason : Gen α) :=
  Ends.stopped trivial

theorem ends_addU32 (a b : Nat) : GenEnds (a + b ≤ u32Max) True (addU32 a b) :=
  Ends.checked (a + b) trivial

theorem ends_mulU32 (a b : Nat) : GenEnds (a * b ≤ u32Max) True (mulU32 a b) :=
  Ends.checked (a * b) trivial

theorem ends_unwrap {α : Type} (x : Option α) : GenEnds x.isSome True (unwrap x) := by
  cases x with
  | none => exact (ends_panicking _).congr (by simp) (by simp)
  | some a => exact (Ends.ok a).congr (by simp) (by simp)

theorem ends_ident (crates : Crates) (config : Config) (name : String) (kind : IdentKind) :
    GenEnds (isIdent crates (identText crates config name kind) = true) True
      (ident crates config name kind) :=
  Ends.checked (identText crates config name kind) trivial

theorem ends_withContext {α : Type} {fits sound : Prop} {x : Gen α} (context : String)
    (h : GenEnds fits sound x) : GenEnds fits sound (withContext context x) where
  noFatal := by
    rw [← h.noFatal]
    rcases x with (reason | chain) | a <;> simp [NoFatal, withContext, Fault.IsPanic]
  returns := by simpa only [withContext_ok] using h.returns

/-! ## What the description has to fit -/

/-- The comment of a field of more than 32 bits names the end of its bytes. -/
def CommentFits (size offset : Nat) : Prop := size > 32 → offset + size / 8 ≤ u32Max

/-- The offsets of the elements of an array. -/
def DimElement.offsets (dim : DimElement) (offset : Nat) : List Nat :=
  (List.range dim.dim).map fun i => offset + i * dim.dimIncrement

section Fits

variable (crates : Crates) (config : Config)

/-- What the field of an array called `name` needs: a first element, an accessor for each
element and one for the array, all bits together in a `u32`, and its comments. -/
structure ArrayFits (name : String) (size offset : Nat) (dim : DimElement) : Prop where
  nonempty : dim.dim ≠ 0
  bits : size * dim.dim ≤ u32Max
  comment : CommentFits (size * dim.dim) offset
  capacity : dim.dim + 1 ≤ u32Max
  elements : (!sequentialIndexesFrom0 crates dim || !endsWithIndex name) = true →
    ∀ o ∈ dim.offsets offset, CommentFits size o

/-- What the fields of a placed register or cluster need; `listed` are the offsets in the
comments where each element has a field of its own. -/
def PlacementFits (name : String) (size offset : Nat) (listed : DimElement → List Nat) :
    Placement → Prop
  | .single => CommentFits size offset
  | .rustArray dim | .proxy dim => ArrayFits crates name size offset dim
  | .list dim => ∀ o ∈ listed dim, CommentFits size o

/-- The name gives an identifier of the kind. -/
def NameFits (kind : IdentKind) (name : String) : Prop :=
  isIdent crates (identText crates config name kind) = true

instance (kind : IdentKind) (name : String) : Decidable (NameFits crates config kind name) :=
  inferInstanceAs (Decidable (_ = true))

/-- The names of the accessors a placed register or cluster gets: `whole` for the single one
or for the array, `kept` for the elements that have accessors of their own, and `listed` where
each element has a field of its own. -/
def placedNames (whole : String) (kept listed : DimElement → List String) :
    Placement → List String
  | .single => [whole]
  | .rustArray dim | .proxy dim => whole :: kept dim
  | .list dim => listed dim

/-- The names of the accessors of a register. -/
def registerAccessorNames (register : Register) (path : BlockPath) (deriveInfo : DeriveInfo) :
    List String :=
  let tyName := registerTyName crates config register path deriveInfo
  placedNames ((register.dim.map (arrayAccessorName config register.info · tyName)).getD tyName)
    (fun dim => (registerElements crates config register.info dim).map (·.name))
    (fun dim => (crates.registerExpand register.info dim).map (·.name))
    (registerPlacement config register path deriveInfo)

/-- The names of the accessors of a cluster. -/
def clusterAccessorNames (cluster : Cluster) (path : BlockPath) : List String :=
  let tyName := clusterTyName cluster
  placedNames ((cluster.dim.map (·.dimName.getD tyName)).getD tyName)
    (fun dim => (clusterElements crates cluster.info dim).map (·.name))
    (fun dim => (crates.clusterExpand cluster.info dim).map (·.name))
    (clusterPlacement config cluster path)

/-- What `expand_register` needs.  It compares the size with the increment, reads the first
`dimIndex`, and its comments for a list give every element the offset of the array; its type
and its accessors need names that are identifiers. -/
def RegisterFits (register : Register) (path : BlockPath) (deriveInfo : DeriveInfo) : Prop :=
  ∀ size, register.info.properties.size = some size →
    (∀ dim, register.dim = some dim →
      (dim.dim ≠ 1 → dim.dimIncrement * bitsPerByte ≤ u32Max) ∧
      (dim.dim = 0 → dim.dimIndex = none)) ∧
    NameFits crates config .register (registerTyName crates config register path deriveInfo) ∧
    (∀ name ∈ registerAccessorNames crates config register path deriveInfo,
      NameFits crates config .registerAccessor name) ∧
    PlacementFits crates register.info.name size register.info.addressOffset
      (fun dim => List.replicate dim.dim register.info.addressOffset)
      (registerPlacement config register path deriveInfo)

/-! What the size computation returns for: every register it reaches has a size. -/

mutual

def ClusterSized (cluster : MaybeArray (ClusterInfoOf RegisterCluster)) : Prop :=
  match cluster with
  | .single info => ClusterInfoSized info
  | .array info dim => dim.dim = 0 ∨ ClusterInfoSized info

def ClusterInfoSized (info : ClusterInfoOf RegisterCluster) : Prop :=
  match info with
  | ⟨_, _, _, children, _⟩ => ChildrenSized children

def ChildrenSized (children : List RegisterCluster) : Prop :=
  match children with
  | [] => True
  | c :: rest => ChildSized c ∧ ChildrenSized rest

def ChildSized (c : RegisterCluster) : Prop :=
  match c with
  | .register reg => reg.info.properties.size.isSome = true
  | .cluster clust => ClusterSized clust

end

/-! What the size computation needs: the last element of an array starts, and every child
ends, at a bit that `u32` can count. -/

mutual

def ClusterSizeFits (cluster : MaybeArray (ClusterInfoOf RegisterCluster)) (path : BlockPath) :
    Prop :=
  match cluster with
  | .single info => ClusterInfoFits info path
  | .array info dim => dim.dim ≠ 0 →
      (dim.dim - 1) * dim.dimIncrement * bitsPerByte ≤ u32Max ∧ ClusterInfoFits info path ∧
      (ClusterInfoSized info → (dim.dim - 1) * dim.dimIncrement * bitsPerByte +
        clusterInfoBits config info path ≤ u32Max)

def ClusterInfoFits (info : ClusterInfoOf RegisterCluster) (path : BlockPath) : Prop :=
  match info with
  | ⟨_, _, _, children, _⟩ => ChildrenFit children path

def ChildrenFit (children : List RegisterCluster) (path : BlockPath) : Prop :=
  match children with
  | [] => True
  | c :: rest => ChildFits c path ∧ (ChildSized c → ChildrenFit rest path)

def ChildFits (c : RegisterCluster) (path : BlockPath) : Prop :=
  match c with
  | .register reg => RegisterFits crates config reg path .root ∧
      (reg.info.properties.size.isSome = true →
        reg.info.addressOffset * bitsPerByte + (registerPlacement config reg path .root).bits
          (reg.info.properties.size.getD 0) ≤ u32Max)
  | .cluster clust => clust.info.addressOffset * bitsPerByte ≤ u32Max ∧
      ClusterSizeFits clust path ∧
      (ClusterSized clust → clust.info.addressOffset * bitsPerByte +
        clusterBits config clust path ≤ u32Max)

end

/-- What `expand_cluster` needs: the size of its content, a name for its type and, unless the
size is more than the increment, what its fields and their accessors need. -/
def ClusterFits (cluster : Cluster) (path : BlockPath) : Prop :=
  ClusterInfoFits crates config cluster.info path ∧
  (ClusterInfoSized cluster.info →
    NameFits crates config .cluster (clusterTyName cluster) ∧
    (∀ dim, cluster.dim = some dim → dim.dimIncrement * bitsPerByte ≤ u32Max) ∧
    ((∀ dim, cluster.dim = some dim →
        clusterInfoBits config cluster.info path ≤ dim.dimIncrement * bitsPerByte) →
      (∀ name ∈ clusterAccessorNames crates config cluster path,
        NameFits crates config .clusterAccessor name) ∧
      PlacementFits crates cluster.info.name (clusterElementBits config cluster path)
        cluster.info.addressOffset (·.offsets cluster.info.addressOffset)
        (clusterPlacement config cluster path)))

def ErcFits (erc : RegisterCluster) (deriveInfo : DeriveInfo) (path : BlockPath) : Prop :=
  match erc with
  | .register reg => RegisterFits crates config reg path deriveInfo
  | .cluster clust => ClusterFits crates config clust path

/-- No error is reported: there are sizes, and no element of an array of clusters is larger
than the increment. -/
def ErcSound (erc : RegisterCluster) (path : BlockPath) : Prop :=
  match erc with
  | .register reg => reg.info.properties.size.isSome = true
  | .cluster clust => ClusterInfoSized clust.info ∧ ∀ dim, clust.dim = some dim →
      clusterInfoBits config clust.info path ≤ dim.dimIncrement * bitsPerByte

/-- What a block needs: the expansion of each element up to one that reports an error, the
size of each cluster, and, if nothing is reported, the end of each field in bytes. -/
structure BlockFits (ercs : List RegisterCluster) (path : BlockPath)
    (deriveInfos : List DeriveInfo) : Prop where
  inTurn : FitInTurn (fun e => ErcFits crates config e.1 e.2 path)
    (fun e => ErcSound config e.1 path) (ercs.zip deriveInfos)
  sizes : ∀ cluster, RegisterCluster.cluster cluster ∈ ercs →
    ClusterSizeFits crates config cluster path
  ends : (∀ e ∈ ercs.zip deriveInfos, ErcSound config e.1 path) →
    ∀ footprint ∈ blockFootprints config ercs path deriveInfos, footprint.end_ ≤ u32Max

end Fits

/-! ## The expansion of a register -/

section Registers

variable {crates : Crates} {config : Config}

theorem ends_makeComment (size offset : Nat) (description : String) :
    GenEnds (CommentFits size offset) True (makeComment size offset description) := by
  unfold makeComment
  dsimp only
  split
  · exact ((ends_addU32 _ _).map _).congr (by simp [CommentFits, *]) (by simp)
  · exact (Ends.ok _).congr (by simp [CommentFits, *]) (by simp)

/-- What each of the elements needs, in terms of their offsets. -/
theorem forall_commentFits_iff {elements : List ArrayElement} {size : Nat} {offsets : List Nat}
    (h : elements.map (·.offset) = offsets) :
    (∀ e ∈ elements.zipIdx, CommentFits size e.1.offset) ↔ ∀ o ∈ offsets, CommentFits size o := by
  rw [← h, List.forall_mem_map]
  constructor
  · intro hall e he
    obtain ⟨i, hi, rfl⟩ := List.getElem_of_mem he
    exact hall (elements[i], i) (List.mem_zipIdx_iff_getElem?.mpr (List.getElem?_eq_getElem hi))
  · intro hall e he
    exact hall e.1 (List.fst_mem_of_mem_zipIdx he)

theorem head?_isSome_iff {α : Type} {l : List α} {n : Nat} (h : l.length = n) :
    l.head?.isSome = true ↔ n ≠ 0 := by
  subst h
  cases l <;> simp

/-- What each of the elements needs, in terms of their names. -/
theorem forall_nameFits_iff {elements : List ArrayElement} {kind : IdentKind} :
    (∀ e ∈ elements.zipIdx, NameFits crates config kind e.1.name) ↔
      ∀ name ∈ elements.map (·.name), NameFits crates config kind name := by
  rw [List.forall_mem_map]
  constructor
  · intro hall e he
    obtain ⟨i, hi, rfl⟩ := List.getElem_of_mem he
    exact hall (elements[i], i) (List.mem_zipIdx_iff_getElem?.mpr (List.getElem?_eq_getElem hi))
  · intro hall e he
    exact hall e.1 (List.fst_mem_of_mem_zipIdx he)

/-- The field of an array panics where there is no element, a number is too large, or an
element has no identifier. -/
theorem ends_arrayField (word : String) (kind : IdentKind) (name accessorName ty : String)
    (size offset : Nat) (description : String) (dim : DimElement) (convertible : Bool)
    {elements : List ArrayElement} (helements : elements.map (·.offset) =
      if !sequentialIndexesFrom0 crates dim || !endsWithIndex name then dim.offsets offset
      else []) :
    GenEnds ((∀ n ∈ elements.map (·.name), NameFits crates config kind n) ∧
        ArrayFits crates name size offset dim) True
      (arrayField crates config word kind name accessorName ty size offset description dim
        convertible elements) := by
  have hends : GenEnds (size * dim.dim ≤ u32Max ∧ CommentFits (size * dim.dim) offset ∧
      dim.dim + 1 ≤ u32Max ∧ (crates.names name dim).head?.isSome = true ∧
      (crates.indexes dim).head?.isSome = true ∧
      ∀ e ∈ elements.zipIdx, NameFits crates config kind e.1.name ∧ CommentFits size e.1.offset)
      True (arrayField crates config word kind name accessorName ty size offset description dim
        convertible elements) := by
    unfold arrayField
    refine (ends_mulU32 _ _).andThen fun total htotal => ?_
    obtain ⟨-, rfl⟩ := mulU32_ok.mp htotal
    refine (ends_makeComment _ _ _).andThen fun doc _ => ?_
    refine (ends_addU32 _ _).andThen fun _ _ => ?_
    refine (ends_unwrap _).andThen fun firstName _ => ?_
    refine (ends_unwrap _).andThen fun firstIndex _ => ?_
    refine (Ends.mapM_true fun e _ => ?_).map _
    exact (ends_ident crates config e.1.name kind).andThen fun _ _ => (ends_makeComment _ _ _).map _
  refine hends.congr ?_ fun _ => Iff.rfl
  rw [head?_isSome_iff (crates.names_length name dim), head?_isSome_iff (crates.indexes_length dim),
    forall₂_and, forall_nameFits_iff, forall_commentFits_iff helements]
  constructor
  · intro h
    obtain ⟨hbits, hcomment, hcapacity, hnonempty, -, hnames, hall⟩ := h
    refine ⟨hnames, hnonempty, hbits, hcomment, hcapacity, fun hown => ?_⟩
    rwa [if_pos hown] at hall
  · intro h
    obtain ⟨hnames, hnonempty, hbits, hcomment, hcapacity, hall⟩ := h
    refine ⟨hbits, hcomment, hcapacity, hnonempty, hnonempty, hnames, ?_⟩
    split
    · exact hall ‹_›
    · simp

theorem registerElements_offsets (info : RegisterInfo) (dim : DimElement) :
    (registerElements crates config info dim).map (·.offset) =
      if !sequentialIndexesFrom0 crates dim || !endsWithIndex info.name then
        dim.offsets info.addressOffset
      else [] := by
  unfold registerElements
  split
  · rw [DimElement.offsets, ← crates.registerExpand_offsets info dim, List.map_map]
    rfl
  · rfl

theorem clusterElements_offsets (info : ClusterInfo) (dim : DimElement) :
    (clusterElements crates info dim).map (·.offset) =
      if !sequentialIndexesFrom0 crates dim || !endsWithIndex info.name then
        dim.offsets info.addressOffset
      else [] := by
  unfold clusterElements
  split
  · rw [DimElement.offsets, ← crates.clusterExpand_offsets info dim, List.map_map]
    rfl
  · rfl

theorem ends_comparedBits (dim : DimElement) :
    GenEnds (dim.dim ≠ 1 → dim.dimIncrement * bitsPerByte ≤ u32Max) True (comparedBits dim) := by
  unfold comparedBits
  split
  · exact (Ends.ok 0).congr (by simp [*]) (by simp)
  · exact (ends_mulU32 _ _).congr (by simp [*]) (by simp)

theorem ends_deriveIndex (dim : DimElement) :
    GenEnds (dim.dim = 0 → dim.dimIndex = none) True (deriveIndex crates dim) := by
  unfold deriveIndex
  cases hindex : dim.dimIndex with
  | none =>
      dsimp only
      split <;> exact (Ends.ok _).congr (by simp) (by simp)
  | some dimIndex =>
      have hlength := dim.dimIndex_length dimIndex hindex
      cases dimIndex with
      | nil => exact (ends_panicking _).congr (by simp [← hlength]) (by simp)
      | cons index rest => exact (Ends.ok _).congr (by simp [← hlength]) (by simp)

theorem ends_expandRegisterArray (info : RegisterInfo) (dim : DimElement) (size : Nat)
    (description tyName : String) {convertible proxyConvertible : Bool} {placement : Placement}
    (hplacement : placement = if convertible then .rustArray dim
      else if proxyConvertible then .proxy dim else .list dim) :
    GenEnds (NameFits crates config .register tyName ∧
        (∀ name ∈ placedNames (arrayAccessorName config info dim tyName)
          (fun dim => (registerElements crates config info dim).map (·.name))
          (fun dim => (crates.registerExpand info dim).map (·.name)) placement,
          NameFits crates config .registerAccessor name) ∧
        PlacementFits crates info.name size info.addressOffset
          (fun dim => List.replicate dim.dim info.addressOffset) placement) True
      (expandRegisterArray crates config info dim size description tyName convertible
        proxyConvertible) := by
  subst hplacement
  have helements := @registerElements_offsets crates config info dim
  -- the array is one field, whether or not it is a Rust array
  have harray : ∀ convertible : Bool, GenEnds (NameFits crates config .registerAccessor
        (arrayAccessorName config info dim tyName) ∧
      (∀ n ∈ (registerElements crates config info dim).map (·.name),
        NameFits crates config .registerAccessor n) ∧
      ArrayFits crates info.name size info.addressOffset dim) True (do
        let accessorName ←
          ident crates config (arrayAccessorName config info dim tyName) .registerAccessor
        let field ← arrayField crates config "register" .registerAccessor info.name accessorName
          (identText crates config tyName .register) size info.addressOffset description dim
          convertible (registerElements crates config info dim)
        return [field]) := fun convertible =>
    (ends_ident crates config _ _).andThen fun _ _ =>
      (ends_arrayField _ _ _ _ _ _ _ _ _ _ helements).map _
  unfold expandRegisterArray
  refine (ends_ident crates config tyName .register).andThen fun ty hty => ?_
  obtain rfl := ident_text hty
  cases convertible with
  | true =>
      refine (harray true).congr ?_ (by simp)
      simp only [placedNames, PlacementFits, List.forall_mem_cons, and_assoc, if_true]
  | false =>
      cases proxyConvertible with
      | true =>
          refine (harray false).congr ?_ (by simp)
          simp only [placedNames, PlacementFits, List.forall_mem_cons, and_assoc,
            if_true, Bool.false_eq_true, if_false]
      | false =>
          have hlength : (crates.registerExpand info dim).length = dim.dim := by
            simpa using congrArg List.length (crates.registerExpand_offsets info dim)
          have hlisted : List.replicate dim.dim info.addressOffset =
              (crates.registerExpand info dim).map fun _ => info.addressOffset := by
            rw [List.map_const', hlength]
          refine (Ends.mapM_true fun ri _ => (ends_makeComment _ _ _).andThen fun _ _ =>
            (ends_ident crates config ri.name .registerAccessor).map _).congr ?_ (by simp)
          simp only [Bool.false_eq_true, if_false, placedNames, PlacementFits, hlisted,
            List.forall_mem_map, NameFits, forall₂_and]
          exact and_comm

theorem ends_expandRegister_array {info : RegisterInfo} {dim : DimElement} {size : Nat}
    (hsize : info.properties.size = some size) (path : BlockPath) (deriveInfo : DeriveInfo) :
    GenEnds (RegisterFits crates config (.array info dim) path deriveInfo) True
      (expandRegister crates config (.array info dim) path deriveInfo) := by
  have hfits : RegisterFits crates config (.array info dim) path deriveInfo ↔
      (dim.dim ≠ 1 → dim.dimIncrement * bitsPerByte ≤ u32Max) ∧
      (dim.dim = 0 → dim.dimIndex = none) ∧
      NameFits crates config .register
        (registerTyName crates config (.array info dim) path deriveInfo) ∧
      (∀ name ∈ registerAccessorNames crates config (.array info dim) path deriveInfo,
        NameFits crates config .registerAccessor name) ∧
      PlacementFits crates info.name size info.addressOffset
        (fun dim => List.replicate dim.dim info.addressOffset)
        (registerPlacement config (.array info dim) path deriveInfo) := by
    simp [RegisterFits, MaybeArray.dim, hsize, and_assoc]
  refine Ends.congr ?_ hfits.symm fun _ => Iff.rfl
  unfold expandRegister
  simp only [MaybeArray.info_array, hsize]
  refine (ends_comparedBits dim).andThen fun bits hbits => ?_
  refine (ends_deriveIndex dim).andThen fun index hindex => ?_
  rw [deriveIndex_ok hindex]
  exact ends_expandRegisterArray info dim size _
    (registerTyName crates config (.array info dim) path deriveInfo)
    (registerPlacement_array hsize (comparedBits_ok hbits))

/-- **Registers.**  `expand_register` reports a missing size and nothing else. -/
theorem ends_expandRegister (register : Register) (path : BlockPath) (deriveInfo : DeriveInfo) :
    GenEnds (RegisterFits crates config register path deriveInfo)
      (register.info.properties.size.isSome = true)
      (expandRegister crates config register path deriveInfo) := by
  cases hsize : register.info.properties.size with
  | none =>
      unfold expandRegister RegisterFits
      rw [hsize]
      exact (ends_bail _).congr (by simp) (by simp)
  | some size =>
      cases register with
      | single info =>
          unfold expandRegister RegisterFits
          rw [hsize]
          refine ((ends_makeComment _ _ _).andThen fun _ _ => (ends_ident crates config _ _).andThen
            fun _ _ => (ends_ident crates config _ _).map _).congr ?_ (by simp)
          simp [MaybeArray.dim, registerPlacement, PlacementFits, NameFits, registerTyName,
            registerAccessorNames, placedNames]
          tauto
      | array info dim =>
          exact (ends_expandRegister_array hsize path deriveInfo).congr Iff.rfl (by simp)

theorem ends_sumU32 (rbfs : List RegisterBlockField) {start : Nat} (h : start ≤ u32Max) :
    GenEnds (start + (rbfs.map (·.size)).sum ≤ u32Max) True
      (rbfs.foldlM (fun sum rbf => addU32 sum rbf.size) start) := by
  induction rbfs generalizing start with
  | nil => exact (Ends.ok start).congr (by simpa using h) (by simp)
  | cons rbf rest ih =>
      have hends : GenEnds (start + rbf.size ≤ u32Max ∧
          start + rbf.size + (rest.map (·.size)).sum ≤ u32Max) True
          (addU32 start rbf.size >>= fun next =>
            rest.foldlM (fun sum rbf => addU32 sum rbf.size) next) := by
        refine (ends_addU32 start rbf.size).andThen fun next hnext => ?_
        obtain ⟨hfits, rfl⟩ := addU32_ok.mp hnext
        exact ih hfits
      rw [List.foldlM_cons]
      refine hends.congr ?_ fun _ => Iff.rfl
      rw [List.map_cons, List.sum_cons]
      omega

end Registers

/-! ## The size computation -/

section Sizes

variable {crates : Crates} {config : Config}

/-- The end of a register in a cluster; its last sum is the largest number. -/
theorem ends_childEnd_register (reg : Register) (path : BlockPath) :
    GenEnds (ChildFits crates config (.register reg) path) (ChildSized (.register reg))
      (childEnd crates config (.register reg) path) := by
  have hends : GenEnds (RegisterFits crates config reg path .root ∧
      (reg.info.properties.size.isSome = true →
        0 + (registerPlacement config reg path .root).bits
          (reg.info.properties.size.getD 0) ≤ u32Max ∧
        reg.info.addressOffset * bitsPerByte ≤ u32Max ∧
        reg.info.addressOffset * bitsPerByte + (registerPlacement config reg path .root).bits
          (reg.info.properties.size.getD 0) ≤ u32Max))
      (reg.info.properties.size.isSome = true ∧ True)
      (childEnd crates config (.register reg) path) := by
    rw [childEnd]
    refine (ends_expandRegister reg path .root).bind fun fields hfields => ?_
    rw [← expandRegister_sum hfields]
    refine (ends_sumU32 fields (Nat.zero_le u32Max)).andThen fun sum hsum => ?_
    refine (ends_mulU32 _ _).andThen fun start hstart => ?_
    rw [sumU32_ok hsum, Nat.zero_add, ← (mulU32_ok.mp hstart).2]
    exact ends_addU32 _ _
  refine hends.congr ?_ fun _ => by rw [ChildSized, and_true]
  rw [ChildFits]
  refine and_congr_right fun _ => imp_congr_right fun _ => ?_
  omega

mutual

theorem ends_clusterSizeInBits (cluster : MaybeArray (ClusterInfoOf RegisterCluster))
    (path : BlockPath) :
    GenEnds (ClusterSizeFits crates config cluster path) (ClusterSized cluster)
      (clusterSizeInBits crates config cluster path) := by
  match cluster with
  | .single info =>
      rw [clusterSizeInBits, ClusterSizeFits, ClusterSized]
      exact ends_clusterInfoSizeInBits info path
  | .array info dim =>
      rw [clusterSizeInBits, ClusterSizeFits, ClusterSized]
      by_cases hzero : dim.dim = 0
      · rw [if_pos hzero]
        exact (Ends.ok 0).congr (by simp [hzero]) (by simp [hzero])
      · rw [if_neg hzero]
        have hends : GenEnds ((dim.dim - 1) * dim.dimIncrement ≤ u32Max ∧
            (dim.dim - 1) * dim.dimIncrement * bitsPerByte ≤ u32Max ∧
            ClusterInfoFits crates config info path ∧
            (ClusterInfoSized info → (dim.dim - 1) * dim.dimIncrement * bitsPerByte +
              clusterInfoBits config info path ≤ u32Max)) (ClusterInfoSized info ∧ True)
            (do
              let lastElement ← mulU32 (dim.dim - 1) dim.dimIncrement
              let lastOffset ← mulU32 lastElement bitsPerByte
              let lastSize ← clusterInfoSizeInBits crates config info path
              addU32 lastOffset lastSize) := by
          refine (ends_mulU32 _ _).andThen fun lastElement hlast => ?_
          rw [(mulU32_ok.mp hlast).2]
          refine (ends_mulU32 _ _).andThen fun lastOffset hoffset => ?_
          rw [(mulU32_ok.mp hoffset).2]
          refine (ends_clusterInfoSizeInBits info path).bind fun lastSize hsize => ?_
          rw [clusterInfoSizeInBits_ok hsize]
          exact ends_addU32 _ _
        refine hends.congr ?_ fun _ => by simp [hzero]
        constructor
        · intro h _
          obtain ⟨-, hfits⟩ := h
          exact hfits
        · intro hfits
          have hbits := (hfits hzero).1
          exact ⟨by unfold bitsPerByte at hbits; omega, hfits hzero⟩

theorem ends_clusterInfoSizeInBits (info : ClusterInfoOf RegisterCluster) (path : BlockPath) :
    GenEnds (ClusterInfoFits crates config info path) (ClusterInfoSized info)
      (clusterInfoSizeInBits crates config info path) := by
  match info with
  | ⟨_, _, _, children, _⟩ =>
      rw [clusterInfoSizeInBits, ClusterInfoFits, ClusterInfoSized]
      exact ends_childrenSizeInBits children path 0

theorem ends_childrenSizeInBits (children : List RegisterCluster) (path : BlockPath)
    (size : Nat) :
    GenEnds (ChildrenFit crates config children path) (ChildrenSized children)
      (childrenSizeInBits crates config children path size) := by
  match children with
  | [] =>
      rw [childrenSizeInBits, ChildrenFit, ChildrenSized]
      exact Ends.ok size
  | c :: rest =>
      rw [childrenSizeInBits, ChildrenFit, ChildrenSized]
      exact (ends_childEnd c path).bind fun _ _ => ends_childrenSizeInBits rest path _

theorem ends_childEnd (c : RegisterCluster) (path : BlockPath) :
    GenEnds (ChildFits crates config c path) (ChildSized c) (childEnd crates config c path) := by
  match c with
  | .register reg => exact ends_childEnd_register reg path
  | .cluster clust =>
      have hends : GenEnds (clust.info.addressOffset * bitsPerByte ≤ u32Max ∧
          ClusterSizeFits crates config clust path ∧
          (ClusterSized clust → clust.info.addressOffset * bitsPerByte +
            clusterBits config clust path ≤ u32Max)) (ClusterSized clust ∧ True)
          (childEnd crates config (.cluster clust) path) := by
        rw [childEnd]
        refine (ends_mulU32 _ _).andThen fun start hstart => ?_
        refine (ends_clusterSizeInBits clust path).bind fun size hsize => ?_
        rw [← (mulU32_ok.mp hstart).2, clusterSizeInBits_ok hsize]
        exact ends_addU32 _ _
      refine hends.congr ?_ fun _ => by rw [ChildSized, and_true]
      rw [ChildFits]

end

end Sizes

/-! ## The expansion of a block -/

section Blocks

variable {crates : Crates} {config : Config}

theorem ends_expandClusterArray (info : ClusterInfo) (dim : DimElement) (size : Nat)
    (description ty : String) {convertible convert : Bool} {placement : Placement}
    (hplacement : placement =
      if convert then if convertible then .rustArray dim else .proxy dim else .list dim) :
    GenEnds ((∀ name ∈ placedNames (dim.dimName.getD (removeDim info.name))
          (fun dim => (clusterElements crates info dim).map (·.name))
          (fun dim => (crates.clusterExpand info dim).map (·.name)) placement,
          NameFits crates config .clusterAccessor name) ∧
        PlacementFits crates info.name size info.addressOffset (·.offsets info.addressOffset)
          placement) True
      (expandClusterArray crates config info dim size description ty convertible convert) := by
  subst hplacement
  unfold expandClusterArray
  cases convert with
  | true =>
      refine ((ends_ident crates config _ _).andThen fun _ _ =>
        (ends_arrayField _ _ _ _ _ _ _ _ _ _ (clusterElements_offsets info dim)).map _).congr
        ?_ (by simp)
      cases convertible <;> simp [placedNames, PlacementFits, NameFits, and_assoc]
  | false =>
      refine (Ends.mapM_true fun ci _ => (ends_makeComment _ _ _).andThen fun _ _ =>
        (ends_ident crates config ci.name .clusterAccessor).map _).congr ?_ (by simp)
      simp only [Bool.false_eq_true, if_false, placedNames, PlacementFits, DimElement.offsets,
        ← crates.clusterExpand_offsets info dim, List.forall_mem_map, NameFits, forall₂_and]
      exact and_comm

/-- **Clusters.**  `expand_cluster` reports a missing size, and an element larger than the
increment. -/
theorem ends_expandCluster (cluster : Cluster) (path : BlockPath) :
    GenEnds (ClusterFits crates config cluster path) (ErcSound config (.cluster cluster) path)
      (expandCluster crates config cluster path) := by
  unfold expandCluster ClusterFits ErcSound
  refine (ends_withContext _ (ends_clusterInfoSizeInBits cluster.info path)).bind fun size hsize => ?_
  rw [clusterInfoSizeInBits_ok (withContext_ok.mp hsize)]
  refine (ends_ident crates config _ _).andThen fun ty _ => ?_
  cases cluster with
  | single info =>
      refine ((ends_makeComment _ _ _).andThen fun _ _ => (ends_ident crates config _ _).map _).congr
        ?_ (by simp [MaybeArray.dim])
      simp [MaybeArray.dim, clusterPlacement, clusterElementBits, PlacementFits, NameFits,
        clusterAccessorNames, placedNames, clusterTyName, and_comm]
  | array info dim =>
      have hends : GenEnds (dim.dimIncrement * bitsPerByte ≤ u32Max ∧
          (clusterInfoBits config info path ≤ dim.dimIncrement * bitsPerByte →
            (∀ name ∈ clusterAccessorNames crates config (.array info dim) path,
              NameFits crates config .clusterAccessor name) ∧
            PlacementFits crates info.name (clusterElementBits config (.array info dim) path)
              info.addressOffset (·.offsets info.addressOffset)
              (clusterPlacement config (.array info dim) path)))
          (clusterInfoBits config info path ≤ dim.dimIncrement * bitsPerByte) (do
            let incrementBits ← mulU32 dim.dimIncrement bitsPerByte
            if clusterInfoBits config info path > incrementBits then
              bail s!"Cluster {info.name} has size {clusterInfoBits config info path} bits that is more then array increment {incrementBits} bits"
            else
              let clusterSize :=
                if config.maxClusterSize then incrementBits else clusterInfoBits config info path
              let sequentialAddresses := dim.dim == 1 || clusterSize == incrementBits
              let convert := convertList config info.name
              expandClusterArray crates config info dim clusterSize
                (info.description.getD info.name) ty (sequentialAddresses && convert) convert) := by
        refine (ends_mulU32 _ _).andThen fun bits hbits => ?_
        obtain ⟨-, rfl⟩ := mulU32_ok.mp hbits
        split
        · have hbig : ¬ clusterInfoBits config info path ≤ dim.dimIncrement * bitsPerByte := by omega
          exact (ends_bail _).congr (by simp [hbig]) (by simp [hbig])
        · have hfits : clusterInfoBits config info path ≤ dim.dimIncrement * bitsPerByte := by omega
          exact (ends_expandClusterArray info dim (clusterElementBits config (.array info dim) path)
            _ ty (clusterPlacement_array info dim path)).congr
            ⟨fun h _ => h, fun h => h hfits⟩ (by simp [hfits])
      exact hends.congr (by simp [MaybeArray.dim]) (by simp [MaybeArray.dim])

theorem ends_expandErc (erc : RegisterCluster) (deriveInfo : DeriveInfo) (path : BlockPath) :
    GenEnds (ErcFits crates config erc deriveInfo path) (ErcSound config erc path)
      (expandErc crates config erc deriveInfo path) := by
  cases erc with
  | register reg => exact ends_withContext _ (ends_expandRegister reg path deriveInfo)
  | cluster clust => exact ends_withContext _ (ends_expandCluster clust path)

/-- `expand` does not panic if each element fits, up to one that reports an error. -/
theorem ends_expand (ercs : List RegisterCluster) (path : BlockPath)
    (deriveInfos : List DeriveInfo) :
    GenEnds (FitInTurn (fun e => ErcFits crates config e.1 e.2 path)
        (fun e => ErcSound config e.1 path) (ercs.zip deriveInfos))
      (∀ e ∈ ercs.zip deriveInfos, ErcSound config e.1 path)
      (expand crates config ercs path deriveInfos) := by
  unfold expand
  exact (Ends.mapM fun e _ => ends_expandErc e.1 e.2 path).map _

/-- `FieldRegions::add` panics where the end of the field leaves `u32`. -/
theorem noPanic_add_iff {regions : FieldRegions} {rbf : RegisterBlockField} :
    NoPanic (FieldRegions.add regions rbf) ↔ rbf.end_ ≤ u32Max := by
  have hend : rbf.offset + bytesOfBits rbf.size = rbf.end_ := rfl
  unfold FieldRegions.add addU32
  simp only [hend]
  by_cases hfits : rbf.end_ ≤ u32Max
  · rw [if_pos hfits]
    refine ⟨fun _ => hfits, fun _ fault hfault => ?_⟩
    dsimp only [bind, Except.bind] at hfault
    split at hfault
    · split at hfault
      · cases hfault
      · cases hfault
        exact id
    · cases hfault
  · rw [if_neg hfits]
    exact ⟨fun h => (h _ rfl trivial).elim, fun h => (hfits h).elim⟩

/-- The expansion of a block is total and exact. -/
structure ExpansionTotal (crates : Crates) (config : Config) (ercs : List RegisterCluster)
    (path : BlockPath) (deriveInfos : List DeriveInfo) : Prop where
  expand_total : NoPanic (expand crates config ercs path deriveInfos)
  size_total : ∀ cluster, RegisterCluster.cluster cluster ∈ ercs →
    NoPanic (clusterSizeInBits crates config cluster path)
  region_total : ∀ rbfs, expand crates config ercs path deriveInfos = .ok rbfs →
    ∀ rbf ∈ rbfs, ∀ regions, NoPanic (FieldRegions.add regions rbf)
  footprints_exact : ∀ rbfs, expand crates config ercs path deriveInfos = .ok rbfs →
    (rbfs.map (·.footprint)).Perm (blockFootprints config ercs path deriveInfos)
  size_exact : ∀ cluster bits, RegisterCluster.cluster cluster ∈ ercs →
    clusterSizeInBits crates config cluster path = .ok bits → bits = clusterBits config cluster path

/-- The fields an expansion returns end where the footprints of the block do. -/
theorem forall_end_iff {ercs : List RegisterCluster} {path : BlockPath}
    {deriveInfos : List DeriveInfo} {rbfs : List RegisterBlockField}
    (h : expand crates config ercs path deriveInfos = .ok rbfs) :
    (∀ rbf ∈ rbfs, rbf.end_ ≤ u32Max) ↔
      ∀ footprint ∈ blockFootprints config ercs path deriveInfos, footprint.end_ ≤ u32Max := by
  have hmem : ∀ footprint, footprint ∈ rbfs.map (·.footprint) ↔
      footprint ∈ blockFootprints config ercs path deriveInfos :=
    fun _ => (expand_footprints h).mem_iff
  simp only [← hmem, List.forall_mem_map]
  rfl

/-- **Totality.**  The expansion of a block neither panics nor leaves `u32` exactly if the
block fits.  Every step of the expansion is one that returns, reports an error or stops the
generator, and what it needs is read off its arguments; the errors come first, as nothing
behind one is run. -/
theorem expansionTotal_iff (crates : Crates) (config : Config) (ercs : List RegisterCluster)
    (path : BlockPath) (deriveInfos : List DeriveInfo) :
    ExpansionTotal crates config ercs path deriveInfos ↔
      BlockFits crates config ercs path deriveInfos := by
  have hends := @ends_expand crates config ercs path deriveInfos
  constructor
  · intro htotal
    have hfits := hends.noFatal.mp htotal.expand_total
    refine ⟨hfits, fun cluster hmem => ?_, fun hsound => ?_⟩
    · exact (ends_clusterSizeInBits cluster path).noFatal.mp (htotal.size_total cluster hmem)
    · obtain ⟨rbfs, hrbfs⟩ := hends.returns.mpr ⟨hfits, hsound⟩
      exact (forall_end_iff hrbfs).mp fun rbf hrbf =>
        noPanic_add_iff.mp (htotal.region_total rbfs hrbfs rbf hrbf [])
  · intro hfits
    refine ⟨hends.noFatal.mpr hfits.inTurn, fun cluster hmem => ?_, fun rbfs hrbfs rbf hrbf _ => ?_,
      fun rbfs hrbfs => expand_footprints hrbfs, fun cluster bits _ hbits => ?_⟩
    · exact (ends_clusterSizeInBits cluster path).noFatal.mpr (hfits.sizes cluster hmem)
    · have hsound := (hends.returns.mp ⟨rbfs, hrbfs⟩).2
      exact noPanic_add_iff.mpr ((forall_end_iff hrbfs).mpr (hfits.ends hsound) rbf hrbf)
    · exact clusterSizeInBits_ok hbits

/-- Four registers next to each other. -/
def sampleRegister : Register := .array (plainRegister "DATA[%s]" 0 32) (countedDim 4 4)

/-- Two channels of four registers. -/
def channelCluster : Cluster :=
  .array ⟨"CH[%s]", none, 64, [.register sampleRegister], none⟩ (countedDim 2 32)

theorem sampleRegister_fits :
    RegisterFits asciiCrates defaultConfig sampleRegister (.new "DMA") .root := by
  intro size h
  cases h
  refine ⟨?_, ?_⟩
  · intro dim h
    cases h
    decide
  · refine ⟨by decide, by decide, ?_⟩
    change ArrayFits _ _ _ _ _
    exact ⟨by decide, by decide, fun _ => by decide, by decide, fun h => absurd h (by decide)⟩

theorem channelCluster_infoFits :
    ClusterInfoFits asciiCrates defaultConfig channelCluster.info (.new "DMA") :=
  ⟨⟨sampleRegister_fits, fun _ => by decide⟩, fun _ => trivial⟩

theorem expansionTotal_channels :
    ExpansionTotal asciiCrates defaultConfig [.cluster channelCluster] (.new "DMA") [.cluster] := by
  refine (expansionTotal_iff asciiCrates defaultConfig [.cluster channelCluster] (.new "DMA")
    [.cluster]).mpr ⟨⟨⟨channelCluster_infoFits, fun _ => ⟨by decide, ?_, fun _ => ⟨by decide, ?_⟩⟩⟩,
      fun _ => trivial⟩, fun cluster hmem => ?_, fun _ => by decide⟩
  · intro dim h
    cases h
    decide
  · change ArrayFits _ _ _ _ _
    exact ⟨by decide, by decide, fun _ => by decide, by decide, fun h => absurd h (by decide)⟩
  · obtain rfl := RegisterCluster.cluster.inj (List.mem_singleton.mp hmem)
    exact fun _ => ⟨by decide, channelCluster_infoFits, fun _ => by decide⟩

end Blocks

/-! ## Byte ranges -/

/-- Where every element ends at or below `u32::MAX` in bytes, and none is larger than the
increment, the field of an array needs a first element and two numbers in `u32`. -/
theorem arrayFits_iff {crates : Crates} {name : String} {size offset : Nat} {dim : DimElement}
    (hsize : dim.dim = 1 ∨ size ≤ dim.dimIncrement * bitsPerByte)
    (hends : ∀ o ∈ dim.offsets offset, o + bytesOfBits size ≤ u32Max) :
    ArrayFits crates name size offset dim ↔
      dim.dim ≠ 0 ∧ size * dim.dim ≤ u32Max ∧ dim.dim + 1 ≤ u32Max := by
  constructor
  · intro hfits
    exact ⟨hfits.nonempty, hfits.bits, hfits.capacity⟩
  · intro h
    obtain ⟨hnonempty, hbits, hcapacity⟩ := h
    have hbytes : size / 8 ≤ bytesOfBits size := by
      unfold bytesOfBits divCeil bitsPerByte
      omega
    refine ⟨hnonempty, hbits, fun _ => ?_, hcapacity, fun _ o ho _ => ?_⟩
    · obtain ⟨n, hn⟩ := Nat.exists_eq_succ_of_ne_zero hnonempty
      have hlast := hends (offset + n * dim.dimIncrement)
        (List.mem_map.mpr ⟨n, List.mem_range.mpr (by omega), rfl⟩)
      have htotal : size * dim.dim / 8 ≤ n * dim.dimIncrement + size / 8 := by
        have hshift : size * n ≤ 8 * (n * dim.dimIncrement) := by
          rcases hsize with hone | hsize
          · obtain rfl : n = 0 := by omega
            simp
          · unfold bitsPerByte at hsize
            calc size * n ≤ dim.dimIncrement * 8 * n := Nat.mul_le_mul_right n hsize
              _ = 8 * (n * dim.dimIncrement) := by
                rw [Nat.mul_comm n, ← Nat.mul_assoc, Nat.mul_comm 8]
        rw [hn, Nat.mul_succ]
        omega
      omega
    · have := hends o ho
      omega

/-- An entry of a block, or of a cluster in it. -/
inductive Nested (ercs : List RegisterCluster) : RegisterCluster → Prop
  | top {erc : RegisterCluster} (h : erc ∈ ercs) : Nested ercs erc
  | child {clust : Cluster} {erc : RegisterCluster} (h : Nested ercs (.cluster clust))
      (hchild : erc ∈ clust.info.children) : Nested ercs erc

/-- Where the elements of a register or cluster start in their block. -/
def RegisterCluster.starts : RegisterCluster → List Nat
  | .register (.single info) => [info.addressOffset]
  | .register (.array info dim) => dim.offsets info.addressOffset
  | .cluster (.single info) => [info.addressOffset]
  | .cluster (.array info dim) => dim.offsets info.addressOffset

/-- The bits of one element. -/
def RegisterCluster.elementBits (config : Config) (erc : RegisterCluster) (path : BlockPath) :
    Nat :=
  match erc with
  | .register reg => reg.info.properties.size.getD 0
  | .cluster clust => clusterInfoBits config clust.info path

/-- The byte range of every element ends at or below `u32::MAX`. -/
def ByteRangesEnd (config : Config) (ercs : List RegisterCluster) (path : BlockPath) : Prop :=
  ∀ erc, Nested ercs erc → ∀ start ∈ erc.starts,
    start + bytesOfBits (erc.elementBits config path) ≤ u32Max

/-- An array of registers without elements. -/
def emptyArray : RegisterCluster :=
  .register (.array (plainRegister "DATA%s" 0 32) (countedDim 0 4))

/-- A cluster whose register lies 512 MiB behind its start. -/
def farCluster : RegisterCluster :=
  .cluster (.single ⟨"FAR", none, 0, [.register (.single (plainRegister "CR" 0x20000000 32))], none⟩)

/-- A register whose name keeps its `+` in every format. -/
def plusRegister : RegisterCluster := .register (.single (plainRegister "A+B" 0 32))

/-- A register is the only entry of its block. -/
theorem nested_register {reg : Register} {erc : RegisterCluster}
    (h : Nested [.register reg] erc) : erc = .register reg := by
  induction h with
  | top h => exact List.mem_singleton.mp h
  | child _ _ ih => cases ih

/-- The empty array has no first name, eight times the offset is more than 32 bits, and `A+B`
is no identifier. -/
theorem not_expansionTotal_empty_far :
    (ByteRangesEnd defaultConfig [emptyArray] (.new "DMA") ∧
      ¬ ExpansionTotal asciiCrates defaultConfig [emptyArray] (.new "DMA") [.root]) ∧
    (ByteRangesEnd defaultConfig [farCluster] (.new "DMA") ∧
      ¬ ExpansionTotal asciiCrates defaultConfig [farCluster] (.new "DMA") [.cluster]) ∧
    (ByteRangesEnd defaultConfig [plusRegister] (.new "DMA") ∧
      ¬ ExpansionTotal asciiCrates defaultConfig [plusRegister] (.new "DMA") [.root]) := by
  have hfar : ∀ erc, Nested [farCluster] erc →
      erc = farCluster ∨ erc = .register (.single (plainRegister "CR" 0x20000000 32)) := by
    intro erc h
    induction h with
    | top h => exact .inl (List.mem_singleton.mp h)
    | child _ hchild ih =>
        rcases ih with heq | heq
        · obtain rfl := RegisterCluster.cluster.inj heq
          exact .inr (List.mem_singleton.mp hchild)
        · cases heq
  refine ⟨⟨fun erc h => ?_, fun h => h.expand_total _ rfl trivial⟩,
    ⟨fun erc h => ?_, fun h => h.expand_total _ rfl trivial⟩,
    ⟨fun erc h => ?_, fun h => h.expand_total _ rfl trivial⟩⟩
  · obtain rfl := nested_register h
    exact List.forall_mem_nil _
  · rcases hfar erc h with rfl | rfl
    · decide
    · decide
  · obtain rfl := nested_register h
    decide

end Svd2Rust
