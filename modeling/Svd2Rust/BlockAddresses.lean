import Svd2Rust.RawAccessors
import Svd2Rust.StructLayout

/-!
# What the methods of a block reach

A method that borrows a field of the struct reaches whatever place the compiler gave
the field; one that computes a pointer adds the bytes it was given.  `BlockCode.call`
is the number of bytes a call of a method adds to the address of the block, with the
struct laid out as `repr(C)`.

`calls_iff` says that in an exact block a call for an element of a register or cluster
adds the address offset the device file gives the element, and that there is one for
every element.
-/

namespace Svd2Rust

open OverlapChains ReprC

def RegisterCluster.dim : RegisterCluster → Option DimElement
  | .register reg => reg.dim
  | .cluster clust => clust.dim

/-- The number of elements of a register or cluster. -/
def RegisterCluster.count (erc : RegisterCluster) : Nat :=
  match erc.dim with
  | some dim => dim.dim
  | none => 1

/-- A block of generated code: its registers and clusters as rendering leaves them, and
the struct made from them. -/
structure BlockCode where
  path : BlockPath
  children : List ErcCode
  deriveInfos : List DeriveInfo
  struct : RegisterBlock

/-- A field of the struct, at the place the compiler gives it. -/
structure PlacedField where
  name : String
  start : Nat
  ty : FieldTy
  element : Layout

/-- The place of element `n` of an array field. -/
def PlacedField.index (m : PlacedField) (n : Nat) : Option Nat :=
  match m.ty with
  | .array _ len => if n < len then some (m.start + m.element.size * n) else none
  | _ => none

/-- The layout of the type a field is made of. -/
def elementLayout (owners : List (List RegisterBlockField × Layout)) (rbf : RegisterBlockField) :
    Layout :=
  match owners.find? fun owner => rbf ∈ owner.1 with
  | some owner => owner.2
  | none => Layout.unit

/-- The member that an item of the struct is, placed at `start`. -/
def memberOf (owners : List (List RegisterBlockField × Layout)) (placed : Nat × BlockItem) :
    Option PlacedField :=
  match placed.2 with
  | .reserved _ _ => none
  | .field rbf => some ⟨rbf.synField.ident, placed.1, rbf.synField.ty, elementLayout owners rbf⟩

/-- The bytes a body adds to `self` for item `n`; a plain reference has item 0 only. -/
def MethodBody.reach (members : List PlacedField) (n : Nat) : MethodBody → Option Nat
  | .field name => (members.find? (·.name = name)).bind fun m => if n = 0 then some m.start else none
  | .fieldIndex name => (members.find? (·.name = name)).bind (·.index n)
  | .fieldIter name => (members.find? (·.name = name)).bind (·.index n)
  | body => body.byteOffset n

/-- The element of its register or cluster that item `n` of an accessor stands for;
the accessor belongs to field `k` of the expansion. -/
def Accessor.element (k n : Nat) : Accessor → Nat
  | .reg _ => k + n
  | .array _ => k + n
  | .arrayElem a => a.i

section Calls

variable (crates : Crates) (config : Config) (env : TypeEnv)

/-- The fields of the children, with the layouts of their types. -/
def BlockCode.owners (b : BlockCode) : List (List RegisterBlockField × Layout) :=
  Svd2Rust.owners crates config b.path (b.children.map ErcCode.erc) b.deriveInfos
    (allLayouts crates config env b.children)

/-- The fields of the struct as the compiler places them. -/
def BlockCode.members (b : BlockCode) : List PlacedField :=
  let owners := b.owners crates config env
  ((starts 0 (b.struct.items.map (BlockItem.layout owners))).zip b.struct.items).filterMap
    (memberOf owners)

/-- A call of the method `m` of the block, for its item `n`: the bytes it adds to the
address of the block. -/
def BlockCode.call (b : BlockCode) (m : Method) (n : Nat) : Option Nat :=
  match m.body with
  | .callElem basename i =>
      if n = 0 then
        (b.struct.methods.find? (·.name = basename)).bind
          (·.body.reach (b.members crates config env) i)
      else none
  | body => body.reach (b.members crates config env) n

/-- The regions of the block. -/
def BlockCode.regions (b : BlockCode) : FieldRegions :=
  ((expand crates config (b.children.map ErcCode.erc) b.path b.deriveInfos).toOption.bind
    fun fields => (FieldRegions.addAll fields).toOption).getD []

/-- Item `n` of the method `m` stands for element `i` of `child`: the method comes from
an accessor of a field that `child` was expanded to. -/
structure BlockCode.Selects (b : BlockCode) (child : ErcCode) (i : Nat) (m : Method) (n : Nat) :
    Prop where
  method : m ∈ b.struct.methods
  accessor : ∃ deriveInfo k rbf r a, (child, deriveInfo) ∈ b.children.zip b.deriveInfos ∧
    (ercFields crates config b.path child.erc deriveInfo)[k]? = some rbf ∧
    r ∈ b.regions crates config ∧ rbf ∈ r.rbfs ∧ a ∈ emittedAccessors r.isUnion rbf ∧
    m ∈ a.toTokens ∧ i = a.accessor.element k n

/-- Some call for element `i` of `child` adds `o` bytes. -/
def BlockCode.Calls (b : BlockCode) (child : ErcCode) (i o : Nat) : Prop :=
  ∃ m n, b.Selects crates config child i m n ∧ b.call crates config env m n = some o

/-- The compiler pads nothing in front of a field, which has the size reserved for it and
an aligned place; no element of a list lies in a union; and no two methods share a name. -/
structure BlockCode.Exact (b : BlockCode) : Prop where
  fields : ∀ entry ∈ b.children.zip b.deriveInfos,
    ∀ p ∈ ercFootprints config entry.1.erc entry.2 b.path,
      (ercPlacement config b.path entry.1.erc entry.2).isProxy = false →
      Alone (blockFootprints config (b.children.map ErcCode.erc) b.path b.deriveInfos) p →
        (entry.1.layout crates config env).size =
            bytesOfBits (ercBits config b.path entry.1.erc) ∧
          (entry.1.layout crates config env).align ∣ p.start
  noShift : NoShiftedOverlap
    (blockFootprints config (b.children.map ErcCode.erc) b.path b.deriveInfos)
  distinct : (b.struct.methods.map (·.name)).Nodup

/-- An exact block that was emitted. -/
structure BlockCode.Sound (b : BlockCode) : Prop extends b.Exact crates config env where
  emitted : ∃ name doc size, registerOrClusterBlock crates config (b.children.map ErcCode.erc)
    b.path b.deriveInfos name doc size = .ok b.struct
  infos : b.children.length ≤ b.deriveInfos.length

end Calls

/-! ## Fields and elements -/

section Fields

variable {crates : Crates} {config : Config}

/-- How the fields of an expansion share out the elements: there is one for each, or
one for all, which has type `()` unless the elements follow each other without gaps. -/
inductive Shares (crates : Crates) (config : Config) (erc : RegisterCluster) (bits : Nat) :
    List RegisterBlockField → Prop
  | each {rbfs : List RegisterBlockField} (hlength : rbfs.length = erc.count)
      (hfields : ∀ k rbf, rbfs[k]? = some rbf → ∃ doc name ty size, rbf =
        elementField doc name ty (erc.elementOffset 0) (erc.elementOffset k) size) :
      Shares crates config erc bits rbfs
  | all {rbf : RegisterBlockField} {dim : DimElement} {ty : String} {size : Nat}
      {convertible : Bool} (hcount : erc.count = dim.dim)
      (hoffset : ∀ i, erc.elementOffset i = erc.elementOffset 0 + i * dim.dimIncrement)
      (hfield : IsArrayField ty (ercElementNames crates config erc) (erc.elementOffset 0) size dim
        convertible rbf)
      (hstride : convertible = true → dim.dim = 1 ∨ bits = dim.dimIncrement * bitsPerByte) :
      Shares crates config erc bits [rbf]

theorem elementOffset_of_dim {erc : RegisterCluster} {dim : DimElement}
    (hdim : erc.dim = some dim) (i : Nat) :
    erc.elementOffset i = erc.elementOffset 0 + i * dim.dimIncrement := by
  cases erc with
  | register reg =>
      cases reg with
      | single info => cases hdim
      | array info dim' =>
          obtain rfl : dim' = dim := Option.some.inj hdim
          simp [RegisterCluster.elementOffset]
  | cluster clust =>
      cases clust with
      | single info => cases hdim
      | array info dim' =>
          obtain rfl : dim' = dim := Option.some.inj hdim
          simp [RegisterCluster.elementOffset]

theorem ercPlacement_dim (path : BlockPath) (erc : RegisterCluster) (deriveInfo : DeriveInfo) :
    (ercPlacement config path erc deriveInfo).dim = erc.dim := by
  cases erc with
  | register reg => exact registerPlacement_dim config reg path deriveInfo
  | cluster clust => exact clusterPlacement_dim config clust path

/-- The fields of a placement share out the elements. -/
theorem Placed.shares {path : BlockPath} {erc : RegisterCluster} {deriveInfo : DeriveInfo}
    {ty : String} {size : Nat} {rbfs : List RegisterBlockField}
    (h : Placed ty (ercElementNames crates config erc) (erc.elementOffset 0) size
      (ercPlacement config path erc deriveInfo) rbfs) :
    Shares crates config erc (ercBits config path erc) rbfs := by
  have hdim := @ercPlacement_dim config path erc deriveInfo
  have hstride := @rustArray_bits config path erc deriveInfo
  generalize ercPlacement config path erc deriveInfo = placement at h hdim hstride
  cases h with
  | single doc name =>
      have hcount : erc.count = 1 := by rw [RegisterCluster.count, ← hdim]; rfl
      refine .each hcount.symm fun k rbf hk => ?_
      obtain ⟨hlt, rfl⟩ := List.getElem?_eq_some_iff.mp hk
      obtain rfl : k = 0 := by simpa using hlt
      exact ⟨doc, name, ty, size, rfl⟩
  | @rustArray dim rbf hfield =>
      have hcount : erc.count = dim.dim := by rw [RegisterCluster.count, ← hdim]; rfl
      exact .all hcount (elementOffset_of_dim hdim.symm) hfield fun _ => hstride rfl
  | @proxy dim rbf hfield =>
      have hcount : erc.count = dim.dim := by rw [RegisterCluster.count, ← hdim]; rfl
      exact .all hcount (elementOffset_of_dim hdim.symm) hfield
        fun h => absurd h Bool.false_ne_true
  | @list dim _ hfields =>
      have hcount : erc.count = dim.dim := by rw [RegisterCluster.count, ← hdim]; rfl
      have hlength := hfields.length_eq
      rw [List.length_range] at hlength
      refine .each (hlength.symm.trans hcount.symm) fun k rbf hk => ?_
      obtain ⟨hlt, rfl⟩ := List.getElem?_eq_some_iff.mp hk
      obtain ⟨doc, name, heq⟩ := @List.Forall₂.get _ _ _ _ _ hfields k (by rw [List.length_range]; omega) hlt
      rw [List.get_eq_getElem, List.get_eq_getElem, List.getElem_range,
        ← elementOffset_of_dim hdim.symm k] at heq
      exact ⟨doc, name, ty, size, heq⟩

/-- **Elements.**  The fields a register or cluster is expanded to share out its
elements. -/
theorem expandErc_shares {path : BlockPath} {erc : RegisterCluster} {deriveInfo : DeriveInfo}
    {rbfs : List RegisterBlockField} (h : expandErc crates config erc deriveInfo path = .ok rbfs) :
    Shares crates config erc (ercBits config path erc) rbfs := by
  cases erc with
  | register reg =>
      obtain ⟨size, -, hplaced⟩ := expandRegister_placed (withContext_ok.mp h)
      have hoffset : reg.info.addressOffset = (RegisterCluster.register reg).elementOffset 0 := by
        cases reg <;> simp [RegisterCluster.elementOffset]
      rw [hoffset] at hplaced
      exact @Placed.shares _ _ path _ deriveInfo _ _ _ hplaced
  | cluster clust =>
      obtain ⟨ty, hplaced⟩ := expandCluster_placed (withContext_ok.mp h)
      have hoffset : clust.info.addressOffset = (RegisterCluster.cluster clust).elementOffset 0 := by
        cases clust <;> simp [RegisterCluster.elementOffset]
      rw [hoffset] at hplaced
      exact @Placed.shares _ _ path _ deriveInfo _ _ _ hplaced

/-- The first accessor of a field, which has methods, and the calls behind it. -/
theorem Shares.accessors {erc : RegisterCluster} {bits : Nat} {rbfs : List RegisterBlockField}
    (h : Shares crates config erc bits rbfs) {rbf : RegisterBlockField} (hrbf : rbf ∈ rbfs)
    (isRegionAUnion : Bool) :
    ∃ names, ((emittedAccessors isRegionAUnion rbf).flatMap AccessType.toTokens).map (·.name) =
      rbf.synField.ident :: names := by
  cases h with
  | each hlength hfields =>
      obtain ⟨k, hk⟩ := List.getElem?_of_mem hrbf
      obtain ⟨doc, name, ty, size, rfl⟩ := hfields k rbf hk
      cases isRegionAUnion with
      | true => exact ⟨_, rfl⟩
      | false => exact ⟨_, rfl⟩
  | all hcount hoffset hfield hstride =>
      obtain rfl := List.mem_singleton.mp hrbf
      obtain ⟨doc, note, elems, hacc, -⟩ := hfield.accessors_eq
      simp only [emittedAccessors, RegisterBlockField.accessor, hacc, List.head_cons,
        List.tail_cons, List.flatMap_cons, List.map_append]
      rename_i convertible
      cases isRegionAUnion <;> cases convertible <;> exact ⟨_, rfl⟩

/-- The number of elements a field is for. -/
def RegisterBlockField.elements (rbf : RegisterBlockField) : Nat :=
  match rbf.accessor.accessor with
  | .array a => a.dim
  | _ => 1

theorem IsArrayField.elements_eq {ty : String} {names : List String} {offset size : Nat}
    {dim : DimElement} {convertible : Bool} {rbf : RegisterBlockField}
    (h : IsArrayField ty names offset size dim convertible rbf) : rbf.elements = dim.dim := by
  obtain ⟨doc, note, elems, hacc, -⟩ := h.accessors_eq
  unfold RegisterBlockField.elements RegisterBlockField.accessor
  simp only [hacc, List.head_cons]
  cases convertible <;> rfl

/-- Every element is one of some field. -/
theorem Shares.exists_field {erc : RegisterCluster} {bits : Nat} {rbfs : List RegisterBlockField}
    (h : Shares crates config erc bits rbfs) {i : Nat} (hi : i < erc.count) :
    ∃ k rbf n, rbfs[k]? = some rbf ∧ n < rbf.elements ∧ i = k + n := by
  cases h with
  | each hlength hfields =>
      have hlt : i < rbfs.length := hlength ▸ hi
      obtain ⟨doc, name, ty, size, hrbf⟩ := hfields i rbfs[i] (List.getElem?_eq_getElem hlt)
      refine ⟨i, rbfs[i], 0, List.getElem?_eq_getElem hlt, ?_, rfl⟩
      rw [hrbf]
      exact Nat.one_pos
  | all hcount hoffset hfield hstride =>
      refine ⟨0, _, i, rfl, ?_, (Nat.zero_add i).symm⟩
      rw [hfield.elements_eq, ← hcount]
      exact hi

/-- What the accessors of field `k` of a child reach: the first one the `len` elements
from the `k`-th on, and each one behind it calls the first for one of them. -/
structure FieldReaches (members : List PlacedField) (erc : RegisterCluster) (k len : Nat)
    (first : AccessType) (rest : List AccessType) : Prop where
  len_pos : 0 < len
  within : k + len ≤ erc.count
  element : ∀ n, first.accessor.element k n = k + n
  tokens : first.toTokens ≠ []
  plain : ∀ m ∈ first.toTokens, ∀ name i, m.body ≠ .callElem name i
  reach : ∀ m ∈ first.toTokens, ∀ n,
    m.body.reach members n = if n < len then some (erc.elementOffset (k + n)) else none
  elems : ∀ a ∈ rest, ∃ e, a = .ref (.arrayElem e) ∧ k = 0 ∧ e.i < len ∧
    ∃ m ∈ first.toTokens, m.name = e.basename

/-- The field of one element. -/
theorem elementField_reaches {members : List PlacedField} {erc : RegisterCluster} {k : Nat}
    (hk : k < erc.count) {isRegionAUnion : Bool} {doc name ty : String} {size : Nat} {l : Layout}
    (hmember : isRegionAUnion = false → members.find? (·.name = name) =
      some ⟨name, erc.elementOffset k, .path ty, l⟩)
    (hshift : isRegionAUnion = true → erc.elementOffset k = erc.elementOffset 0) :
    ∃ first, emittedAccessors isRegionAUnion
        (elementField doc name ty (erc.elementOffset 0) (erc.elementOffset k) size) = [first] ∧
      FieldReaches members erc k 1 first [] := by
  have hone : ∀ n, (if n = 0 then some (erc.elementOffset k) else none) =
      if n < 1 then some (erc.elementOffset (k + n)) else none := by
    intro n
    by_cases hn : n = 0
    · rw [if_pos hn, if_pos (by omega), hn, Nat.add_zero]
    · rw [if_neg hn, if_neg (by omega)]
  cases isRegionAUnion with
  | false =>
      refine ⟨_, rfl, Nat.one_pos, hk, fun n => rfl, List.cons_ne_nil _ _, ?_, ?_, by simp⟩
      · intro m hm name i
        obtain rfl := List.mem_singleton.mp hm
        exact MethodBody.noConfusion
      · intro m hm n
        obtain rfl := List.mem_singleton.mp hm
        simp only [MethodBody.reach, hmember rfl, Option.bind_some]
        exact hone n
  | true =>
      refine ⟨_, rfl, Nat.one_pos, hk, fun n => rfl, List.cons_ne_nil _ _, ?_, ?_, by simp⟩
      · intro m hm name i
        obtain rfl := List.mem_singleton.mp hm
        exact MethodBody.noConfusion
      · intro m hm n
        obtain rfl := List.mem_singleton.mp hm
        simp only [MethodBody.reach, MethodBody.byteOffset, literalUnless_zero_getD]
        rw [← hshift rfl]
        exact hone n

/-- The field of an array. -/
theorem IsArrayField.reaches {members : List PlacedField} {erc : RegisterCluster} {dim : DimElement}
    (hcount : erc.count = dim.dim)
    (hoffset : ∀ i, erc.elementOffset i = erc.elementOffset 0 + i * dim.dimIncrement)
    {ty : String} {names : List String} {size : Nat} {convertible : Bool}
    {rbf : RegisterBlockField}
    (hfield : IsArrayField ty names (erc.elementOffset 0) size dim convertible rbf)
    {isRegionAUnion : Bool} {l : Layout}
    (hmember : isRegionAUnion = false → members.find? (·.name = rbf.synField.ident) =
      some ⟨rbf.synField.ident, erc.elementOffset 0, rbf.synField.ty, l⟩)
    (hstep : isRegionAUnion = false → convertible = true → ∀ n < dim.dim,
      l.size * n = n * dim.dimIncrement) :
    ∃ first, emittedAccessors isRegionAUnion rbf = first :: rbf.accessors.tail ∧
      FieldReaches members erc 0 dim.dim first rbf.accessors.tail := by
  obtain ⟨doc, note, elems, hacc, helems⟩ := hfield.accessors_eq
  set array : ArrayAccessor := ⟨doc, rbf.synField.ident, ty, erc.elementOffset 0, dim.dim,
    dim.dimIncrement, note⟩ with harray
  have htail : rbf.accessors.tail = elems := by rw [hacc, List.tail_cons]
  -- raw in a union, or where there is no inline array
  obtain ⟨first, hfirst, hemitted⟩ : ∃ first,
      (first = .rawRef (.array array) ∨
        first = .ref (.array array) ∧ isRegionAUnion = false ∧ convertible = true) ∧
      emittedAccessors isRegionAUnion rbf = first :: elems := by
    refine ⟨_, ?_, by rw [emittedAccessors, htail]⟩
    unfold RegisterBlockField.accessor
    simp only [hacc, List.head_cons]
    cases isRegionAUnion <;> cases convertible <;> simp [Accessor.rawIf, AccessType.raw]
  have haccessor : first.accessor = .array array := by
    rcases hfirst with rfl | ⟨rfl, -⟩
    · rfl
    · rfl
  have hnames : ∃ m ∈ first.toTokens, m.name = rbf.synField.ident := by
    rcases hfirst with rfl | ⟨rfl, -⟩
    · exact ⟨_, List.mem_cons_self, rfl⟩
    · exact ⟨_, List.mem_cons_self, rfl⟩
  have hreach : ∀ m ∈ first.toTokens, (∀ name i, m.body ≠ .callElem name i) ∧
      ∀ n, m.body.reach members n =
        if n < dim.dim then some (erc.elementOffset 0 + n * dim.dimIncrement) else none := by
    intro m hm
    rcases hfirst with rfl | ⟨rfl, hsingle, hconvertible⟩
    · simp only [AccessType.toTokens, List.mem_cons, List.not_mem_nil, or_false] at hm
      rcases hm with rfl | rfl
      · exact ⟨fun _ _ => MethodBody.noConfusion, fun n => by
          simp [MethodBody.reach, MethodBody.byteOffset, harray, Nat.mul_comm]⟩
      · exact ⟨fun _ _ => MethodBody.noConfusion, fun n => by
          simp [MethodBody.reach, MethodBody.byteOffset, harray, Nat.mul_comm]⟩
    · have hindex : ∀ n, (⟨rbf.synField.ident, erc.elementOffset 0, rbf.synField.ty, l⟩ :
          PlacedField).index n =
            if n < dim.dim then some (erc.elementOffset 0 + n * dim.dimIncrement) else none := by
        intro n
        rw [PlacedField.index, hfield.ty_eq, if_pos hconvertible]
        simp only
        by_cases hn : n < dim.dim
        · rw [if_pos hn, if_pos hn, hstep hsingle hconvertible n hn]
        · rw [if_neg hn, if_neg hn]
      simp only [AccessType.toTokens, List.mem_cons, List.not_mem_nil, or_false] at hm
      rcases hm with rfl | rfl
      · exact ⟨fun _ _ => MethodBody.noConfusion, fun n => by
          simp only [MethodBody.reach, harray, hmember hsingle, Option.bind_some, hindex]⟩
      · exact ⟨fun _ _ => MethodBody.noConfusion, fun n => by
          simp only [MethodBody.reach, harray, hmember hsingle, Option.bind_some, hindex]⟩
  refine ⟨first, by rw [hemitted, htail], hfield.dim_pos, by omega, fun n => by
    rw [haccessor]; rfl, ?_, fun m hm => (hreach m hm).1, fun m hm n => ?_, ?_⟩
  · obtain ⟨m, hm, -⟩ := hnames
    exact List.ne_nil_of_mem hm
  · rw [(hreach m hm).2 n, Nat.zero_add, hoffset n]
  · intro a ha
    rw [htail] at ha
    obtain ⟨i, hi⟩ := List.getElem?_of_mem ha
    obtain ⟨hlt, doc, name, -, rfl⟩ := helems i a hi
    exact ⟨_, rfl, rfl, hlt, hnames⟩

end Fields

/-! ## Names of methods and fields -/

section Names

variable {crates : Crates} {config : Config}

/-- The names of the fields stand among those of the methods. -/
theorem idents_sublist {regions : FieldRegions}
    (h : ∀ r ∈ regions, ∀ rbf ∈ r.rbfs, ∃ names,
      ((emittedAccessors r.isUnion rbf).flatMap AccessType.toTokens).map (·.name) =
        rbf.synField.ident :: names) :
    ((regions.flatMap (·.rbfs)).map (·.synField.ident)).Sublist
      (((regions.flatMap regionAccessors).flatMap AccessType.toTokens).map (·.name)) := by
  induction regions with
  | nil => exact List.Sublist.refl _
  | cons r rest ih =>
      simp only [List.flatMap_cons, List.flatMap_append, List.map_append]
      refine List.Sublist.append ?_ (ih fun s hs => h s (List.mem_cons_of_mem _ hs))
      have hr := h r List.mem_cons_self
      unfold regionAccessors
      generalize r.rbfs = rbfs at hr
      induction rbfs with
      | nil => exact List.Sublist.refl _
      | cons rbf rbfs ih =>
          obtain ⟨names, hnames⟩ := hr rbf List.mem_cons_self
          have hrest := ih fun f hf => hr f (List.mem_cons_of_mem _ hf)
          simp only [List.flatMap_cons, List.flatMap_append, List.map_append, hnames,
            List.map_cons, List.cons_append]
          exact (hrest.trans (List.sublist_append_right names _)).cons_cons _

/-- The methods of a block that is emitted. -/
theorem registerOrClusterBlock_methods {ercs : List RegisterCluster} {path : BlockPath}
    {deriveInfos : List DeriveInfo} {name : Option String} {doc : String} {size : Option Nat}
    {block : RegisterBlock}
    (h : registerOrClusterBlock crates config ercs path deriveInfos name doc size = .ok block) :
    ∃ fields regions, expand crates config ercs path deriveInfos = .ok fields ∧
      FieldRegions.addAll fields = .ok regions ∧
      block.methods = (regions.flatMap regionAccessors).flatMap AccessType.toTokens := by
  obtain ⟨fields, hexpand, h⟩ := gen_bind_ok.mp h
  obtain ⟨regions, hadd, h⟩ := gen_bind_ok.mp h
  obtain ⟨⟨items, stop⟩, -, h⟩ := gen_bind_ok.mp h
  obtain ⟨tail, -, h⟩ := gen_bind_ok.mp h
  obtain rfl := gen_pure_ok.mp h
  obtain ⟨idents, hresolve⟩ := resolveIdents_eq_map crates regions
  refine ⟨fields, regions, withContext_ok.mp hexpand, hadd, ?_⟩
  simp only [hresolve, List.flatMap_map]
  rfl

end Names

/-! ## The struct of a sound block -/

/-- What a sound block is made of. -/
structure BlockCode.Made (crates : Crates) (config : Config) (b : BlockCode)
    (size : Option Nat) (fields : List RegisterBlockField) : Prop where
  expanded : expand crates config (b.children.map ErcCode.erc) b.path b.deriveInfos = .ok fields
  partition : RegionPartition fields (b.regions crates config)
  members : BlockMembers config (b.children.map ErcCode.erc) b.path b.deriveInfos size fields
    b.struct.items
  methods : b.struct.methods =
    ((b.regions crates config).flatMap regionAccessors).flatMap AccessType.toTokens
  idents : (fields.map (·.synField.ident)).Nodup

section Sound

variable {crates : Crates} {config : Config} {env : TypeEnv} {b : BlockCode}

/-- The fields of a child, and the entry they belong to. -/
theorem child_fields {path : BlockPath} {children : List ErcCode} {deriveInfos : List DeriveInfo}
    {fields : List RegisterBlockField}
    (hexpand : expand crates config (children.map ErcCode.erc) path deriveInfos = .ok fields)
    {child : ErcCode} {deriveInfo : DeriveInfo}
    (hmem : (child, deriveInfo) ∈ children.zip deriveInfos) :
    expandErc crates config child.erc deriveInfo path =
        .ok (ercFields crates config path child.erc deriveInfo) ∧
      ∀ rbf ∈ ercFields crates config path child.erc deriveInfo, rbf ∈ fields := by
  have hentry : (child.erc, deriveInfo) ∈ (children.map ErcCode.erc).zip deriveInfos := by
    rw [List.zip_map_left]
    exact List.mem_map_of_mem (f := Prod.map ErcCode.erc id) hmem
  obtain ⟨hperm, hall⟩ := expand_ercFields hexpand
  refine ⟨hall _ hentry, fun rbf hrbf => ?_⟩
  exact hperm.mem_iff.mpr (List.mem_flatMap.mpr ⟨_, hentry, hrbf⟩)

theorem BlockCode.Sound.made (h : b.Sound crates config env) :
    ∃ size fields, b.Made crates config size fields := by
  obtain ⟨name, doc, size, hblock⟩ := h.emitted
  obtain ⟨fields, hexpand, hmembers⟩ := registerOrClusterBlock_ok hblock
  obtain ⟨fields', regions, hexpand', hadd, hmethods⟩ := registerOrClusterBlock_methods hblock
  obtain rfl : fields = fields' := Except.ok.inj (hexpand.symm.trans hexpand')
  have hregions : b.regions crates config = regions := by
    rw [BlockCode.regions, hexpand]
    simp [Except.toOption, hadd]
  have hpartition := FieldRegions.addAll_partition hadd
  rw [← hregions] at hmethods hpartition
  refine ⟨size, fields, hexpand, hpartition, hmembers, hmethods, ?_⟩
  have hsub := @idents_sublist (b.regions crates config) fun r hr rbf hrbf => by
    obtain ⟨erc, deriveInfo, -, rbfs, hrbfs, hmem⟩ :=
      expand_mem hexpand (hpartition.mem_fields hr hrbf)
    exact (expandErc_shares hrbfs).accessors hmem r.isUnion
  rw [← hmethods] at hsub
  exact ((hpartition.exact.map _).nodup_iff).mp (hsub.nodup h.distinct)

/-- Fields of one name are one field. -/
theorem BlockCode.Made.field_unique {size : Option Nat} {fields : List RegisterBlockField}
    (h : b.Made crates config size fields) {f g : RegisterBlockField} (hf : f ∈ fields)
    (hg : g ∈ fields) (hident : f.synField.ident = g.synField.ident) : f = g :=
  List.inj_on_of_nodup_map h.idents hf hg hident

/-- A field of a child is made of elements of the child's type. -/
theorem BlockCode.Made.elementLayout_eq {size : Option Nat} {fields : List RegisterBlockField}
    (h : b.Made crates config size fields) {child : ErcCode} {deriveInfo : DeriveInfo}
    (hmem : (child, deriveInfo) ∈ b.children.zip b.deriveInfos) {rbf : RegisterBlockField}
    (hrbf : rbf ∈ ercFields crates config b.path child.erc deriveInfo) :
    elementLayout (b.owners crates config env) rbf = child.layout crates config env := by
  have hperm := (expand_ercFields h.expanded).1
  rw [List.zip_map_left, List.flatMap_map] at hperm
  have hflat := hperm.nodup_iff.mp h.idents.of_map
  rw [BlockCode.owners, owners_eq, elementLayout]
  have hflat : (((b.children.zip b.deriveInfos).map fun entry =>
      (ercFields crates config b.path entry.1.erc entry.2,
        entry.1.layout crates config env)).flatMap Prod.fst).Nodup := by
    rw [List.flatMap_map]
    exact hflat
  rw [find?_of_nodup_flatMap hflat (List.mem_map_of_mem hmem) hrbf]

/-- The compiler pads nothing in front of a field. -/
theorem BlockCode.Sound.fits (h : b.Sound crates config env) {size : Option Nat}
    {fields : List RegisterBlockField} (hmade : b.Made crates config size fields) :
    Fits 0 (expectedMembers (b.owners crates config env) b.struct.items) := by
  refine fits_expectedMembers.mpr fun pos rbf hplaced => ?_
  obtain ⟨rfl, hrbf, halone⟩ := (hmade.members.field_mem pos rbf).mp hplaced
  have hflat := (expand_ercFields hmade.expanded).1.mem_iff.mp hrbf
  rw [List.zip_map_left, List.flatMap_map] at hflat
  obtain ⟨child, deriveInfo, hmem, hof, hlayout⟩ := field_layout hflat
  rw [BlockCode.owners, hlayout]
  obtain ⟨hfootprint, hproxy | helements⟩ := member_elements hmade.expanded hmem hof
  · obtain ⟨-, hunit, hzero⟩ := hproxy
    rw [hunit, hzero]
    exact ⟨rfl, Nat.one_dvd _⟩
  · obtain ⟨hno, n, -, hbytes, hall⟩ := helements
    obtain ⟨halign, hsize⟩ := hall (child.layout crates config env)
    obtain ⟨hbits, hstart⟩ := h.fields _ hmem _ hfootprint hno halone
    rw [halign, hsize, hbytes, hbits]
    exact ⟨rfl, hstart⟩

/-- Items that are expected back to back are placed back to back. -/
theorem placeItems_eq_zip (owners : List (List RegisterBlockField × Layout)) (start : Nat)
    (items : List BlockItem) :
    placeItems start items = ((expectedMembers owners items).starts start).zip items := by
  induction items generalizing start with
  | nil => rfl
  | cons item rest ih =>
      rw [placeItems, ih]
      rfl

/-- **Fields of the struct.**  The field a method borrows by name is at the offset of the
field in the block. -/
theorem BlockCode.Sound.find_member (h : b.Sound crates config env) {size : Option Nat}
    {fields : List RegisterBlockField} (hmade : b.Made crates config size fields)
    {child : ErcCode} {deriveInfo : DeriveInfo}
    (hmem : (child, deriveInfo) ∈ b.children.zip b.deriveInfos) {rbf : RegisterBlockField}
    (hrbf : rbf ∈ ercFields crates config b.path child.erc deriveInfo) {r : Region}
    (hr : r ∈ b.regions crates config) (hrr : rbf ∈ r.rbfs) (hsingle : r.isUnion = false) :
    (b.members crates config env).find? (·.name = rbf.synField.ident) =
      some ⟨rbf.synField.ident, rbf.offset, rbf.synField.ty, child.layout crates config env⟩ := by
  have hmembers : b.members crates config env =
      (placeItems 0 b.struct.items).filterMap (memberOf (b.owners crates config env)) := by
    rw [placeItems_eq_zip (b.owners crates config env), ← starts_of_fits (h.fits hmade),
      expectedMembers_snd]
    rfl
  have hfield := (child_fields hmade.expanded hmem).2 rbf hrbf
  have halone : Alone (blockFootprints config (b.children.map ErcCode.erc) b.path b.deriveInfos)
      rbf.footprint := by
    have hfootprints := expand_footprints hmade.expanded
    rw [Alone, ← (hfootprints.filter _).length_eq]
    exact (standalone_iff hmade.partition hfield).mp ⟨r, hr, hsingle, hrr⟩
  have hplaced := (hmade.members.field_mem _ rbf).mpr ⟨rfl, hfield, halone⟩
  rw [hmembers]
  cases hfind : ((placeItems 0 b.struct.items).filterMap
      (memberOf (b.owners crates config env))).find? (·.name = rbf.synField.ident) with
  | none =>
      have hno := List.find?_eq_none.mp hfind _ (List.mem_filterMap.mpr ⟨_, hplaced, rfl⟩)
      simp at hno
  | some m =>
      -- only the field itself has its name
      have hname := List.find?_some hfind
      obtain ⟨⟨pos, item⟩, hitem, hm⟩ := List.mem_filterMap.mp (List.mem_of_find?_eq_some hfind)
      cases item with
      | reserved name bytes => cases hm
      | field other =>
          obtain rfl := Option.some.inj hm
          obtain ⟨rfl, hother, -⟩ := (hmade.members.field_mem _ other).mp hitem
          obtain rfl := hmade.field_unique hother hfield (by simpa using hname)
          rw [hmade.elementLayout_eq hmem hrbf]

/-- No element of a list that is part of a union lies behind the first. -/
theorem BlockCode.Sound.shift_eq_zero (h : b.Sound crates config env) {size : Option Nat}
    {fields : List RegisterBlockField} (hmade : b.Made crates config size fields)
    {rbf : RegisterBlockField} (hrbf : rbf ∈ fields) {r : Region}
    (hr : r ∈ b.regions crates config) (hrr : rbf ∈ r.rbfs) (hunion : r.isUnion = true) :
    rbf.footprint.shift = 0 := by
  have hperm : NoShiftedOverlap (fields.map (·.footprint)) := by
    refine (List.Perm.pairwise_iff ?_ (expand_footprints hmade.expanded)).mpr h.noShift
    exact fun h hover => (h hover.symm).symm
  obtain ⟨i, hi, rfl⟩ := List.mem_iff_getElem.mp hr
  exact noShiftedOverlap_iff_touched.mp hperm rbf hrbf
    ((hmade.partition.isUnion_iff_touched hi hrr).mp hunion)

/-- The elements of an inline array follow each other at the increment. -/
theorem BlockCode.Sound.stride (h : b.Sound crates config env) {size : Option Nat}
    {fields : List RegisterBlockField} (hmade : b.Made crates config size fields)
    {child : ErcCode} {deriveInfo : DeriveInfo}
    (hmem : (child, deriveInfo) ∈ b.children.zip b.deriveInfos) {rbf : RegisterBlockField}
    (hrbf : rbf ∈ ercFields crates config b.path child.erc deriveInfo) {r : Region}
    (hr : r ∈ b.regions crates config) (hrr : rbf ∈ r.rbfs) (hsingle : r.isUnion = false)
    {ty : String} {dim : DimElement} (hty : rbf.synField.ty = .array ty dim.dim)
    (hstride : dim.dim = 1 ∨
      ercBits config b.path child.erc = dim.dimIncrement * bitsPerByte)
    {n : Nat} (hn : n < dim.dim) :
    (child.layout crates config env).size * n = n * dim.dimIncrement := by
  obtain ⟨hfootprint, ⟨-, hunit, -⟩ | ⟨hno, -⟩⟩ := member_elements hmade.expanded hmem hrbf
  · rw [hty] at hunit
    cases hunit
  · have hfield := (child_fields hmade.expanded hmem).2 rbf hrbf
    have halone : Alone (blockFootprints config (b.children.map ErcCode.erc) b.path b.deriveInfos)
        rbf.footprint := by
      rw [Alone, ← ((expand_footprints hmade.expanded).filter _).length_eq]
      exact (standalone_iff hmade.partition hfield).mp ⟨r, hr, hsingle, hrr⟩
    rw [(h.fields _ hmem _ hfootprint hno halone).1]
    rcases hstride with hone | hbits
    · obtain rfl : n = 0 := by omega
      rw [Nat.mul_zero, Nat.zero_mul]
    · rw [hbits, bitsPerByte, bytesOfBits_mul_eight, Nat.mul_comm]

/-- **One field.**  Its accessors reach its elements, at the offsets the device file gives
them. -/
theorem BlockCode.Sound.field_reaches (h : b.Sound crates config env) {size : Option Nat}
    {fields : List RegisterBlockField} (hmade : b.Made crates config size fields)
    {child : ErcCode} {deriveInfo : DeriveInfo}
    (hmem : (child, deriveInfo) ∈ b.children.zip b.deriveInfos) {k : Nat}
    {rbf : RegisterBlockField}
    (hk : (ercFields crates config b.path child.erc deriveInfo)[k]? = some rbf) {r : Region}
    (hr : r ∈ b.regions crates config) (hrr : rbf ∈ r.rbfs) :
    ∃ first, emittedAccessors r.isUnion rbf = first :: rbf.accessors.tail ∧
      FieldReaches (b.members crates config env) child.erc k rbf.elements first
        rbf.accessors.tail := by
  obtain ⟨hexpand, hfields⟩ := child_fields hmade.expanded hmem
  have hrbf := List.mem_of_getElem? hk
  have hshift := h.shift_eq_zero hmade (hfields rbf hrbf) hr hrr
  have hmember := h.find_member hmade hmem hrbf hr hrr
  have hstep := @BlockCode.Sound.stride crates config env b h _ _ hmade _ _ hmem _ hrbf _ hr hrr
  have hshares := expandErc_shares hexpand
  generalize ercFields crates config b.path child.erc deriveInfo = rbfs at hk hshares
  cases hshares with
  | each hlength hall =>
      obtain ⟨doc, name, ty, size, rfl⟩ := hall k rbf hk
      have hlt := (List.getElem?_eq_some_iff.mp hk).1
      have hle := elementOffset_zero_le child.erc k
      obtain ⟨first, hfirst, hreaches⟩ := @elementField_reaches (b.members crates config env)
        child.erc k (by omega) r.isUnion doc name ty size _ hmember fun hunion => by
          have hzero := hshift hunion
          rw [elementField_footprint] at hzero
          simp only at hzero
          omega
      exact ⟨first, hfirst, hreaches⟩
  | @all field dim ty size convertible hcount hoffset hfield hstride =>
      obtain ⟨hlt, rfl⟩ := List.getElem?_eq_some_iff.mp hk
      obtain rfl : k = 0 := by simpa using hlt
      simp only [List.getElem_cons_zero] at *
      rw [hfield.offset_eq] at hmember
      obtain ⟨first, hfirst, hreaches⟩ := @IsArrayField.reaches _ _ _ hcount hoffset _ _ _ _ _
        hfield r.isUnion _ hmember fun hsingle hconvertible n hn => by
          refine @hstep hsingle ty dim ?_ (hstride hconvertible) n hn
          rw [hfield.ty_eq, if_pos hconvertible]
      rw [hfield.elements_eq]
      exact ⟨first, hfirst, hreaches⟩

theorem BlockCode.call_of_plain {m : Method} (h : ∀ name i, m.body ≠ .callElem name i) (n : Nat) :
    b.call crates config env m n = m.body.reach (b.members crates config env) n := by
  unfold BlockCode.call
  split
  · next name i hbody => exact absurd hbody (h name i)
  · rfl

/-- Methods are found by their names. -/
theorem BlockCode.Sound.find_method (h : b.Sound crates config env) {m : Method}
    (hm : m ∈ b.struct.methods) : b.struct.methods.find? (·.name = m.name) = some m := by
  cases hfind : b.struct.methods.find? (·.name = m.name) with
  | none =>
      have hno := List.find?_eq_none.mp hfind m hm
      simp at hno
  | some other =>
      have hname : other.name = m.name := by simpa using List.find?_some hfind
      rw [List.inj_on_of_nodup_map h.distinct (List.mem_of_find?_eq_some hfind) hm hname]

/-- The methods of the accessors of a region are methods of the block. -/
theorem BlockCode.Made.method_mem {size : Option Nat} {fields : List RegisterBlockField}
    (hmade : b.Made crates config size fields) {r : Region} (hr : r ∈ b.regions crates config)
    {rbf : RegisterBlockField} (hrr : rbf ∈ r.rbfs) {a : AccessType}
    (ha : a ∈ emittedAccessors r.isUnion rbf) {m : Method} (hm : m ∈ a.toTokens) :
    m ∈ b.struct.methods := by
  rw [hmade.methods]
  exact List.mem_flatMap.mpr
    ⟨a, List.mem_flatMap.mpr ⟨r, hr, List.mem_flatMap.mpr ⟨rbf, hrr, ha⟩⟩, hm⟩

/-- **Calls.**  The calls of a sound block reach the elements of its registers and
clusters, all of them, at the offsets the device file gives them. -/
theorem BlockCode.Sound.calls_iff (h : b.Sound crates config env) {child : ErcCode} {i o : Nat} :
    b.Calls crates config env child i o ↔
      child ∈ b.children ∧ i < child.erc.count ∧ o = child.erc.elementOffset i := by
  obtain ⟨size, fields, hmade⟩ := h.made
  constructor
  · intro hcalls
    obtain ⟨m, n, ⟨-, deriveInfo, k, rbf, r, a, hmem, hk, hr, hrr, ha, hm, rfl⟩, hcall⟩ := hcalls
    refine ⟨(List.of_mem_zip hmem).1, ?_⟩
    obtain ⟨first, hemitted, hreaches⟩ := h.field_reaches hmade hmem hk hr hrr
    have hwithin := hreaches.within
    have hmethods := @BlockCode.Made.method_mem crates config b _ _ hmade r hr rbf hrr
    rw [hemitted] at ha hmethods
    rcases List.mem_cons.mp ha with rfl | ha
    · rw [call_of_plain (hreaches.plain m hm), hreaches.reach m hm n] at hcall
      rw [hreaches.element n]
      split at hcall
      · exact ⟨by omega, (Option.some.inj hcall).symm⟩
      · cases hcall
    · -- the element's accessor calls the array's
      obtain ⟨e, rfl, rfl, hlt, indexed, hindexed, hname⟩ := hreaches.elems a ha
      obtain rfl := List.mem_singleton.mp hm
      have hfind := h.find_method (hmethods List.mem_cons_self hindexed)
      rw [hname] at hfind
      simp only [BlockCode.call, hfind, Option.bind_some, hreaches.reach indexed hindexed, hlt,
        if_true, Nat.zero_add] at hcall
      split at hcall
      · exact ⟨show e.i < _ by omega, (Option.some.inj hcall).symm⟩
      · cases hcall
  · intro hall
    obtain ⟨hchild, hi, rfl⟩ := hall
    obtain ⟨j, hj, rfl⟩ := List.mem_iff_getElem.mp hchild
    have hj' : j < b.deriveInfos.length := Nat.lt_of_lt_of_le hj h.infos
    have hmem : (b.children[j], b.deriveInfos[j]) ∈ b.children.zip b.deriveInfos :=
      List.mem_iff_getElem.mpr ⟨j, by rw [List.length_zip]; omega, List.getElem_zip⟩
    obtain ⟨hexpand, hfields⟩ := child_fields hmade.expanded hmem
    obtain ⟨k, rbf, n, hk, hn, rfl⟩ := (expandErc_shares hexpand).exists_field hi
    obtain ⟨r, hr, hrr⟩ := List.mem_flatMap.mp
      (hmade.partition.exact.mem_iff.mpr (hfields rbf (List.mem_of_getElem? hk)))
    obtain ⟨first, hemitted, hreaches⟩ := h.field_reaches hmade hmem hk hr hrr
    obtain ⟨m, hm⟩ := List.exists_mem_of_ne_nil _ hreaches.tokens
    have hfirst : first ∈ emittedAccessors r.isUnion rbf := by
      rw [hemitted]
      exact List.mem_cons_self
    refine ⟨m, n, ⟨hmade.method_mem hr hrr hfirst hm, _, k, rbf, r, first, hmem, hk, hr, hrr,
      hfirst, hm, (hreaches.element n).symm⟩, ?_⟩
    rw [call_of_plain (hreaches.plain m hm), hreaches.reach m hm n, if_pos hn]

end Sound

end Svd2Rust
