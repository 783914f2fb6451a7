import Svd2Rust.BlockEmission
import Mathlib.Data.List.NodupEquivFin

/-!
# Addresses of raw accessors

A raw accessor adds the offset it recorded at expansion time, not the offset of
its field.  The two agree for single registers and clusters and for arrays.  The
elements of an expanded list all record the offset of the list, which shows when
an element behind the first ends up in a union
(`rawAccessorsExact_iff_noShiftedOverlap`).
-/

namespace Svd2Rust

open OverlapChains

/-- The address offset of element `i` of a register or cluster. -/
def RegisterCluster.elementOffset : RegisterCluster → Nat → Nat
  | .register (.single info), _ => info.addressOffset
  | .register (.array info dim), i => info.addressOffset + i * dim.dimIncrement
  | .cluster (.single info), _ => info.addressOffset
  | .cluster (.array info dim), i => info.addressOffset + i * dim.dimIncrement

/-- The name of the accessor of element `i` of an array. -/
def RegisterCluster.elementName (crates : Crates) (config : Config) :
    RegisterCluster → Nat → Option String
  | .register (.array info dim), i => (crates.registerExpand info dim)[i]?.map fun ri =>
      identText crates config (fullname ri.name info.alternateGroup config.ignoreGroups)
        .registerAccessor
  | .cluster (.array info dim), i => (crates.clusterExpand info dim)[i]?.map fun ci =>
      identText crates config ci.name .clusterAccessor
  | _, _ => none

/-- What a field of the expansion of `erc` promises in a region.  Field `k`
starts with element `k`; item `n` of a raw accessor is the `n`-th element from
there on, and the accessor of an array element calls the array's accessor with
the index of that element. -/
structure FieldAccessorsExact (crates : Crates) (config : Config) (erc : RegisterCluster)
    (k : Nat) (isRegionAUnion : Bool) (rbf : RegisterBlockField) : Prop where
  raw : ∀ a ∈ emittedAccessors isRegionAUnion rbf, a.isRaw = true → ∀ m ∈ a.toTokens,
    ∀ n offset, m.body.byteOffset n = some offset → offset = erc.elementOffset (k + n)
  elements : ∀ i a, rbf.accessors.tail[i]? = some a → ∃ first rest indexed,
    emittedAccessors isRegionAUnion rbf = first :: rest ∧ indexed ∈ first.toTokens ∧
    (∃ m, a.toTokens = [m] ∧ some m.name = erc.elementName crates config i ∧
      m.body = .callElem indexed.name i) ∧
    (first.isRaw = true → indexed.body.byteOffset i = some (erc.elementOffset (k + i)))

/-- Every field of a block keeps the promise in its region. -/
def RawAccessorsExact (crates : Crates) (config : Config) (ercs : List RegisterCluster)
    (path : BlockPath) (deriveInfos : List DeriveInfo) (regions : FieldRegions) : Prop :=
  ∀ erc deriveInfo, (erc, deriveInfo) ∈ ercs.zip deriveInfos →
    ∀ rbfs, expandErc crates config erc deriveInfo path = .ok rbfs →
      ∀ k rbf, rbfs[k]? = some rbf → ∀ r ∈ regions, rbf ∈ r.rbfs →
        FieldAccessorsExact crates config erc k r.isUnion rbf

/-- No element of an expanded list that lies behind the first overlaps another
entry. -/
def NoShiftedOverlap (footprints : List Footprint) : Prop :=
  footprints.Pairwise fun p q =>
    Overlap Footprint.start Footprint.end_ p q → p.shift = 0 ∧ q.shift = 0

instance (footprints : List Footprint) : Decidable (NoShiftedOverlap footprints) :=
  inferInstanceAs (Decidable (List.Pairwise _ _))

/-! ## Unions and overlaps -/

/-- A chain between different items leaves the first one. -/
theorem Linked.exists_other {ι α : Type*} [LinearOrder α] {lo hi : ι → α} {items : List ι}
    {a b : ι} (h : Linked lo hi items a b) (hne : a ≠ b) :
    ∃ c ∈ items, c ≠ a ∧ Overlap lo hi a c := by
  induction h using Relation.ReflTransGen.head_induction_on with
  | refl => exact absurd rfl hne
  | @head a c hstep _ ih =>
      by_cases hc : c = a
      · subst hc
        exact ih hne
      · exact ⟨c, hstep.2.1, hc, hstep.2.2⟩

/-- Another entry shares a byte with `f`: a different field, or a second one that
is equal to it. -/
def Touched (fields : List RegisterBlockField) (f : RegisterBlockField) : Prop :=
  (∃ c ∈ fields, c ≠ f ∧ FieldOverlap f c) ∨ (List.Duplicate f fields ∧ FieldOverlap f f)

namespace RegionPartition

variable {fields : List RegisterBlockField} {regions : FieldRegions}

/-- A field with bytes is in one region only, so copies of it meet there. -/
theorem count_region (h : RegionPartition fields regions) {i : Nat} (hi : i < regions.length)
    {f : RegisterBlockField} (hf : f ∈ regions[i].rbfs) (hsize : f.size ≠ 0) :
    fields.count f = regions[i].rbfs.count f := by
  have hother : ∀ j (hj : j < regions.length), j ≠ i → regions[j].rbfs.count f = 0 := by
    intro j hj hji
    rw [List.count_eq_zero]
    intro hfj
    exact hji ((h.same_region_iff_linked hj hi hfj hf hsize).mpr .refl)
  have hsplit : regions = regions.take i ++ regions[i] :: regions.drop (i + 1) := by
    rw [← List.drop_eq_getElem_cons hi, List.take_append_drop]
  have hbefore : ((regions.take i).flatMap (·.rbfs)).count f = 0 := by
    rw [List.count_eq_zero, List.mem_flatMap]
    intro h
    obtain ⟨r, hr, hfr⟩ := h
    obtain ⟨j, hj, rfl⟩ := List.mem_iff_getElem.mp hr
    rw [List.length_take] at hj
    rw [List.getElem_take] at hfr
    exact List.count_eq_zero.mp (hother j (by omega) (by omega)) hfr
  have hafter : ((regions.drop (i + 1)).flatMap (·.rbfs)).count f = 0 := by
    rw [List.count_eq_zero, List.mem_flatMap]
    intro h
    obtain ⟨r, hr, hfr⟩ := h
    obtain ⟨j, hj, rfl⟩ := List.mem_iff_getElem.mp hr
    rw [List.length_drop] at hj
    rw [List.getElem_drop] at hfr
    exact List.count_eq_zero.mp (hother (i + 1 + j) (by omega) (by omega)) hfr
  calc fields.count f
      = (regions.flatMap (·.rbfs)).count f := (h.exact.count_eq f).symm
    _ = ((regions.take i ++ regions[i] :: regions.drop (i + 1)).flatMap (·.rbfs)).count f := by
        rw [← hsplit]
    _ = regions[i].rbfs.count f := by
        rw [List.flatMap_append, List.flatMap_cons, List.count_append, List.count_append, hbefore,
          hafter, Nat.zero_add, Nat.add_zero]

/-- **Unions.**  The region of a field is a union exactly when another entry
shares a byte with the field. -/
theorem isUnion_iff_touched (h : RegionPartition fields regions) {i : Nat}
    (hi : i < regions.length) {f : RegisterBlockField} (hf : f ∈ regions[i].rbfs) :
    regions[i].isUnion = true ↔ Touched fields f := by
  have hwf := h.wellFormed _ (List.getElem_mem hi)
  have hlength : regions[i].isUnion = true ↔ 1 < regions[i].rbfs.length := by simp [Region.isUnion]
  rw [hlength]
  constructor
  · intro hmany
    have hsize : f.size ≠ 0 := by
      intro hzero
      rw [(hwf.empty_alone f hf hzero).1] at hmany
      simp at hmany
    have hspan := RegisterBlockField.span_of_size_ne hsize
    by_cases hall : ∀ g ∈ regions[i].rbfs, f = g
    · -- nothing but copies of `f`
      refine .inr ⟨?_, overlap_iff.mpr ⟨hspan, hspan, hspan, hspan⟩⟩
      rw [List.duplicate_iff_two_le_count, h.count_region hi hf hsize,
        List.count_eq_length.mpr hall]
      exact hmany
    · obtain ⟨g, hg, hne⟩ : ∃ g ∈ regions[i].rbfs, f ≠ g := by
        by_contra hno
        exact hall fun g hg => by_contra fun hne => hno ⟨g, hg, hne⟩
      obtain ⟨c, hc, hcf, hover⟩ := Linked.exists_other (hwf.hull.linked f hf g hg) hne
      exact .inl ⟨c, h.mem_fields (List.getElem_mem hi) hc, hcf, hover⟩
  · intro hcase
    rcases hcase with ⟨c, hc, hcf, hover⟩ | ⟨hdup, hover⟩
    · have hcmem := h.mem_of_overlap hi hf hc hover
      match hrbfs : regions[i].rbfs with
      | [] => simp [hrbfs] at hf
      | [g] =>
          rw [hrbfs, List.mem_singleton] at hf hcmem
          exact absurd (hcmem.trans hf.symm) hcf
      | _ :: _ :: _ => simp
    · have hsize : f.size ≠ 0 := by
        intro hzero
        have := (overlap_iff.mp hover).1
        have hbytes := bytesOfBits_eq_zero.mpr hzero
        unfold RegisterBlockField.end_ at this
        omega
      rw [List.duplicate_iff_two_le_count, h.count_region hi hf hsize] at hdup
      exact hdup.trans List.count_le_length

end RegionPartition

/-- The condition on the footprints, field by field. -/
theorem noShiftedOverlap_iff_touched {fields : List RegisterBlockField} :
    NoShiftedOverlap (fields.map (·.footprint)) ↔
      ∀ f ∈ fields, Touched fields f → f.footprint.shift = 0 := by
  unfold NoShiftedOverlap
  rw [List.pairwise_map]
  constructor
  · intro hpair f hf htouched
    rcases htouched with ⟨c, hc, hcf, hover⟩ | ⟨hdup, hover⟩
    · have hsymm : Std.Symm fun g g' : RegisterBlockField =>
          Overlap Footprint.start Footprint.end_ g.footprint g'.footprint →
            g.footprint.shift = 0 ∧ g'.footprint.shift = 0 :=
        ⟨fun _ _ h hover => (h hover.symm).symm⟩
      exact (hpair.forall hf hc (Ne.symm hcf) hover).1
    · exact (List.rel_of_pairwise_cons
        (hpair.sublist (List.duplicate_iff_sublist.mp hdup)) (by simp) hover).1
  · intro hall
    rw [List.pairwise_iff_getElem]
    intro i j hi hj hij hover
    have hover : FieldOverlap fields[i] fields[j] := hover
    by_cases heq : fields[i] = fields[j]
    · have hdup : List.Duplicate fields[i] fields :=
        List.duplicate_iff_exists_distinct_get.mpr ⟨⟨i, hi⟩, ⟨j, hj⟩, hij, rfl, heq⟩
      have hshift := hall _ (List.getElem_mem hi) (.inr ⟨hdup, by rw [← heq] at hover; exact hover⟩)
      exact ⟨hshift, heq ▸ hshift⟩
    · exact ⟨hall _ (List.getElem_mem hi) (.inl ⟨_, List.getElem_mem hj, Ne.symm heq, hover⟩),
        hall _ (List.getElem_mem hj) (.inl ⟨_, List.getElem_mem hi, heq, hover.symm⟩)⟩

/-! ## The fields of an expansion -/

section Fields

variable {crates : Crates} {config : Config}

/-- Field `k` of an expansion: the field of element `k`, which records the offset
of element 0, or the only field of an array. -/
inductive FieldAt (erc : RegisterCluster) (k : Nat) (rbf : RegisterBlockField)
    (names : List String) : Prop
  | element (doc name ty : String) (size : Nat)
      (h : rbf = elementField doc name ty (erc.elementOffset 0) (erc.elementOffset k) size)
  | array (hk : k = 0) (ty : String) (size : Nat) (dim : DimElement) (convertible : Bool)
      (hoffset : ∀ i, erc.elementOffset i = erc.elementOffset 0 + i * dim.dimIncrement)
      (h : IsArrayField ty names (erc.elementOffset 0) size dim convertible rbf)

/-- The fields of a placement, for any `erc` whose elements lie as it says. -/
theorem Placed.fieldAt {erc : RegisterCluster} {ty : String} {names : List String} {size : Nat}
    {placement : Placement} {rbfs : List RegisterBlockField}
    (hplaced : Placed ty names (erc.elementOffset 0) size placement rbfs)
    (hdim : ∀ dim, placement.dim = some dim →
      ∀ i, erc.elementOffset i = erc.elementOffset 0 + i * dim.dimIncrement)
    {k : Nat} {rbf : RegisterBlockField} (hk : rbfs[k]? = some rbf) :
    FieldAt erc k rbf names := by
  cases hplaced with
  | single doc name =>
      obtain ⟨hlt, rfl⟩ := List.getElem?_eq_some_iff.mp hk
      obtain rfl : k = 0 := by simpa using hlt
      exact .element doc name ty size rfl
  | rustArray h =>
      obtain ⟨hlt, rfl⟩ := List.getElem?_eq_some_iff.mp hk
      obtain rfl : k = 0 := by simpa using hlt
      exact .array rfl ty size _ true (hdim _ rfl) h
  | proxy h =>
      obtain ⟨hlt, rfl⟩ := List.getElem?_eq_some_iff.mp hk
      obtain rfl : k = 0 := by simpa using hlt
      exact .array rfl ty size _ false (hdim _ rfl) h
  | @list dim _ h =>
      obtain ⟨hlt, rfl⟩ := List.getElem?_eq_some_iff.mp hk
      have hrel := h.get (i := k) (by rw [h.length_eq]; exact hlt) hlt
      obtain ⟨doc, name, heq⟩ := hrel
      simp only [List.get_eq_getElem, List.getElem_range] at heq
      rw [← hdim dim rfl k] at heq
      exact .element doc name ty size heq

/-- The names of the element accessors of a register or cluster. -/
def ercElementNames (crates : Crates) (config : Config) : RegisterCluster → List String
  | .register reg => registerElementNames crates config reg
  | .cluster clust => clusterElementNames crates config clust

/-- **Expansions.**  The fields of every expansion.  Each field of the expansion knows the
element it stands for, which is the first one for an array that becomes one field. -/
theorem expandErc_fieldAt {erc : RegisterCluster} {deriveInfo : DeriveInfo} {path : BlockPath}
    {rbfs : List RegisterBlockField} (h : expandErc crates config erc deriveInfo path = .ok rbfs)
    {k : Nat} {rbf : RegisterBlockField} (hk : rbfs[k]? = some rbf) :
    FieldAt erc k rbf (ercElementNames crates config erc) := by
  cases erc with
  | register reg =>
      obtain ⟨size, -, hplaced⟩ := expandRegister_placed (withContext_ok.mp h)
      have hdim := registerPlacement_dim config reg path deriveInfo
      have hoffset : reg.info.addressOffset = (RegisterCluster.register reg).elementOffset 0 := by
        cases reg <;> simp [RegisterCluster.elementOffset]
      rw [hoffset] at hplaced
      refine hplaced.fieldAt (fun dim hsome => ?_) hk
      rw [hdim] at hsome
      cases reg with
      | single info => simp [MaybeArray.dim] at hsome
      | array info dim' =>
          obtain rfl : dim' = dim := by simpa [MaybeArray.dim] using hsome
          simp [RegisterCluster.elementOffset]
  | cluster clust =>
      obtain ⟨ty, hplaced⟩ := expandCluster_placed (withContext_ok.mp h)
      have hdim := clusterPlacement_dim config clust path
      have hoffset : clust.info.addressOffset = (RegisterCluster.cluster clust).elementOffset 0 := by
        cases clust <;> simp [RegisterCluster.elementOffset]
      rw [hoffset] at hplaced
      refine hplaced.fieldAt (fun dim hsome => ?_) hk
      rw [hdim] at hsome
      cases clust with
      | single info => simp [MaybeArray.dim] at hsome
      | array info dim' =>
          obtain rfl : dim' = dim := by simpa [MaybeArray.dim] using hsome
          simp [RegisterCluster.elementOffset]

theorem elementOffset_zero_le (erc : RegisterCluster) (k : Nat) :
    erc.elementOffset 0 ≤ erc.elementOffset k := by
  match erc with
  | .register (.single _) | .cluster (.single _) => exact Nat.le_refl _
  | .register (.array _ _) | .cluster (.array _ _) => simp [RegisterCluster.elementOffset]

/-- The element accessors carry the names of their elements. -/
theorem ercElementNames_getElem {erc : RegisterCluster} {i : Nat} {name : String}
    (h : (ercElementNames crates config erc)[i]? = some name) :
    some name = erc.elementName crates config i := by
  match erc with
  | .register (.single _) | .cluster (.single _) =>
      simp [ercElementNames, registerElementNames, clusterElementNames] at h
  | .register (.array info dim) =>
      simp only [ercElementNames, registerElementNames, registerElements] at h
      split at h
      · rw [RegisterCluster.elementName, ← h]
        simp [Function.comp_def]
      · simp at h
  | .cluster (.array info dim) =>
      simp only [ercElementNames, clusterElementNames, clusterElements] at h
      split at h
      · rw [RegisterCluster.elementName, ← h]
        simp [Function.comp_def]
      · simp at h

/-- The only accessor of an element's field is right in a union exactly when the
element is where the accessor says. -/
theorem elementField_exact_iff {erc : RegisterCluster} {k : Nat} {isRegionAUnion : Bool}
    {doc name ty : String} {size : Nat} :
    FieldAccessorsExact crates config erc k isRegionAUnion
        (elementField doc name ty (erc.elementOffset 0) (erc.elementOffset k) size) ↔
      (isRegionAUnion = true → erc.elementOffset k - erc.elementOffset 0 = 0) := by
  have hle := elementOffset_zero_le erc k
  constructor
  · intro h heq
    obtain rfl := heq
    have hmem : AccessType.rawRef (.reg ⟨doc, name, ty, erc.elementOffset 0⟩) ∈
        emittedAccessors true
          (elementField doc name ty (erc.elementOffset 0) (erc.elementOffset k) size) := by
      simp [emittedAccessors, RegisterBlockField.accessor, elementField, Accessor.rawIf,
        AccessType.raw]
    have heq := h.raw _ hmem rfl _ (List.mem_singleton.mpr rfl) 0 (erc.elementOffset 0)
      (by simp [MethodBody.byteOffset])
    rw [Nat.add_zero] at heq
    omega
  · intro h
    constructor
    · intro a ha hraw m hm n offset hoffset
      cases isRegionAUnion with
      | false =>
          obtain rfl : a = .ref (.reg ⟨doc, name, ty, erc.elementOffset 0⟩) := by
            simpa [emittedAccessors, RegisterBlockField.accessor, elementField,
              Accessor.rawIf] using ha
          simp [AccessType.isRaw] at hraw
      | true =>
          obtain rfl : a = .rawRef (.reg ⟨doc, name, ty, erc.elementOffset 0⟩) := by
            simpa [emittedAccessors, RegisterBlockField.accessor, elementField,
              Accessor.rawIf, AccessType.raw] using ha
          rw [AccessType.toTokens, List.mem_singleton] at hm
          subst hm
          simp only [MethodBody.byteOffset, literalUnless_zero_getD, Option.ite_none_right_eq_some,
            Option.some.injEq] at hoffset
          obtain ⟨rfl, rfl⟩ := hoffset
          have := h rfl
          rw [Nat.add_zero]
          omega
    · intro i a ha
      simp [elementField] at ha

/-- The accessors of an array are right in every region. -/
theorem IsArrayField.exact {erc : RegisterCluster} {isRegionAUnion : Bool} {ty : String}
    {size : Nat} {dim : DimElement} {convertible : Bool} {rbf : RegisterBlockField}
    (hoffset : ∀ i, erc.elementOffset i = erc.elementOffset 0 + i * dim.dimIncrement)
    (h : IsArrayField ty (ercElementNames crates config erc) (erc.elementOffset 0) size dim
      convertible rbf) : FieldAccessorsExact crates config erc 0 isRegionAUnion rbf := by
  obtain ⟨doc, note, elems, hacc, helems⟩ := h.accessors_eq
  set array : ArrayAccessor := ⟨doc, rbf.synField.ident, ty, erc.elementOffset 0, dim.dim,
    dim.dimIncrement, note⟩ with harray
  have htail : rbf.accessors.tail = elems := by rw [hacc, List.tail_cons]
  obtain ⟨first, hfirst, hemitted⟩ : ∃ first, (first = .ref (.array array) ∨
      first = .rawRef (.array array)) ∧
      emittedAccessors isRegionAUnion rbf = first :: elems := by
    refine ⟨_, ?_, by rw [emittedAccessors, htail]⟩
    unfold RegisterBlockField.accessor
    simp only [hacc, List.head_cons]
    cases isRegionAUnion <;> cases convertible <;> simp [Accessor.rawIf, AccessType.raw]
  constructor
  · intro a ha hraw m hm n offset hbyte
    rw [hemitted, List.mem_cons] at ha
    rcases ha with rfl | ha
    · rcases hfirst with rfl | rfl
      · simp [AccessType.isRaw] at hraw
      · have hbody : m.body.byteOffset n = if n < dim.dim then
            some (erc.elementOffset 0 + dim.dimIncrement * n) else none := by
          simp only [AccessType.toTokens, List.mem_cons, List.not_mem_nil, or_false] at hm
          rcases hm with rfl | rfl <;> simp [MethodBody.byteOffset, harray]
        rw [hbody] at hbyte
        split at hbyte
        · rw [Nat.zero_add, hoffset n, Nat.mul_comm n]
          exact (Option.some.inj hbyte).symm
        · exact absurd hbyte (by simp)
    · obtain ⟨i, hi⟩ := List.getElem?_of_mem ha
      obtain ⟨-, _, _, -, rfl⟩ := helems i a hi
      simp [AccessType.isRaw] at hraw
  · intro i a ha
    rw [htail] at ha
    obtain ⟨hlt, docElem, name, hname, rfl⟩ := helems i a ha
    have hindexed : ∃ indexed ∈ first.toTokens, indexed.name = rbf.synField.ident ∧
        (first.isRaw = true → indexed.body.byteOffset i = some (erc.elementOffset (0 + i))) := by
      rcases hfirst with rfl | rfl
      · exact ⟨_, List.mem_cons_self, rfl, by simp [AccessType.isRaw]⟩
      · refine ⟨_, List.mem_cons_self, rfl, fun _ => ?_⟩
        rw [Nat.zero_add, hoffset i, Nat.mul_comm i]
        simp [MethodBody.byteOffset, harray, hlt]
    obtain ⟨indexed, hmem, hident, hbyte⟩ := hindexed
    refine ⟨first, elems, indexed, hemitted, hmem, ⟨_, rfl, ?_, ?_⟩, hbyte⟩
    · exact ercElementNames_getElem hname
    · rw [hident]

/-- **Fields.**  The accessors of a field are right unless its region is a union
and the element lies behind the offset they record. -/
theorem FieldAt.exact_iff {erc : RegisterCluster} {k : Nat} {isRegionAUnion : Bool}
    {rbf : RegisterBlockField} (h : FieldAt erc k rbf (ercElementNames crates config erc)) :
    FieldAccessorsExact crates config erc k isRegionAUnion rbf ↔
      (isRegionAUnion = true → rbf.footprint.shift = 0) := by
  cases h with
  | element doc name ty size hrbf =>
      rw [hrbf]
      exact elementField_exact_iff
  | array hk ty size dim convertible hoffset harray =>
      subst hk
      rw [harray.footprint_eq]
      exact iff_of_true (harray.exact hoffset) fun _ => rfl

/-- Every field of a block comes from one of its entries. -/
theorem expand_mem {ercs : List RegisterCluster} {path : BlockPath} {deriveInfos : List DeriveInfo}
    {fields : List RegisterBlockField}
    (h : expand crates config ercs path deriveInfos = .ok fields) {f : RegisterBlockField}
    (hf : f ∈ fields) : ∃ erc deriveInfo, (erc, deriveInfo) ∈ ercs.zip deriveInfos ∧
      ∃ rbfs, expandErc crates config erc deriveInfo path = .ok rbfs ∧ f ∈ rbfs := by
  unfold expand at h
  obtain ⟨expanded, hexpanded, h⟩ := gen_bind_ok.mp h
  rw [← gen_pure_ok.mp h, FieldRegions.sortByOffset, (List.perm_insertionSort _ _).mem_iff,
    List.mem_flatten] at hf
  obtain ⟨rbfs, hrbfs, hf⟩ := hf
  obtain ⟨entry, hentry, hexpanded⟩ := exists_of_forall₂_mem (gen_mapM_ok.mp hexpanded) hrbfs
  exact ⟨entry.1, entry.2, hentry, rbfs, hexpanded, hf⟩

/-- **Raw accessor addresses.**  Every raw accessor of a block reaches the element it stands
for if and only if no element of an expanded list behind the first overlaps another entry.  A
raw accessor takes the offset of its own field.  In a union that is right for whatever starts
it, but the elements of a list are all given the offset of the array and differ by where the
struct puts them. -/
theorem rawAccessorsExact_iff_noShiftedOverlap {ercs : List RegisterCluster} {path : BlockPath}
    {deriveInfos : List DeriveInfo} {fields : List RegisterBlockField} {regions : FieldRegions}
    (hexpand : expand crates config ercs path deriveInfos = .ok fields)
    (hadd : FieldRegions.addAll fields = .ok regions) :
    RawAccessorsExact crates config ercs path deriveInfos regions ↔
      NoShiftedOverlap (blockFootprints config ercs path deriveInfos) := by
  have hpartition := FieldRegions.addAll_partition hadd
  have hperm : NoShiftedOverlap (blockFootprints config ercs path deriveInfos) ↔
      NoShiftedOverlap (fields.map (·.footprint)) := by
    apply List.Perm.pairwise_iff _ (expand_footprints hexpand).symm
    exact fun h hover => (h hover.symm).symm
  rw [hperm, noShiftedOverlap_iff_touched]
  constructor
  · intro hexact f hf htouched
    obtain ⟨erc, deriveInfo, hmem, rbfs, hrbfs, hfmem⟩ := expand_mem hexpand hf
    obtain ⟨k, hk⟩ := List.getElem?_of_mem hfmem
    obtain ⟨r, hr, hfr⟩ := List.mem_flatMap.mp (hpartition.exact.mem_iff.mpr hf)
    obtain ⟨i, hi, rfl⟩ := List.mem_iff_getElem.mp hr
    have hunion := (hpartition.isUnion_iff_touched hi hfr).mpr htouched
    exact (expandErc_fieldAt hrbfs hk).exact_iff.mp
      (hexact erc deriveInfo hmem rbfs hrbfs k f hk _ hr hfr) hunion
  · intro hshift erc deriveInfo hmem rbfs hrbfs k rbf hk r hr hrbf
    obtain ⟨i, hi, rfl⟩ := List.mem_iff_getElem.mp hr
    rw [(expandErc_fieldAt hrbfs hk).exact_iff, hpartition.isUnion_iff_touched hi hrbf]
    exact hshift rbf (hpartition.mem_fields hr hrbf)

end Fields

/-- Overlapping registers next to an array with gaps. -/
theorem rawAccessorsExact_union_and_proxy :
    ∃ fields regions,
      expand asciiCrates defaultConfig
        [.register (.single (plainRegister "CR" 0 32)), .register (.single (plainRegister "CRH" 2 16)),
          .register (.array (plainRegister "DR%s" 8 16) (countedDim 2 4))]
        (.new "TIM") [.root, .root, .root] = .ok fields ∧
      FieldRegions.addAll fields = .ok regions ∧
      RawAccessorsExact asciiCrates defaultConfig
        [.register (.single (plainRegister "CR" 0 32)), .register (.single (plainRegister "CRH" 2 16)),
          .register (.array (plainRegister "DR%s" 8 16) (countedDim 2 4))]
        (.new "TIM") [.root, .root, .root] regions :=
  ⟨_, _, rfl, rfl, (rawAccessorsExact_iff_noShiftedOverlap rfl rfl).mpr (by decide)⟩

/-- The second element of a list under `keep_list` overlaps another register, and
its accessor gives out the first. -/
theorem not_rawAccessorsExact_list_in_union :
    ∃ fields regions,
      expand asciiCrates { defaultConfig with keepList := true }
        [.register (.array (plainRegister "DR%s" 0 32) (countedDim 2 4)),
          .register (.single (plainRegister "DR1H" 6 16))]
        (.new "TIM") [.root, .root] = .ok fields ∧
      FieldRegions.addAll fields = .ok regions ∧
      ¬ RawAccessorsExact asciiCrates { defaultConfig with keepList := true }
        [.register (.array (plainRegister "DR%s" 0 32) (countedDim 2 4)),
          .register (.single (plainRegister "DR1H" 6 16))]
        (.new "TIM") [.root, .root] regions := by
  refine ⟨_, _, rfl, rfl, fun h => ?_⟩
  have hfield := h _ _ (.head _) _ rfl 1 _ rfl _ (.tail _ (.head _)) (.head _)
  exact absurd (hfield.raw _ (.head _) rfl _ (.head _) 0 0 rfl) (by decide)

end Svd2Rust
