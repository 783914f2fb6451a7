import Svd2Rust.ClusterRendering
import Svd2Rust.ReprC

/-!
# The structs of clusters as the compiler lays them out

`register_or_cluster_block` computes where every field of a block goes and pads
the gaps, but the block is a `repr(C)` struct, and the compiler places its
members by their types: `Reg<Ux>` like `Ux`, an array as often, `()` nowhere and
a cluster like its own struct.  `ErcCode.layout` is the layout a type gets in the
end.

`blockEnd` is where the emitted block ends by its own account; a struct has that
size exactly when the compiler adds no padding.
-/

namespace Svd2Rust

open OverlapChains ReprC

/-! ## Layouts of the emitted types -/

/-- What layouts depend on beside the code: the alignments the target gives the
integers, and the types of other blocks that re-exports name. -/
structure TypeEnv where
  logAlign : RustTy → Nat
  aligned : ∀ ty, 2 ^ logAlign ty ∣ bytesOfBits ty.bits
  register : RegisterPath → Layout
  cluster : BlockPath → Layout

/-- An integer of the target. -/
def TypeEnv.uint (env : TypeEnv) (ty : RustTy) : Layout :=
  ⟨bytesOfBits ty.bits, env.logAlign ty, env.aligned ty⟩

/-- `Reg<Ux>` has the layout of `Ux`. -/
def RegisterTy.layout (env : TypeEnv) : RegisterTy → Layout
  | .own _ code => env.uint code.rty
  | .reexport _ base => env.register base

/-- The type of a struct field. -/
def FieldTy.layout (element : Layout) : FieldTy → Layout
  | .path _ => element
  | .array _ len => element.array len
  | .unit => Layout.unit

section Layouts

variable (crates : Crates) (config : Config)

/-- The fields a register or cluster is expanded to. -/
def ercFields (path : BlockPath) (erc : RegisterCluster) (deriveInfo : DeriveInfo) :
    List RegisterBlockField :=
  (expandErc crates config erc deriveInfo path).toOption.getD []

/-- The fields of each register and cluster of a block, with the layout of its type. -/
def owners (path : BlockPath) (ercs : List RegisterCluster) (deriveInfos : List DeriveInfo)
    (layouts : List Layout) : List (List RegisterBlockField × Layout) :=
  ((ercs.zip deriveInfos).map fun (erc, deriveInfo) => ercFields crates config path erc deriveInfo).zip
    layouts

/-- A member of the struct: reserved bytes, or a field of the type of the register
or cluster it was expanded from. -/
def BlockItem.layout (owners : List (List RegisterBlockField × Layout)) : BlockItem → Layout
  | .reserved _ bytes => Layout.bytes bytes
  | .field rbf => match owners.find? fun owner => rbf ∈ owner.1 with
      | some owner => rbf.synField.ty.layout owner.2
      | none => Layout.unit

mutual

/-- The layout of the type of a register or cluster. -/
def ErcCode.layout (env : TypeEnv) : ErcCode → Layout
  | .register _ _ ty => ty.layout env
  | .reexport _ _ base => env.cluster base
  | .block path cluster deriveInfos children block =>
      struct (block.items.map (BlockItem.layout (owners crates config
        (path.newCluster cluster.info.name) (children.map ErcCode.erc) deriveInfos
        (allLayouts env children))))

def allLayouts (env : TypeEnv) : List ErcCode → List Layout
  | [] => []
  | code :: rest => code.layout env :: allLayouts env rest

end

end Layouts

/-! ## Where a block ends -/

/-- The bits a block reserves for one element of a register or cluster. -/
def ercBits (config : Config) (path : BlockPath) (erc : RegisterCluster) : Nat :=
  match erc with
  | .register reg => reg.info.properties.size.getD 0
  | .cluster cluster => clusterElementBits config cluster path

/-- How a register or cluster of a block is placed. -/
def ercPlacement (config : Config) (path : BlockPath) (erc : RegisterCluster)
    (deriveInfo : DeriveInfo) : Placement :=
  match erc with
  | .register reg => registerPlacement config reg path deriveInfo
  | .cluster cluster => clusterPlacement config cluster path

/-- A field of type `()`. -/
def Placement.isProxy : Placement → Bool
  | .proxy _ => true
  | _ => false

/-- Where the last of these ends. -/
def footprintsEnd (footprints : List Footprint) : Nat :=
  (footprints.map Footprint.end_).foldr max 0

/-- Where a block ends: at the size it is padded to, or with its last field. -/
def blockEnd (size : Option Nat) (footprints : List Footprint) : Nat :=
  size.getD (footprintsEnd footprints)

/-- No other of these shares a byte with it, so it is not part of a union. -/
def Alone (footprints : List Footprint) (p : Footprint) : Prop :=
  (footprints.filter fun q => Overlap Footprint.start Footprint.end_ p q).length ≤ 1

instance (footprints : List Footprint) (p : Footprint) : Decidable (Alone footprints p) :=
  inferInstanceAs (Decidable (_ ≤ _))

section Emitted

variable {crates : Crates} {config : Config}

/-- One round of a loop that returns. -/
theorem emitRegions_cons_ok {i start : Nat} {r : Region} {rest : FieldRegions}
    {items : List BlockItem} {stop : Nat}
    (h : emitRegions crates i start (r :: rest) = .ok (items, stop)) :
    ∃ gap body restItems, gapItems i start r = .ok gap ∧ regionItems crates i r = .ok body ∧
      emitRegions crates (i + 1) r.end_ rest = .ok (restItems, stop) ∧
      items = gap ++ body ++ restItems := by
  obtain ⟨gap, hgap, h⟩ := gen_bind_ok.mp h
  obtain ⟨body, hbody, h⟩ := gen_bind_ok.mp h
  obtain ⟨⟨restItems, restStop⟩, hrest, h⟩ := gen_bind_ok.mp h
  obtain ⟨rfl, rfl⟩ := Prod.mk.inj (gen_pure_ok.mp h)
  exact ⟨gap, body, restItems, hgap, hbody, hrest, rfl⟩

/-- The loop emits only fields outside unions. -/
theorem field_mem_emitRegions {i start : Nat} {regions : FieldRegions} {items : List BlockItem}
    {stop : Nat} (h : emitRegions crates i start regions = .ok (items, stop))
    {rbf : RegisterBlockField} (hrbf : .field rbf ∈ items) :
    ∃ r ∈ regions, r.isUnion = false ∧ rbf ∈ r.rbfs := by
  induction regions generalizing i start items with
  | nil =>
      cases gen_pure_ok.mp h
      simp at hrbf
  | cons r rest ih =>
      obtain ⟨gap, body, restItems, hgap, hbody, hrest, rfl⟩ := emitRegions_cons_ok h
      rcases List.mem_append.mp hrbf with hrbf | hrbf
      · rcases List.mem_append.mp hrbf with hrbf | hrbf
        · obtain ⟨pad, -, hgap⟩ := gen_bind_ok.mp hgap
          obtain rfl := gen_pure_ok.mp hgap
          split at hrbf
          · simp at hrbf
          · simp at hrbf
        · unfold regionItems at hbody
          cases hunion : r.isUnion with
          | true =>
              rw [if_pos hunion] at hbody
              obtain ⟨pad, -, hbody⟩ := gen_bind_ok.mp hbody
              obtain rfl := gen_pure_ok.mp hbody
              simp at hrbf
          | false =>
              rw [if_neg (by simp [hunion])] at hbody
              obtain rfl := gen_pure_ok.mp hbody
              exact ⟨r, List.mem_cons_self, hunion, by simpa using hrbf⟩
      · obtain ⟨s, hs, hsingle, hmem⟩ := ih hrest hrbf
        exact ⟨s, List.mem_cons_of_mem _ hs, hsingle, hmem⟩

/-- A loop that returns has not underflowed. -/
theorem neverUnderflows_of_emitRegions {i start : Nat} {regions : FieldRegions}
    {items : List BlockItem} {stop : Nat}
    (h : emitRegions crates i start regions = .ok (items, stop)) :
    NeverUnderflows start regions := by
  induction regions generalizing i start items with
  | nil => exact fun i hi => absurd hi (Nat.not_lt_zero i)
  | cons r rest ih =>
      obtain ⟨gap, -, restItems, hgap, -, hrest, -⟩ := emitRegions_cons_ok h
      obtain ⟨pad, hpad, -⟩ := gen_bind_ok.mp hgap
      exact neverUnderflows_cons.mpr ⟨(subU32_ok.mp hpad).1, ih hrest⟩

/-- It ends with the last region. -/
theorem emitRegions_stop {i start : Nat} {regions : FieldRegions} {items : List BlockItem}
    {stop : Nat} (h : emitRegions crates i start regions = .ok (items, stop)) :
    stop = (regions.getLast?.map (·.end_)).getD start := by
  induction regions generalizing i start items with
  | nil =>
      cases gen_pure_ok.mp h
      rfl
  | cons r rest ih =>
      obtain ⟨-, -, restItems, -, -, hrest, -⟩ := emitRegions_cons_ok h
      rw [ih hrest, List.getLast?_cons]
      cases rest.getLast? <;> rfl

/-- The fields that share a byte with one of a region are in that region. -/
theorem overlapping_in_region {fields : List RegisterBlockField} {regions : FieldRegions}
    (h : RegionPartition fields regions) {r : Region} (hr : r ∈ regions)
    {rbf : RegisterBlockField} (hrbf : rbf ∈ r.rbfs) :
    (fields.filter fun other => FieldOverlap rbf other).Perm
      (r.rbfs.filter fun other => FieldOverlap rbf other) := by
  obtain ⟨before, after, rfl⟩ := List.append_of_mem hr
  have hnone : ∀ s ∈ before ++ after, ∀ other ∈ s.rbfs, ¬ FieldOverlap rbf other := by
    intro s hs other hother hover
    have hpoint := overlap_iff.mp hover
    have hdisjoint : s.Disjoint r := by
      obtain ⟨-, hlater, hacross⟩ := List.pairwise_append.mp h.ordered
      rcases List.mem_append.mp hs with hs | hs
      · exact (hacross s hs r List.mem_cons_self).disjoint
      · exact ((List.pairwise_cons.mp hlater).1 s hs).disjoint.symm
    have hmem : s ∈ before ++ r :: after := by
      rcases List.mem_append.mp hs with hs | hs
      · exact List.mem_append_left _ hs
      · exact List.mem_append_right _ (List.mem_cons_of_mem _ hs)
    apply hdisjoint (max rbf.offset other.offset)
    constructor
    · exact ((h.wellFormed s hmem).hull.cover _).mpr ⟨other, hother, by omega, by omega⟩
    · exact ((h.wellFormed r hr).hull.cover _).mpr ⟨rbf, hrbf, by omega, by omega⟩
  have hempty : ∀ part : FieldRegions, (∀ s ∈ part, s ∈ before ++ after) →
      (part.flatMap (·.rbfs)).filter (fun other => FieldOverlap rbf other) = [] := by
    intro part hpart
    rw [List.filter_eq_nil_iff]
    intro other hother
    obtain ⟨s, hs, hmem⟩ := List.mem_flatMap.mp hother
    simpa using hnone s (hpart s hs) other hmem
  have hperm := (h.exact.filter fun other => decide (FieldOverlap rbf other)).symm
  rw [List.flatMap_append, List.flatMap_cons, List.filter_append, List.filter_append,
    hempty before fun s hs => List.mem_append_left _ hs,
    hempty after fun s hs => List.mem_append_right _ hs, List.nil_append, List.append_nil] at hperm
  exact hperm

/-- A field is outside unions exactly when it shares its bytes with no other. -/
theorem standalone_iff {fields : List RegisterBlockField} {regions : FieldRegions}
    (h : RegionPartition fields regions) {rbf : RegisterBlockField} (hrbf : rbf ∈ fields) :
    (∃ r ∈ regions, r.isUnion = false ∧ rbf ∈ r.rbfs) ↔
      Alone (fields.map (·.footprint)) rbf.footprint := by
  have hcount : Alone (fields.map (·.footprint)) rbf.footprint ↔
      (fields.filter fun other => FieldOverlap rbf other).length ≤ 1 := by
    rw [Alone, List.filter_map, List.length_map]
    rfl
  rw [hcount]
  constructor
  · intro hsingle
    obtain ⟨r, hr, hunion, hmem⟩ := hsingle
    obtain ⟨f, hf, -⟩ := (h.wellFormed r hr).of_single hunion
    rw [(overlapping_in_region h hr hmem).length_eq, hf]
    exact List.length_filter_le _ _
  · intro hone
    obtain ⟨r, hr, hmem⟩ := List.mem_flatMap.mp (h.exact.mem_iff.mpr hrbf)
    have hwf := h.wellFormed r hr
    refine ⟨r, hr, ?_, hmem⟩
    have hlength : r.rbfs.length ≤ 1 := by
      by_cases hzero : rbf.size = 0
      · rw [(hwf.empty_alone rbf hmem hzero).1]
        exact Nat.le_refl 1
      · rw [(overlapping_in_region h hr hmem).length_eq] at hone
        exact hwf.hull.length_le_one hmem (RegisterBlockField.span_of_size_ne hzero) hone
    unfold Region.isUnion
    simpa using hlength

theorem le_footprintsEnd {footprints : List Footprint} {p : Footprint} (h : p ∈ footprints) :
    p.end_ ≤ footprintsEnd footprints := by
  induction footprints with
  | nil => simp at h
  | cons q rest ih =>
      have hcons : footprintsEnd (q :: rest) = max q.end_ (footprintsEnd rest) := rfl
      rw [hcons]
      rcases List.mem_cons.mp h with rfl | h
      · exact Nat.le_max_left _ _
      · exact (ih h).trans (Nat.le_max_right _ _)

theorem footprintsEnd_le {footprints : List Footprint} {n : Nat}
    (h : ∀ p ∈ footprints, p.end_ ≤ n) : footprintsEnd footprints ≤ n := by
  induction footprints with
  | nil => exact Nat.zero_le n
  | cons q rest ih =>
      exact Nat.max_le.mpr ⟨h q List.mem_cons_self,
        ih fun p hp => h p (List.mem_cons_of_mem _ hp)⟩

theorem footprintsEnd_perm {footprints others : List Footprint} (h : footprints.Perm others) :
    footprintsEnd footprints = footprintsEnd others := by
  apply Nat.le_antisymm
  · exact footprintsEnd_le fun p hp => le_footprintsEnd (h.mem_iff.mp hp)
  · exact footprintsEnd_le fun p hp => le_footprintsEnd (h.mem_iff.mpr hp)

/-- A region ends with the last of its fields. -/
theorem Region.WellFormed.end_eq {r : Region} (h : r.WellFormed) :
    (∀ f ∈ r.rbfs, f.end_ ≤ r.end_) ∧ ∃ f ∈ r.rbfs, f.end_ = r.end_ := by
  have hle : ∀ f ∈ r.rbfs, f.end_ ≤ r.end_ := by
    intro f hf
    by_cases hzero : f.size = 0
    · obtain ⟨-, -, hend⟩ := h.empty_alone f hf hzero
      have hbytes := bytesOfBits_eq_zero.mpr hzero
      unfold RegisterBlockField.end_
      omega
    · have hspan := RegisterBlockField.span_of_size_ne hzero
      have hlast := (h.hull.cover (f.end_ - 1)).mpr ⟨f, hf, by omega, by omega⟩
      omega
  refine ⟨hle, ?_⟩
  obtain ⟨f, hf⟩ := List.exists_mem_of_ne_nil _ h.rbfs_ne
  by_cases hzero : f.size = 0
  · obtain ⟨-, -, hend⟩ := h.empty_alone f hf hzero
    have hbytes := bytesOfBits_eq_zero.mpr hzero
    refine ⟨f, hf, ?_⟩
    unfold RegisterBlockField.end_
    omega
  · -- some field holds the last byte
    have hspan := RegisterBlockField.span_of_size_ne hzero
    have hfirst := (h.hull.cover f.offset).mpr ⟨f, hf, Nat.le_refl _, by omega⟩
    obtain ⟨m, hm, hbyte⟩ := (h.hull.cover (r.end_ - 1)).mp ⟨by omega, by omega⟩
    have hmle := hle m hm
    exact ⟨m, hm, by omega⟩

/-- Regions that do not underflow end with the last field of all. -/
theorem regions_end {fields : List RegisterBlockField} {regions : FieldRegions}
    (h : RegionPartition fields regions) (hnever : NeverUnderflows 0 regions) :
    (regions.getLast?.map (·.end_)).getD 0 = footprintsEnd (fields.map (·.footprint)) := by
  symm
  rcases regions.eq_nil_or_concat with rfl | hconcat
  · have hnil : fields = [] := by
      have hperm := h.exact
      rw [List.flatMap_nil] at hperm
      exact hperm.nil_eq.symm
    rw [hnil]
    rfl
  · obtain ⟨init, last, rfl⟩ := hconcat
    rw [List.concat_eq_append] at h hnever ⊢
    rw [List.getLast?_concat]
    have hlast : last.WellFormed := h.wellFormed last (by simp)
    apply Nat.le_antisymm
    · apply footprintsEnd_le
      intro p hp
      obtain ⟨f, hf, rfl⟩ := List.mem_map.mp hp
      obtain ⟨r, hr, hmem⟩ := List.mem_flatMap.mp (h.exact.mem_iff.mpr hf)
      have hfr := (h.wellFormed r hr).end_eq.1 f hmem
      change f.end_ ≤ last.end_
      rcases List.mem_append.mp hr with hinit | hone
      · have hpair := hnever.pairwise h.wellFormed
        have hbefore := (List.pairwise_append.mp hpair).2.2 r hinit last (List.mem_singleton.mpr rfl)
        have hend := hlast.offset_le_end
        omega
      · rw [List.mem_singleton.mp hone] at hfr
        exact hfr
    · obtain ⟨f, hf, hend⟩ := hlast.end_eq.2
      have hfield : f ∈ fields :=
        h.exact.mem_iff.mp (List.mem_flatMap.mpr ⟨last, by simp, hf⟩)
      have hle := le_footprintsEnd (List.mem_map_of_mem (f := (·.footprint)) hfield)
      exact hend.symm.le.trans hle

/-! ## The members of a struct -/

/-- What the emitted members of a block are: they add up to where the block ends,
and the fields among them are those outside unions, each at its offset. -/
structure BlockMembers (config : Config) (ercs : List RegisterCluster) (path : BlockPath)
    (deriveInfos : List DeriveInfo) (size : Option Nat) (fields : List RegisterBlockField)
    (items : List BlockItem) : Prop where
  total : itemBytes items = blockEnd size (blockFootprints config ercs path deriveInfos)
  field_mem : ∀ pos rbf, (pos, BlockItem.field rbf) ∈ placeItems 0 items ↔
    pos = rbf.offset ∧ rbf ∈ fields ∧
      Alone (blockFootprints config ercs path deriveInfos) rbf.footprint

/-- Members keep their place among the members of a longer struct. -/
theorem exists_place {start : Nat} {items : List BlockItem} {item : BlockItem}
    (h : item ∈ items) : ∃ pos, (pos, item) ∈ placeItems start items := by
  induction items generalizing start with
  | nil => simp at h
  | cons first rest ih =>
      rcases List.mem_cons.mp h with rfl | h
      · exact ⟨start, List.mem_cons_self⟩
      · obtain ⟨pos, hpos⟩ := @ih (start + first.bytes) h
        exact ⟨pos, List.mem_cons_of_mem _ hpos⟩

theorem mem_of_place {start pos : Nat} {items : List BlockItem} {item : BlockItem}
    (h : (pos, item) ∈ placeItems start items) : item ∈ items := by
  induction items generalizing start with
  | nil => simp [placeItems] at h
  | cons first rest ih =>
      rcases List.mem_cons.mp h with heq | h
      · cases heq
        exact List.mem_cons_self
      · exact List.mem_cons_of_mem _ (ih h)

/-- **Members.**  A block that is emitted has these members. -/
theorem registerOrClusterBlock_ok {ercs : List RegisterCluster} {path : BlockPath}
    {deriveInfos : List DeriveInfo} {name : Option String} {doc : String} {size : Option Nat}
    {block : RegisterBlock}
    (h : registerOrClusterBlock crates config ercs path deriveInfos name doc size = .ok block) :
    ∃ fields, expand crates config ercs path deriveInfos = .ok fields ∧
      BlockMembers config ercs path deriveInfos size fields block.items := by
  obtain ⟨fields, hexpand, h⟩ := gen_bind_ok.mp h
  have hexpand := withContext_ok.mp hexpand
  obtain ⟨regions, hadd, h⟩ := gen_bind_ok.mp h
  have hpartition := FieldRegions.addAll_partition hadd
  obtain ⟨⟨items, stop⟩, hitems, h⟩ := gen_bind_ok.mp h
  obtain ⟨tail, htail, h⟩ := gen_bind_ok.mp h
  obtain rfl := gen_pure_ok.mp h
  obtain ⟨idents, hresolve⟩ := resolveIdents_eq_map crates regions
  rw [hresolve, emitRegions_map_ident] at hitems
  have hnever := neverUnderflows_of_emitRegions hitems
  obtain ⟨items', hitems', hexact⟩ := @emitRegions_ok crates 0 _ _ hnever hpartition.wellFormed
  have heq := Except.ok.inj (hitems.symm.trans hitems')
  rw [Prod.mk.injEq, Nat.zero_add] at heq
  obtain ⟨rfl, rfl⟩ := heq
  have hstop := (emitRegions_stop hitems).trans (regions_end hpartition hnever)
  obtain ⟨htotal, hnofield⟩ := endItems_ok htail
  have hperm := expand_footprints hexpand
  refine ⟨fields, hexpand, ?_, ?_⟩
  · have hbytes : itemBytes (items ++ tail) = itemBytes items + itemBytes tail := by
      simp [itemBytes]
    change itemBytes (items ++ tail) = _
    rw [hbytes]
    cases size with
    | none =>
        obtain rfl := gen_pure_ok.mp htail
        rw [blockEnd, Option.getD_none, ← footprintsEnd_perm hperm, ← hstop]
        simp [itemBytes]
    | some size =>
        exact htotal size rfl
  · intro pos rbf
    have halone : Alone (blockFootprints config ercs path deriveInfos) rbf.footprint ↔
        Alone (fields.map (·.footprint)) rbf.footprint := by
      rw [Alone, Alone, (hperm.filter _).length_eq]
    rw [halone]
    simp only [placeItems_append, List.mem_append, hnofield, or_false]
    constructor
    · intro hmem
      obtain ⟨r, hr, hunion, hrbf⟩ := field_mem_emitRegions hitems (mem_of_place hmem)
      have hfield := hpartition.mem_fields hr hrbf
      exact ⟨hexact.only_fields pos rbf hmem, hfield,
        (standalone_iff hpartition hfield).mp ⟨r, hr, hunion, hrbf⟩⟩
    · intro hmem
      obtain ⟨rfl, hfield, hone⟩ := hmem
      obtain ⟨r, hr, hunion, hrbf⟩ := (standalone_iff hpartition hfield).mpr hone
      exact hexact.fields r hr hunion rbf hrbf

/-! ## The types of the members -/

theorem ercFields_eq {path : BlockPath} {erc : RegisterCluster} {deriveInfo : DeriveInfo}
    {rbfs : List RegisterBlockField} (h : expandErc crates config erc deriveInfo path = .ok rbfs) :
    ercFields crates config path erc deriveInfo = rbfs := by
  rw [ercFields, h]
  rfl

/-- The fields of a block are those of its registers and clusters. -/
theorem expand_ercFields {ercs : List RegisterCluster} {path : BlockPath}
    {deriveInfos : List DeriveInfo} {fields : List RegisterBlockField}
    (h : expand crates config ercs path deriveInfos = .ok fields) :
    fields.Perm ((ercs.zip deriveInfos).flatMap fun entry =>
      ercFields crates config path entry.1 entry.2) ∧
    ∀ entry ∈ ercs.zip deriveInfos, expandErc crates config entry.1 entry.2 path =
      .ok (ercFields crates config path entry.1 entry.2) := by
  obtain ⟨expanded, hexpanded, hsorted⟩ := gen_bind_ok.mp h
  obtain rfl := gen_pure_ok.mp hsorted
  have hrel := gen_mapM_ok.mp hexpanded
  clear h hsorted hexpanded
  constructor
  · refine (List.perm_insertionSort _ _).trans ?_
    have hmap : expanded = (ercs.zip deriveInfos).map fun entry =>
        ercFields crates config path entry.1 entry.2 := by
      generalize ercs.zip deriveInfos = entries at hrel
      induction hrel with
      | nil => rfl
      | cons hab _ ih => rw [List.map_cons, ← ih, ercFields_eq hab]
    rw [hmap, List.flatMap_def]
  · intro entry hentry
    obtain ⟨i, hi, rfl⟩ := List.mem_iff_getElem.mp hentry
    have hfields : expandErc crates config (ercs.zip deriveInfos)[i].1
        (ercs.zip deriveInfos)[i].2 path = .ok _ :=
      hrel.get hi (by rw [← hrel.length_eq]; exact hi)
    rw [ercFields_eq hfields]
    exact hfields

/-- A register or cluster is placed as the inputs say. -/
theorem expandErc_placed {path : BlockPath} {erc : RegisterCluster} {deriveInfo : DeriveInfo}
    {rbfs : List RegisterBlockField} (h : expandErc crates config erc deriveInfo path = .ok rbfs) :
    ∃ ty names offset, Placed ty names offset (ercBits config path erc)
      (ercPlacement config path erc deriveInfo) rbfs := by
  cases erc with
  | register reg =>
      obtain ⟨size, hsize, hplaced⟩ := expandRegister_placed (withContext_ok.mp h)
      have hbits : ercBits config path (.register reg) = size := by
        rw [ercBits, hsize, Option.getD_some]
      rw [hbits]
      exact ⟨_, _, _, hplaced⟩
  | cluster clust =>
      obtain ⟨ty, hplaced⟩ := expandCluster_placed (withContext_ok.mp h)
      exact ⟨ty, _, _, hplaced⟩

/-- An inline array has one element, or elements without gaps between them. -/
theorem rustArray_bits {path : BlockPath} {erc : RegisterCluster} {deriveInfo : DeriveInfo}
    {dim : DimElement} (h : ercPlacement config path erc deriveInfo = .rustArray dim) :
    dim.dim = 1 ∨ ercBits config path erc = dim.dimIncrement * bitsPerByte := by
  cases erc with
  | register reg =>
      cases reg with
      | single info => cases h
      | array info dim' =>
          simp only [ercPlacement, registerPlacement] at h
          split at h
          · cases h
          split at h
          · cases h
            assumption
          split at h
          · cases h
          · cases h
  | cluster clust =>
      cases clust with
      | single info => cases h
      | array info dim' =>
          simp only [ercPlacement, clusterPlacement] at h
          split at h
          · cases h
          split at h
          · cases h
            assumption
          · cases h

/-- Its bytes are those of its elements. -/
theorem rustArray_bytes {bits : Nat} {dim : DimElement}
    (h : dim.dim = 1 ∨ bits = dim.dimIncrement * bitsPerByte) :
    bytesOfBits (bits * dim.dim) = bytesOfBits bits * dim.dim := by
  rcases h with hone | hbits
  · rw [hone, Nat.mul_one, Nat.mul_one]
  · rw [hbits, Nat.mul_right_comm]
    exact (bytesOfBits_mul_eight _).trans (by rw [bitsPerByte, bytesOfBits_mul_eight])

/-- **Types of fields.**  A field has type `()` where only raw pointers work, and else
is made of as many elements as it has bytes for. -/
theorem expandErc_field {path : BlockPath} {erc : RegisterCluster} {deriveInfo : DeriveInfo}
    {rbfs : List RegisterBlockField} (h : expandErc crates config erc deriveInfo path = .ok rbfs)
    {rbf : RegisterBlockField} (hrbf : rbf ∈ rbfs) :
    ((ercPlacement config path erc deriveInfo).isProxy = true ∧ rbf.synField.ty = .unit ∧
      rbf.size = 0) ∨
    ((ercPlacement config path erc deriveInfo).isProxy = false ∧ ∃ n, 0 < n ∧
      bytesOfBits rbf.size = bytesOfBits (ercBits config path erc) * n ∧
      ∀ l : Layout, (rbf.synField.ty.layout l).align = l.align ∧
        (rbf.synField.ty.layout l).size = l.size * n) := by
  obtain ⟨ty, names, offset, hplaced⟩ := expandErc_placed h
  have harray := @rustArray_bits config path erc deriveInfo
  generalize ercPlacement config path erc deriveInfo = placement at hplaced harray
  generalize ercBits config path erc = bits at hplaced harray
  cases hplaced with
  | single doc name =>
      obtain rfl := List.mem_singleton.mp hrbf
      exact Or.inr ⟨rfl, 1, Nat.one_pos, (Nat.mul_one _).symm,
        fun l => ⟨rfl, (Nat.mul_one _).symm⟩⟩
  | @rustArray dim _ hfield =>
      obtain rfl := List.mem_singleton.mp hrbf
      refine Or.inr ⟨rfl, dim.dim, hfield.dim_pos, ?_, fun l => ?_⟩
      · rw [hfield.size_eq, if_pos rfl]
        exact rustArray_bytes (harray rfl)
      · rw [hfield.ty_eq, if_pos rfl]
        exact ⟨rfl, rfl⟩
  | proxy hfield =>
      obtain rfl := List.mem_singleton.mp hrbf
      refine Or.inl ⟨rfl, ?_, ?_⟩
      · rw [hfield.ty_eq, if_neg Bool.false_ne_true]
      · rw [hfield.size_eq, if_neg Bool.false_ne_true]
  | list hfields =>
      obtain ⟨i, -, doc, name, rfl⟩ := exists_of_forall₂_mem hfields hrbf
      exact Or.inr ⟨rfl, 1, Nat.one_pos, (Nat.mul_one _).symm,
        fun l => ⟨rfl, (Nat.mul_one _).symm⟩⟩

end Emitted

/-! ## Structs without padding -/

/-- The member that a child of a block gets for one of its footprints, if the
compiler lays it out by its type: it is no `()` and not part of a union. -/
structure IsMember (config : Config) (path : BlockPath) (children : List ErcCode)
    (deriveInfos : List DeriveInfo) (child : ErcCode) (deriveInfo : DeriveInfo)
    (p : Footprint) : Prop where
  mem : (child, deriveInfo) ∈ children.zip deriveInfos
  no_proxy : (ercPlacement config path child.erc deriveInfo).isProxy = false
  footprint : p ∈ ercFootprints config child.erc deriveInfo path
  alone : Alone (blockFootprints config (children.map ErcCode.erc) path deriveInfos) p

/-- The compiler pads nothing: every member has the size the block reserves, and
starts and ends fall on multiples of its alignment. -/
structure Unpadded (crates : Crates) (config : Config) (env : TypeEnv) (path : BlockPath)
    (children : List ErcCode) (deriveInfos : List DeriveInfo) (size : Option Nat) : Prop where
  sizes : ∀ child deriveInfo p, IsMember config path children deriveInfos child deriveInfo p →
    (child.layout crates config env).size = bytesOfBits (ercBits config path child.erc)
  starts : ∀ child deriveInfo p, IsMember config path children deriveInfos child deriveInfo p →
    (child.layout crates config env).align ∣ p.start
  stops : ∀ child deriveInfo p, IsMember config path children deriveInfos child deriveInfo p →
    (child.layout crates config env).align ∣
      blockEnd size (blockFootprints config (children.map ErcCode.erc) path deriveInfos)

section Padding

variable {crates : Crates} {config : Config} {env : TypeEnv} {path : BlockPath}
  {children : List ErcCode} {deriveInfos : List DeriveInfo}

/-- The fields of the children with the layouts of their types. -/
theorem owners_eq (path : BlockPath) (children : List ErcCode) (deriveInfos : List DeriveInfo) :
    owners crates config path (children.map ErcCode.erc) deriveInfos
        (allLayouts crates config env children) =
      (children.zip deriveInfos).map fun entry =>
        (ercFields crates config path entry.1.erc entry.2, entry.1.layout crates config env) := by
  induction children generalizing deriveInfos with
  | nil => rfl
  | cons child rest ih =>
      cases deriveInfos with
      | nil => rfl
      | cons deriveInfo deriveInfos =>
          exact congrArg (List.cons _) (ih deriveInfos)

/-- In lists without common elements the first list that has an element is the only one. -/
theorem find?_of_nodup_flatMap {α β : Type} [DecidableEq α] {lists : List (List α × β)}
    (h : (lists.flatMap Prod.fst).Nodup) {entry : List α × β} (hentry : entry ∈ lists) {a : α}
    (ha : a ∈ entry.1) : lists.find? (fun e => a ∈ e.1) = some entry := by
  induction lists with
  | nil => simp at hentry
  | cons first rest ih =>
      rw [List.flatMap_cons, List.nodup_append] at h
      obtain ⟨-, hrest, hdisjoint⟩ := h
      rcases List.mem_cons.mp hentry with rfl | hentry
      · rw [List.find?_cons_of_pos (by simpa using ha)]
      · have hnot : a ∉ first.1 := by
          intro hfirst
          exact hdisjoint a hfirst a (List.mem_flatMap.mpr ⟨entry, hentry, ha⟩) rfl
        rw [List.find?_cons_of_neg (by simpa using hnot)]
        exact ih hrest hentry

/-- Every field has the type of a child it was expanded from. -/
theorem field_layout {rbf : RegisterBlockField}
    (hrbf : rbf ∈ (children.zip deriveInfos).flatMap fun entry =>
      ercFields crates config path entry.1.erc entry.2) :
    ∃ child deriveInfo, (child, deriveInfo) ∈ children.zip deriveInfos ∧
      rbf ∈ ercFields crates config path child.erc deriveInfo ∧
      (BlockItem.field rbf).layout (owners crates config path (children.map ErcCode.erc)
        deriveInfos (allLayouts crates config env children)) =
          rbf.synField.ty.layout (child.layout crates config env) := by
  rw [owners_eq]
  obtain ⟨entry, hentry, hmem⟩ := List.mem_flatMap.mp hrbf
  cases hfind : ((children.zip deriveInfos).map fun entry =>
      (ercFields crates config path entry.1.erc entry.2,
        entry.1.layout crates config env)).find? fun owner => rbf ∈ owner.1 with
  | none =>
      have hno := List.find?_eq_none.mp hfind _ (List.mem_map_of_mem hentry)
      simp [hmem] at hno
  | some owner =>
      obtain ⟨found, hfound, rfl⟩ := List.mem_map.mp (List.mem_of_find?_eq_some hfind)
      have hin := List.find?_some hfind
      refine ⟨found.1, found.2, hfound, by simpa using hin, ?_⟩
      rw [BlockItem.layout, hfind]

/-- With distinct fields it is the type of the child at hand. -/
theorem field_layout_of_nodup
    (hnodup : ((children.zip deriveInfos).flatMap fun entry =>
      ercFields crates config path entry.1.erc entry.2).Nodup)
    {child : ErcCode} {deriveInfo : DeriveInfo}
    (hmem : (child, deriveInfo) ∈ children.zip deriveInfos) {rbf : RegisterBlockField}
    (hrbf : rbf ∈ ercFields crates config path child.erc deriveInfo) :
    (BlockItem.field rbf).layout (owners crates config path (children.map ErcCode.erc)
      deriveInfos (allLayouts crates config env children)) =
        rbf.synField.ty.layout (child.layout crates config env) := by
  rw [owners_eq]
  have hflat : (((children.zip deriveInfos).map fun entry =>
      (ercFields crates config path entry.1.erc entry.2,
        entry.1.layout crates config env)).flatMap Prod.fst).Nodup := by
    rw [List.flatMap_map]
    exact hnodup
  rw [BlockItem.layout, find?_of_nodup_flatMap hflat (List.mem_map_of_mem hmem) hrbf]

/-- What the block expects of its members. -/
def expectedMembers (owners : List (List RegisterBlockField × Layout)) (items : List BlockItem) :
    Expected :=
  items.map fun item => (item.bytes, item.layout owners)

theorem expectedMembers_total (owners : List (List RegisterBlockField × Layout))
    (items : List BlockItem) : (expectedMembers owners items).total = itemBytes items := by
  rw [Expected.total, expectedMembers, List.map_map]
  rfl

theorem expectedMembers_snd (owners : List (List RegisterBlockField × Layout))
    (items : List BlockItem) :
    (expectedMembers owners items).map Prod.snd = items.map (BlockItem.layout owners) := by
  rw [expectedMembers, List.map_map]
  rfl

/-- Reserved bytes always fit. -/
theorem fits_expectedMembers {owners : List (List RegisterBlockField × Layout)} {start : Nat}
    {items : List BlockItem} :
    Fits start (expectedMembers owners items) ↔
      ∀ pos rbf, (pos, BlockItem.field rbf) ∈ placeItems start items →
        ((BlockItem.field rbf).layout owners).size = bytesOfBits rbf.size ∧
          ((BlockItem.field rbf).layout owners).align ∣ pos := by
  induction items generalizing start with
  | nil => simp [expectedMembers, Fits, placeItems]
  | cons item rest ih =>
      have hcons : Fits start (expectedMembers owners (item :: rest)) ↔
          (item.layout owners).size = item.bytes ∧ (item.layout owners).align ∣ start ∧
            Fits (start + item.bytes) (expectedMembers owners rest) := Iff.rfl
      rw [hcons, ih]
      constructor
      · intro h pos rbf hmem
        obtain ⟨hsize, halign, hrest⟩ := h
        rcases List.mem_cons.mp hmem with heq | hmem
        · cases heq
          exact ⟨hsize, halign⟩
        · exact hrest pos rbf hmem
      · intro h
        refine ⟨?_, ?_, fun pos rbf hmem => h pos rbf (List.mem_cons_of_mem _ hmem)⟩
        · cases item with
          | reserved name bytes => rfl
          | field rbf => exact (h start rbf List.mem_cons_self).1
        · cases item with
          | reserved name bytes => exact Nat.one_dvd start
          | field rbf => exact (h start rbf List.mem_cons_self).2

/-- How a field is made of elements: of none, as `()`, or of as many as it has bytes
for. -/
theorem member_elements {fields : List RegisterBlockField}
    (hexpand : expand crates config (children.map ErcCode.erc) path deriveInfos = .ok fields)
    {child : ErcCode} {deriveInfo : DeriveInfo}
    (hmem : (child, deriveInfo) ∈ children.zip deriveInfos) {rbf : RegisterBlockField}
    (hrbf : rbf ∈ ercFields crates config path child.erc deriveInfo) :
    rbf.footprint ∈ ercFootprints config child.erc deriveInfo path ∧
    (((ercPlacement config path child.erc deriveInfo).isProxy = true ∧
        rbf.synField.ty = .unit ∧ rbf.size = 0) ∨
      ((ercPlacement config path child.erc deriveInfo).isProxy = false ∧ ∃ n, 0 < n ∧
        bytesOfBits rbf.size = bytesOfBits (ercBits config path child.erc) * n ∧
        ∀ l : Layout, (rbf.synField.ty.layout l).align = l.align ∧
          (rbf.synField.ty.layout l).size = l.size * n)) := by
  have hentry : (child.erc, deriveInfo) ∈ (children.map ErcCode.erc).zip deriveInfos := by
    rw [List.zip_map_left]
    exact List.mem_map_of_mem (f := Prod.map ErcCode.erc id) hmem
  have hok := (expand_ercFields hexpand).2 _ hentry
  refine ⟨?_, expandErc_field hok hrbf⟩
  rw [← expandErc_footprints hok]
  exact List.mem_map_of_mem hrbf

/-- **No padding.**  A struct that the compiler does not pad ends where the block does. -/
theorem struct_size_of_unpadded {fields : List RegisterBlockField} {size : Option Nat}
    {items : List BlockItem}
    (hexpand : expand crates config (children.map ErcCode.erc) path deriveInfos = .ok fields)
    (hmembers : BlockMembers config (children.map ErcCode.erc) path deriveInfos size fields items)
    (h : Unpadded crates config env path children deriveInfos size) :
    (struct (items.map (BlockItem.layout (owners crates config path (children.map ErcCode.erc)
      deriveInfos (allLayouts crates config env children))))).size =
        blockEnd size (blockFootprints config (children.map ErcCode.erc) path deriveInfos) := by
  set O := owners crates config path (children.map ErcCode.erc) deriveInfos
    (allLayouts crates config env children) with hO
  have hfield : ∀ pos rbf, (pos, BlockItem.field rbf) ∈ placeItems 0 items →
      ((BlockItem.field rbf).layout O).size = bytesOfBits rbf.size ∧
        ((BlockItem.field rbf).layout O).align ∣ pos ∧
        ((BlockItem.field rbf).layout O).align ∣ itemBytes items := by
    intro pos rbf hplaced
    obtain ⟨rfl, hrbf, halone⟩ := (hmembers.field_mem pos rbf).mp hplaced
    have hflat := (expand_ercFields hexpand).1.mem_iff.mp hrbf
    rw [List.zip_map_left, List.flatMap_map] at hflat
    obtain ⟨child, deriveInfo, hmem, hof, hlayout⟩ := field_layout hflat
    rw [hO, hlayout, hmembers.total]
    obtain ⟨hfootprint, hproxy | helements⟩ := member_elements hexpand hmem hof
    · obtain ⟨-, hunit, hzero⟩ := hproxy
      rw [hunit, hzero]
      exact ⟨rfl, Nat.one_dvd _, Nat.one_dvd _⟩
    · obtain ⟨hno, n, -, hbytes, hall⟩ := helements
      obtain ⟨halign, hsize⟩ := hall (child.layout crates config env)
      have hmember : IsMember config path children deriveInfos child deriveInfo rbf.footprint :=
        ⟨hmem, hno, hfootprint, halone⟩
      rw [halign, hsize, hbytes, h.sizes _ _ _ hmember]
      exact ⟨rfl, h.starts _ _ _ hmember, h.stops _ _ _ hmember⟩
  have hsize := @struct_size_of_fits (expectedMembers O items)
    (fits_expectedMembers.mpr fun pos rbf hplaced =>
      ⟨(hfield pos rbf hplaced).1, (hfield pos rbf hplaced).2.1⟩) ?_
  · rw [expectedMembers_snd, expectedMembers_total, hmembers.total] at hsize
    exact hsize
  · intro m hm
    obtain ⟨item, hitem, rfl⟩ := List.mem_map.mp hm
    rw [expectedMembers_total]
    cases item with
    | reserved name bytes => exact Nat.one_dvd _
    | field rbf =>
        obtain ⟨pos, hplaced⟩ := @exists_place 0 items _ hitem
        exact (hfield pos rbf hplaced).2.2

/-- With distinct fields, the field that a child gets for a footprint is one of the
struct, made of elements of the child's type. -/
theorem IsMember.field {fields : List RegisterBlockField} {size : Option Nat}
    {items : List BlockItem}
    (hexpand : expand crates config (children.map ErcCode.erc) path deriveInfos = .ok fields)
    (hmembers : BlockMembers config (children.map ErcCode.erc) path deriveInfos size fields items)
    (hnodup : fields.Nodup) {child : ErcCode} {deriveInfo : DeriveInfo} {p : Footprint}
    (hmember : IsMember config path children deriveInfos child deriveInfo p) :
    ∃ rbf n, 0 < n ∧ (p.start, BlockItem.field rbf) ∈ placeItems 0 items ∧
      bytesOfBits rbf.size = bytesOfBits (ercBits config path child.erc) * n ∧
      ((BlockItem.field rbf).layout (owners crates config path (children.map ErcCode.erc)
        deriveInfos (allLayouts crates config env children))).size =
          (child.layout crates config env).size * n ∧
      ((BlockItem.field rbf).layout (owners crates config path (children.map ErcCode.erc)
        deriveInfos (allLayouts crates config env children))).align =
          (child.layout crates config env).align := by
  have hperm := (expand_ercFields hexpand).1
  rw [List.zip_map_left, List.flatMap_map] at hperm
  have hflat := hperm.nodup_iff.mp hnodup
  have hentry : (child.erc, deriveInfo) ∈ (children.map ErcCode.erc).zip deriveInfos := by
    rw [List.zip_map_left]
    exact List.mem_map_of_mem (f := Prod.map ErcCode.erc id) hmember.mem
  have hfootprint := hmember.footprint
  rw [← expandErc_footprints ((expand_ercFields hexpand).2 _ hentry)] at hfootprint
  obtain ⟨rbf, hof, rfl⟩ := List.mem_map.mp hfootprint
  have hrbf : rbf ∈ fields :=
    hperm.mem_iff.mpr (List.mem_flatMap.mpr ⟨_, hmember.mem, hof⟩)
  have hplaced := (hmembers.field_mem _ rbf).mpr ⟨rfl, hrbf, hmember.alone⟩
  have hlayout := @field_layout_of_nodup crates config env _ _ _ hflat _ _ hmember.mem _ hof
  obtain ⟨-, hproxy | helements⟩ := member_elements hexpand hmember.mem hof
  · rw [hmember.no_proxy] at hproxy
    cases hproxy.1
  · obtain ⟨-, n, hn, hbytes, hall⟩ := helements
    obtain ⟨halign, hsize⟩ := hall (child.layout crates config env)
    refine ⟨rbf, n, hn, hplaced, hbytes, ?_, ?_⟩
    · rw [hlayout, hsize]
    · rw [hlayout, halign]

end Padding

end Svd2Rust
