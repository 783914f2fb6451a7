import Svd2Rust.RawAccessors
import Mathlib.Data.List.Perm.Basic

/-!
# When adding a field fails

`add` looks its new region up by offset and gives up on a hit, unless the region
has no bytes.  Regions with bytes never share their offset, so a hit is a field
without bytes that was added earlier, at the very offset where the chain of
overlapping fields around the new one starts.  `exists_add_iff` says so for one
call, `exists_addAll_iff` for a list in any order, and `addsFields_iff` for the
sorted lists `expand` returns and for all orders of their fields.
-/

namespace Svd2Rust

open FallibleRuns OverlapChains SliceSearch

/-- The fields linked to `f` start at `x`. -/
structure StartsChain (fields : List RegisterBlockField) (f : RegisterBlockField) (x : Nat) :
    Prop where
  attained : ∃ g, FieldLinked fields f g ∧ g.offset = x
  least : ∀ g, FieldLinked fields f g → x ≤ g.offset

/-- Sorted by offset, as `expand` returns its fields. -/
def SortedByOffset (fields : List RegisterBlockField) : Prop :=
  fields.Pairwise fun a b => a.offset ≤ b.offset

/-- Every field ends inside the address space of the block. -/
def EndsFit (fields : List RegisterBlockField) : Prop :=
  ∀ f ∈ fields, f.end_ ≤ u32Max

/-- A field without bytes lies where the chain around a field with bytes starts. -/
def EmptyAtStart (fields : List RegisterBlockField) (z f : RegisterBlockField) : Prop :=
  z.size = 0 ∧ f.size ≠ 0 ∧ StartsChain fields f z.offset

/-- The same stretches, with the same fields in each. -/
def SameRegions (regions regions' : FieldRegions) : Prop :=
  ∀ r ∈ regions, ∃ r' ∈ regions',
    r'.offset = r.offset ∧ r'.end_ = r.end_ ∧ r'.rbfs.Perm r.rbfs

/-- Every sorted order of the fields can be added, and gives the same regions. -/
def AddsInAnyOrder (fields : List RegisterBlockField) : Prop :=
  ∀ fields', fields'.Perm fields → SortedByOffset fields' →
    ∃ regions regions', FieldRegions.addAll fields = .ok regions ∧
      FieldRegions.addAll fields' = .ok regions' ∧
      SameRegions regions regions' ∧ SameRegions regions' regions

/-! ## One call -/

namespace FieldRegions

/-- The region a call of `add` builds before it sorts the fields in it. -/
def built (regions : FieldRegions) (rbf : RegisterBlockField) : Region :=
  (regions.filter (meets rbf.offset rbf.end_)).foldl foldInto ⟨[rbf], rbf.offset, rbf.end_, none⟩

/-- A call returns when its region has no bytes or is not found. -/
theorem exists_add_iff_search {regions : FieldRegions} {rbf : RegisterBlockField} :
    (∃ regions', add regions rbf = .ok regions') ↔
      rbf.end_ ≤ u32Max ∧ ((built regions rbf).size = 0 ∨
        ∃ idx, binarySearch
          ((regions.filter fun f => !meets rbf.offset rbf.end_ f).map (·.offset))
          (built regions rbf).offset = .error idx) := by
  have hregion : (mergeLoop rbf.offset rbf.end_ 0 regions []
      ⟨[rbf], rbf.offset, rbf.end_, none⟩).2 = built regions rbf := mergeLoop_region ..
  have hkept := removeAll_mergeLoop rbf.offset rbf.end_ ⟨[rbf], rbf.offset, rbf.end_, none⟩
    regions []
  rw [List.nil_append, List.length_nil, List.nil_append] at hkept
  by_cases hend : rbf.end_ ≤ u32Max
  · have hadd : addU32 rbf.offset (bytesOfBits rbf.size) = .ok rbf.end_ := addU32_ok.mpr ⟨hend, rfl⟩
    simp only [add, hadd, bind, Except.bind, hkept, hregion]
    split
    · next idx hsearch =>
        split
        · next hsize => exact ⟨fun _ => ⟨hend, .inl hsize⟩, fun _ => ⟨_, rfl⟩⟩
        · next hsize =>
            have hsize : (built regions rbf).size ≠ 0 := hsize
            simp [hsize, hsearch]
    · next idx hsearch =>
        exact ⟨fun _ => ⟨hend, .inr ⟨idx, hsearch⟩⟩, fun _ => ⟨_, rfl⟩⟩
  · constructor
    · intro h
      obtain ⟨regions', hadd⟩ := h
      exact absurd (add_ok hadd).1 hend
    · intro h
      obtain ⟨hfit, -⟩ := h
      exact absurd hfit hend

variable {fields : List RegisterBlockField} {regions : FieldRegions} {rbf : RegisterBlockField}

theorem built_rbfs :
    (built regions rbf).rbfs =
      rbf :: (regions.filter (meets rbf.offset rbf.end_)).flatMap (·.rbfs) :=
  foldInto_rbfs _ _

theorem built_wellFormed (hinv : RegionPartition fields regions) :
    (built regions rbf).WellFormed :=
  merged_wellFormed hinv.wellFormed (.of_eq built_rbfs) rfl rfl

theorem self_mem_built : rbf ∈ (built regions rbf).rbfs := by
  rw [built_rbfs]
  exact List.mem_cons_self

/-- The built region holds the fields linked to the new one. -/
theorem mem_built_of_linked (hinv : RegionPartition fields regions) {g : RegisterBlockField}
    (hlinked : FieldLinked (fields ++ [rbf]) rbf g) : g ∈ (built regions rbf).rbfs := by
  refine linked_stays ?_ self_mem_built hlinked
  intro a ha b hb hover
  rw [built_rbfs] at ha ⊢
  rcases List.mem_append.mp hb with hbf | hbf
  · refine List.mem_cons_of_mem _ (List.mem_flatMap.mpr ?_)
    rcases List.mem_cons.mp ha with rfl | ha
    · -- the region of `b` is one the new field meets
      obtain ⟨r, hr, hbr⟩ := List.mem_flatMap.mp (hinv.exact.mem_iff.mpr hbf)
      obtain ⟨haa, hab, hba, hbb⟩ := overlap_iff.mp hover
      have hcover := ((hinv.wellFormed r hr).hull.cover (max a.offset b.offset)).mpr
        ⟨b, hbr, le_max_right _ _, max_lt hab hbb⟩
      refine ⟨r, List.mem_filter.mpr ⟨hr, meets_iff.mpr ?_⟩, hbr⟩
      omega
    · obtain ⟨r, hr, har⟩ := List.mem_flatMap.mp ha
      obtain ⟨i, hi, rfl⟩ := List.mem_iff_getElem.mp (List.mem_of_mem_filter hr)
      exact ⟨_, hr, hinv.mem_of_overlap hi har hbf hover⟩
  · rw [List.mem_singleton.mp hbf]
    exact List.mem_cons_self

/-- The built region starts where the chain of the new field does. -/
theorem startsChain_built (hinv : RegionPartition fields regions) (hsize : rbf.size ≠ 0) :
    StartsChain (fields ++ [rbf]) rbf (built regions rbf).offset := by
  have hwf : (built regions rbf).WellFormed := built_wellFormed hinv
  have hself : rbf ∈ (built regions rbf).rbfs := self_mem_built
  have hspan := RegisterBlockField.span_of_size_ne hsize
  have hnonempty := (hwf.hull.cover rbf.offset).mpr ⟨rbf, hself, le_rfl, hspan⟩
  have hsub : ∀ a ∈ (built regions rbf).rbfs, a ∈ fields ++ [rbf] := by
    intro a ha
    rw [built_rbfs] at ha
    rcases List.mem_cons.mp ha with rfl | ha
    · exact List.mem_append_right _ (List.mem_singleton.mpr rfl)
    · obtain ⟨r, hr, har⟩ := List.mem_flatMap.mp ha
      exact List.mem_append_left _ (hinv.mem_fields (List.mem_of_mem_filter hr) har)
  have hsized : ∀ g ∈ (built regions rbf).rbfs, (built regions rbf).offset ≤ g.offset := by
    intro g hg
    by_contra hlt
    by_cases hzero : g.size = 0
    · have := (hwf.empty_alone g hg hzero).2.1
      omega
    · have := (hwf.hull.cover g.offset).mpr
        ⟨g, hg, le_rfl, RegisterBlockField.span_of_size_ne hzero⟩
      omega
  refine ⟨?_, fun g hg => hsized g (mem_built_of_linked hinv hg)⟩
  obtain ⟨g, hg, hle, -⟩ := (hwf.hull.cover (built regions rbf).offset).mp ⟨le_rfl, by omega⟩
  exact ⟨g, (hwf.hull.linked rbf hself g hg).mono hsub, Nat.le_antisymm hle (hsized g hg)⟩

end FieldRegions

theorem StartsChain.unique {fields : List RegisterBlockField} {f : RegisterBlockField} {x y : Nat}
    (hx : StartsChain fields f x) (hy : StartsChain fields f y) : x = y := by
  obtain ⟨g, hg, rfl⟩ := hx.attained
  obtain ⟨g', hg', rfl⟩ := hy.attained
  exact Nat.le_antisymm (hx.least g' hg') (hy.least g hg)

namespace FieldRegions

/-- **One call.**  `add` returns exactly when the field fits and no earlier field
without bytes lies where the chain of the new one starts. -/
theorem exists_add_iff {fields : List RegisterBlockField} {regions : FieldRegions}
    {rbf : RegisterBlockField} (hinv : RegionPartition fields regions) :
    (∃ regions', add regions rbf = .ok regions') ↔
      rbf.end_ ≤ u32Max ∧ ∀ z ∈ fields, ¬ EmptyAtStart (fields ++ [rbf]) z rbf := by
  have hwf : (built regions rbf).WellFormed := built_wellFormed hinv
  have hself : rbf ∈ (built regions rbf).rbfs := self_mem_built
  have hkept : (regions.filter fun f => !meets rbf.offset rbf.end_ f).Pairwise Region.Before :=
    hinv.ordered.sublist List.filter_sublist
  have hsorted : ((regions.filter fun f => !meets rbf.offset rbf.end_ f).map
      (·.offset)).Pairwise (· ≤ ·) := List.pairwise_map.mpr (hkept.imp fun h => h.offset_le)
  rw [exists_add_iff_search, exists_error_iff hsorted]
  refine and_congr_right fun _ => ?_
  by_cases hsize : rbf.size = 0
  · have hempty : (built regions rbf).size = 0 := hwf.size_eq_zero.mpr ⟨rbf, hself, hsize⟩
    refine ⟨fun _ z _ hz => hz.2.1 hsize, fun _ => .inl hempty⟩
  · have hstart := startsChain_built hinv hsize
    have hne : (built regions rbf).size ≠ 0 := by
      have := (hwf.hull.cover rbf.offset).mpr
        ⟨rbf, hself, le_rfl, RegisterBlockField.span_of_size_ne hsize⟩
      unfold Region.size
      omega
    constructor
    · intro hcase z hz h
      obtain ⟨hzsize, -, hzstart⟩ := h
      rcases hcase with hzero | habsent
      · exact hne hzero
      · -- the region of `z` is never met, so its offset would be found
        obtain ⟨r, hr, hzr⟩ := List.mem_flatMap.mp (hinv.exact.mem_iff.mpr hz)
        obtain ⟨-, hoffset, hend⟩ := (hinv.wellFormed r hr).empty_alone z hzr hzsize
        have hnot : meets rbf.offset rbf.end_ r = false := by
          rw [← Bool.not_eq_true, meets_iff]
          omega
        apply habsent
        rw [hstart.unique hzstart, ← hoffset]
        exact List.mem_map_of_mem (List.mem_filter.mpr ⟨hr, by rw [hnot]; rfl⟩)
    · intro hno
      refine .inr fun hfound => ?_
      obtain ⟨r, hr, hoffset⟩ := List.mem_map.mp hfound
      have hrwf := hinv.wellFormed r (List.mem_of_mem_filter hr)
      have hdisjoint := kept_disjoint hinv hwf (.of_eq built_rbfs) r hr
      -- a region with bytes would share its first byte with the new one
      have hrsize : r.size = 0 := by
        by_contra hrne
        refine hdisjoint r.offset ⟨⟨le_rfl, ?_⟩, ?_, ?_⟩
        all_goals unfold Region.size at hne hrne; omega
      obtain ⟨z, hz, hzsize⟩ := hrwf.size_eq_zero.mp hrsize
      obtain ⟨-, hzoffset, -⟩ := hrwf.empty_alone z hz hzsize
      refine hno z (hinv.mem_fields (List.mem_of_mem_filter hr) hz) ⟨hzsize, hsize, ?_⟩
      rw [← hzoffset, hoffset]
      exact hstart

/-- **A run.**  All calls return exactly when each of them does. -/
theorem exists_addAll_iff (fields : List RegisterBlockField) :
    (∃ regions, addAll fields = .ok regions) ↔
      ∀ before f after, fields = before ++ f :: after →
        f.end_ ≤ u32Max ∧ ∀ z ∈ before, ¬ EmptyAtStart (before ++ [f]) z f :=
  @exists_run_iff _ _ _ _
    (fun before (f : RegisterBlockField) =>
      f.end_ ≤ u32Max ∧ ∀ z ∈ before, ¬ EmptyAtStart (before ++ [f]) z f) []
    (fun _ hrun => exists_add_iff (addAll_partition hrun)) fields

end FieldRegions

/-! ## Sorted fields -/

theorem exists_startsChain (fields : List RegisterBlockField) (f : RegisterBlockField) :
    ∃ x, StartsChain fields f x := by
  have hex : ∃ x, ∃ g, FieldLinked fields f g ∧ g.offset = x := ⟨f.offset, f, .refl, rfl⟩
  classical
  exact ⟨Nat.find hex, Nat.find_spec hex, fun g hg => Nat.find_min' hex ⟨g, hg, rfl⟩⟩

theorem StartsChain.perm {fields fields' : List RegisterBlockField} (hp : fields.Perm fields')
    {f : RegisterBlockField} {x : Nat} (h : StartsChain fields f x) : StartsChain fields' f x := by
  obtain ⟨g, hg, hx⟩ := h.attained
  exact ⟨⟨g, hg.mono fun _ ha => hp.mem_iff.mp ha, hx⟩,
    fun g hg => h.least g (hg.mono fun _ ha => hp.mem_iff.mpr ha)⟩

/-- Fields behind `f` do not change where its chain starts: one of them that reaches
a chain further in front would have to lie in front of `f` itself. -/
theorem startsChain_prefix {before after : List RegisterBlockField} {f : RegisterBlockField}
    (hsorted : SortedByOffset (before ++ f :: after)) (hsize : f.size ≠ 0) {x : Nat} :
    StartsChain (before ++ [f]) f x ↔ StartsChain (before ++ f :: after) f x := by
  have hforward : ∀ y, StartsChain (before ++ [f]) f y →
      StartsChain (before ++ f :: after) f y := by
    intro y h
    obtain ⟨g, hg, hy⟩ := h.attained
    have hmono : ∀ a ∈ before ++ [f], a ∈ before ++ f :: after := by
      intro a ha
      simp only [List.mem_append, List.mem_cons, List.not_mem_nil, or_false] at ha ⊢
      tauto
    refine ⟨⟨g, hg.mono hmono, hy⟩, fun a ha => ?_⟩
    have hfy : y ≤ f.offset := h.least f .refl
    -- the first byte of the chain belongs to `g`
    have hgspan : g.offset < g.end_ := by
      rcases Relation.ReflTransGen.cases_tail hg with rfl | ⟨b, -, -, -, hover⟩
      · exact RegisterBlockField.span_of_size_ne hsize
      · exact (overlap_iff.mp hover).2.2.2
    have hmem : a ∈ (f :: (before ++ f :: after)).filter fun b => y ≤ b.offset := by
      refine linked_stays ?_ (List.mem_filter.mpr ⟨List.mem_cons_self, decide_eq_true hfy⟩) ha
      intro b hb c hc hover
      have hby : y ≤ b.offset := of_decide_eq_true (List.mem_filter.mp hb).2
      refine List.mem_filter.mpr ⟨List.mem_cons_of_mem _ hc, decide_eq_true ?_⟩
      by_contra hcy
      obtain ⟨-, hbc, hcb, hcc⟩ := overlap_iff.mp hover
      have hcbefore : c ∈ before := by
        rcases List.mem_append.mp hc with hc | hc
        · exact hc
        · obtain ⟨-, hrest, -⟩ := List.pairwise_append.mp hsorted
          rcases List.mem_cons.mp hc with rfl | hc
          · exact absurd hfy hcy
          · have := List.rel_of_pairwise_cons hrest hc
            omega
      have hcg : FieldOverlap c g := overlap_iff.mpr ⟨by omega, by omega, by omega, hgspan⟩
      have hgmem : g ∈ before ++ [f] := by
        rcases Relation.ReflTransGen.cases_tail hg with rfl | ⟨b, -, -, hgmem, -⟩
        · exact List.mem_append_right _ (List.mem_singleton.mpr rfl)
        · exact hgmem
      have hlinked : FieldLinked (before ++ [f]) f c :=
        hg.tail ⟨hgmem, List.mem_append_left _ hcbefore, hcg.symm⟩
      exact hcy (h.least c hlinked)
    exact of_decide_eq_true (List.mem_filter.mp hmem).2
  constructor
  · exact hforward x
  · intro h
    obtain ⟨y, hy⟩ := exists_startsChain (before ++ [f]) f
    rwa [h.unique (hforward y hy)]

/-- A condition on every element and those in front of it is one on all pairs. -/
theorem pairwise_iff_split {α : Type} {R : α → α → Prop} {l : List α} :
    l.Pairwise R ↔ ∀ before a after, l = before ++ a :: after → ∀ b ∈ before, R b a := by
  constructor
  · intro h before a after heq b hb
    obtain rfl := heq
    exact (List.pairwise_append.mp h).2.2 b hb a List.mem_cons_self
  · intro h
    rw [List.pairwise_iff_getElem]
    intro i j hi hj hij
    refine h (l.take j) l[j] (l.drop (j + 1)) ?_ l[i] (List.mem_take_iff_getElem.mpr ?_)
    · rw [← List.drop_eq_getElem_cons hj, List.take_append_drop]
    · exact ⟨i, by omega, rfl⟩

/-- **Sorted lists.**  The fields can be added exactly when they fit and no field
without bytes precedes the fields of a chain that starts where it lies. -/
theorem exists_addAll_iff_sorted {fields : List RegisterBlockField}
    (hsorted : SortedByOffset fields) :
    (∃ regions, FieldRegions.addAll fields = .ok regions) ↔
      EndsFit fields ∧ fields.Pairwise fun z f => ¬ EmptyAtStart fields z f := by
  have hstart : ∀ before f after, fields = before ++ f :: after → ∀ z,
      (EmptyAtStart (before ++ [f]) z f ↔ EmptyAtStart fields z f) := by
    intro before f after heq z
    obtain rfl := heq
    unfold EmptyAtStart
    refine and_congr_right fun _ => and_congr_right fun hsize => ?_
    exact startsChain_prefix hsorted hsize
  rw [FieldRegions.exists_addAll_iff, pairwise_iff_split]
  constructor
  · intro h
    refine ⟨fun f hf => ?_, fun before f after hsplit z hz => ?_⟩
    · obtain ⟨before, after, hsplit⟩ := List.append_of_mem hf
      exact (h before f after hsplit).1
    · rw [← hstart before f after hsplit z]
      exact (h before f after hsplit).2 z hz
  · intro h before f after hsplit
    obtain ⟨hfit, hpair⟩ := h
    refine ⟨hfit f (by rw [hsplit]; simp), fun z hz => ?_⟩
    rw [hstart before f after hsplit z]
    exact hpair before f after hsplit z hz

/-! ## Orders of the same fields -/

namespace RegionPartition

variable {fields fields' : List RegisterBlockField} {regions regions' : FieldRegions}

/-- The region of a field with bytes holds exactly the fields linked to it. -/
theorem mem_region_iff_linked (h : RegionPartition fields regions) {r : Region} (hr : r ∈ regions)
    {f : RegisterBlockField} (hf : f ∈ r.rbfs) {g : RegisterBlockField} :
    g ∈ r.rbfs ↔ FieldLinked fields f g := by
  obtain ⟨i, hi, rfl⟩ := List.mem_iff_getElem.mp hr
  constructor
  · intro hg
    exact ((h.wellFormed _ hr).hull.linked f hf g hg).mono fun a ha => h.mem_fields hr ha
  · intro hlinked
    exact linked_stays (fun a ha b hb hover => h.mem_of_overlap hi ha hb hover) hf hlinked

/-- Equal lists of fields up to order have the same regions. -/
theorem sameRegions (h : RegionPartition fields regions) (h' : RegionPartition fields' regions')
    (hp : fields'.Perm fields) : SameRegions regions regions' := by
  intro r hr
  have hwf := h.wellFormed r hr
  obtain ⟨f, hf⟩ := List.exists_mem_of_ne_nil _ hwf.rbfs_ne
  obtain ⟨r', hr', hf'⟩ := List.mem_flatMap.mp
    (h'.exact.mem_iff.mpr (hp.mem_iff.mpr (h.mem_fields hr hf)))
  have hwf' := h'.wellFormed r' hr'
  refine ⟨r', hr', ?_⟩
  by_cases hsize : f.size = 0
  · obtain ⟨halone, hoffset, hend⟩ := hwf.empty_alone f hf hsize
    obtain ⟨halone', hoffset', hend'⟩ := hwf'.empty_alone f hf' hsize
    exact ⟨hoffset'.trans hoffset.symm, hend'.trans hend.symm, by rw [halone, halone']⟩
  · have hmem : ∀ g, g ∈ r'.rbfs ↔ g ∈ r.rbfs := by
      intro g
      rw [h.mem_region_iff_linked hr hf, h'.mem_region_iff_linked hr' hf']
      exact ⟨fun hg => hg.mono fun _ ha => hp.mem_iff.mp ha,
        fun hg => hg.mono fun _ ha => hp.mem_iff.mpr ha⟩
    have hsized : ∀ g ∈ r.rbfs, g.size ≠ 0 := by
      intro g hg hzero
      have halone := (hwf.empty_alone g hg hzero).1
      rw [halone, List.mem_singleton] at hf
      exact hsize (hf ▸ hzero)
    have hperm : r'.rbfs.Perm r.rbfs := by
      rw [List.perm_iff_count]
      intro g
      by_cases hg : g ∈ r.rbfs
      · obtain ⟨i, hi, rfl⟩ := List.mem_iff_getElem.mp hr
        obtain ⟨j, hj, rfl⟩ := List.mem_iff_getElem.mp hr'
        rw [← h.count_region hi hg (hsized g hg), ← h'.count_region hj ((hmem g).mpr hg)
          (hsized g hg), hp.count_eq]
      · rw [List.count_eq_zero.mpr hg, List.count_eq_zero.mpr fun hg' => hg ((hmem g).mp hg')]
    have hspan := (hwf.hull.cover f.offset).mpr
      ⟨f, hf, le_rfl, RegisterBlockField.span_of_size_ne hsize⟩
    obtain ⟨hoffset, hend⟩ := hwf.hull.unique (hwf'.hull.perm hperm) (by omega)
    exact ⟨hoffset, hend, hperm⟩

end RegionPartition

/-- A list can be sorted so that an element precedes all that do not lie before it. -/
theorem exists_sorted_front {fields : List RegisterBlockField} {z : RegisterBlockField}
    (hz : z ∈ fields) : ∃ before after, (before ++ z :: after).Perm fields ∧
      SortedByOffset (before ++ z :: after) ∧ ∀ g ∈ before, g.offset < z.offset := by
  have hsorted : SortedByOffset (FieldRegions.sortByOffset (z :: fields.erase z)) :=
    List.pairwise_insertionSort (fun a b : RegisterBlockField => a.offset ≤ b.offset) _
  have hperm : (FieldRegions.sortByOffset (z :: fields.erase z)).Perm fields :=
    (List.perm_insertionSort _ _).trans (List.perm_cons_erase hz).symm
  rw [FieldRegions.sortByOffset, List.insertionSort_cons, List.orderedInsert_eq_take_drop]
    at hsorted hperm
  refine ⟨_, _, hperm, hsorted, fun g hg => ?_⟩
  have hlt := List.all_eq_true.mp List.all_takeWhile g hg
  simpa using hlt

/-- **Any order.**  Every order of the fields can be added, with the same regions,
exactly when no field without bytes lies where a chain starts. -/
theorem addsInAnyOrder_iff {fields : List RegisterBlockField} (hsorted : SortedByOffset fields) :
    AddsInAnyOrder fields ↔
      EndsFit fields ∧ ∀ z ∈ fields, ∀ f ∈ fields, ¬ EmptyAtStart fields z f := by
  constructor
  · intro hany
    obtain ⟨regions, -, hadd, -⟩ := hany fields (.refl _) hsorted
    refine ⟨((exists_addAll_iff_sorted hsorted).mp ⟨regions, hadd⟩).1, ?_⟩
    intro z hz f hf h
    obtain ⟨hzsize, hfsize, hstart⟩ := h
    obtain ⟨before, after, hperm, hsorted', hfront⟩ := exists_sorted_front hz
    obtain ⟨-, regions', -, hadd', -⟩ := hany _ hperm hsorted'
    have hpair := ((exists_addAll_iff_sorted hsorted').mp ⟨regions', hadd'⟩).2
    -- `f` starts no earlier than its chain, so it stands behind `z`
    have hle : z.offset ≤ f.offset := hstart.least f .refl
    have hfafter : f ∈ after := by
      rcases List.mem_append.mp (hperm.mem_iff.mpr hf) with hbefore | hrest
      · exact absurd (hfront f hbefore) (not_lt.mpr hle)
      · rcases List.mem_cons.mp hrest with rfl | hafter
        · exact absurd hzsize hfsize
        · exact hafter
    obtain ⟨-, hbehind, -⟩ := List.pairwise_append.mp hpair
    exact List.rel_of_pairwise_cons hbehind hfafter ⟨hzsize, hfsize, hstart.perm hperm.symm⟩
  · intro h fields' hperm hsorted'
    obtain ⟨hfit, hno⟩ := h
    obtain ⟨regions, hadd⟩ := (exists_addAll_iff_sorted hsorted).mpr
      ⟨hfit, List.pairwise_of_forall_mem_list hno⟩
    have hno' : ∀ z ∈ fields', ∀ f ∈ fields', ¬ EmptyAtStart fields' z f := by
      intro z hz f hf h
      obtain ⟨hzsize, hfsize, hstart⟩ := h
      exact hno z (hperm.mem_iff.mp hz) f (hperm.mem_iff.mp hf)
        ⟨hzsize, hfsize, hstart.perm hperm⟩
    obtain ⟨regions', hadd'⟩ := (exists_addAll_iff_sorted hsorted').mpr
      ⟨fun f hf => hfit f (hperm.mem_iff.mp hf), List.pairwise_of_forall_mem_list hno'⟩
    have hinv := FieldRegions.addAll_partition hadd
    have hinv' := FieldRegions.addAll_partition hadd'
    exact ⟨regions, regions', hadd, hadd', hinv.sameRegions hinv' hperm,
      hinv'.sameRegions hinv hperm.symm⟩

/-- `expand` sorts its fields. -/
theorem expand_sorted {crates : Crates} {config : Config} {ercs : List RegisterCluster}
    {path : BlockPath} {deriveInfos : List DeriveInfo} {fields : List RegisterBlockField}
    (h : expand crates config ercs path deriveInfos = .ok fields) : SortedByOffset fields := by
  obtain ⟨expanded, -, h⟩ := gen_bind_ok.mp h
  rw [← gen_pure_ok.mp h]
  exact List.pairwise_insertionSort (fun a b : RegisterBlockField => a.offset ≤ b.offset) _

/-- Declared in another order, the registers and clusters expand to the same fields. -/
theorem expand_perm {crates : Crates} {config : Config} {ercs ercs' : List RegisterCluster}
    {path : BlockPath} {deriveInfos deriveInfos' : List DeriveInfo}
    {fields fields' : List RegisterBlockField}
    (hp : (ercs'.zip deriveInfos').Perm (ercs.zip deriveInfos))
    (h : expand crates config ercs path deriveInfos = .ok fields)
    (h' : expand crates config ercs' path deriveInfos' = .ok fields') : fields'.Perm fields := by
  obtain ⟨expanded, hrun, h⟩ := gen_bind_ok.mp h
  obtain ⟨expanded', hrun', h'⟩ := gen_bind_ok.mp h'
  rw [← gen_pure_ok.mp h, ← gen_pure_ok.mp h']
  obtain ⟨same, hsame, hperm⟩ := List.perm_comp_forall₂ hp (gen_mapM_ok.mp hrun)
  have hunique : expanded' = same := Except.ok.inj (hrun'.symm.trans (gen_mapM_ok.mpr hsame))
  subst hunique
  exact (List.perm_insertionSort _ _).trans (hperm.flatten.trans (List.perm_insertionSort _ _).symm)

/-- Where no field without bytes is in the way, the block gets the same regions in
whatever order its registers and clusters are declared. -/
theorem sameRegions_of_declared {crates : Crates} {config : Config}
    {ercs ercs' : List RegisterCluster} {path : BlockPath} {deriveInfos deriveInfos' : List DeriveInfo}
    {fields fields' : List RegisterBlockField}
    (hp : (ercs'.zip deriveInfos').Perm (ercs.zip deriveInfos))
    (h : expand crates config ercs path deriveInfos = .ok fields)
    (h' : expand crates config ercs' path deriveInfos' = .ok fields')
    (hfit : EndsFit fields) (hno : ∀ z ∈ fields, ∀ f ∈ fields, ¬ EmptyAtStart fields z f) :
    ∃ regions regions', FieldRegions.addAll fields = .ok regions ∧
      FieldRegions.addAll fields' = .ok regions' ∧
      SameRegions regions regions' ∧ SameRegions regions' regions :=
  (addsInAnyOrder_iff (expand_sorted h)).mpr ⟨hfit, hno⟩ fields' (expand_perm hp h h')
    (expand_sorted h')

/-- **Adding fields.**  A sorted list can be added exactly when its fields fit and no field
without bytes precedes one of a chain that starts where it lies; every order of the fields can
be added exactly when none lies where a chain starts.  A field without bytes is only found by
the binary search if its own start is hit, which panics; the condition names the pairs for
which the search hits a start. -/
theorem addsFields_iff (fields : List RegisterBlockField) (hsorted : SortedByOffset fields) :
    ((∃ regions, FieldRegions.addAll fields = .ok regions) ↔
      EndsFit fields ∧ fields.Pairwise fun z f => ¬ EmptyAtStart fields z f) ∧
    (AddsInAnyOrder fields ↔
      EndsFit fields ∧ ∀ z ∈ fields, ∀ f ∈ fields, ¬ EmptyAtStart fields z f) :=
  ⟨exists_addAll_iff_sorted hsorted, addsInAnyOrder_iff hsorted⟩

/-- A field without bytes inside a chain that starts in front of it is in nobody's way. -/
theorem addsFields_emptyInside :
    AddsInAnyOrder [plainField "a" 0 32, plainField "z" 2 0, plainField "b" 2 32] := by
  refine (addsFields_iff _ (by unfold SortedByOffset; decide)).2.mpr ⟨?_, ?_⟩
  · unfold EndsFit
    decide
  · intro z hz f hf h
    obtain ⟨hzsize, hfsize, hstart⟩ := h
    have hlinked : FieldLinked [plainField "a" 0 32, plainField "z" 2 0, plainField "b" 2 32]
        (plainField "b" 2 32) (plainField "a" 0 32) :=
      .single ⟨by simp, by simp, by decide⟩
    simp only [List.mem_cons, List.not_mem_nil, or_false] at hz hf
    rcases hz with rfl | rfl | rfl
    · cases hzsize
    · rcases hf with rfl | rfl | rfl
      · exact absurd (hstart.least _ .refl) (by decide)
      · exact hfsize rfl
      · exact absurd (hstart.least _ hlinked) (by decide)
    · cases hzsize

/-- Two registers at the same offset: an array with gaps and a single register. -/
def sharedOffset : List RegisterCluster :=
  [.register (.array (plainRegister "DR%s" 0 32) (countedDim 2 8)),
    .register (.single (plainRegister "CR" 0 32))]

/-- Declared in this order the block does not render, in the other it does. -/
theorem not_addsFields_sharedOffset :
    (∃ fields, expand asciiCrates defaultConfig sharedOffset (.new "TIM") [.root, .root] =
        .ok fields ∧ SortedByOffset fields ∧ ¬ ∃ regions, FieldRegions.addAll fields = .ok regions) ∧
    (∃ message, registerOrClusterBlock asciiCrates defaultConfig sharedOffset (.new "TIM")
      [.root, .root] none "Register block" none = bail message) ∧
    ∃ block, registerOrClusterBlock asciiCrates defaultConfig sharedOffset.reverse (.new "TIM")
      [.root, .root] none "Register block" none = .ok block := by
  refine ⟨⟨_, rfl, ?_, ?_⟩, ⟨_, rfl⟩, ⟨_, rfl⟩⟩
  · unfold SortedByOffset
    decide
  · intro h
    obtain ⟨regions, hadd⟩ := h
    cases hadd

end Svd2Rust
