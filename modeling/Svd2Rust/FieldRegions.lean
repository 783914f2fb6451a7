import Svd2Rust.Accessors
import Svd2Rust.FallibleRuns
import Svd2Rust.OverlapChains
import Svd2Rust.SliceSearch
import Mathlib.Data.List.Sort
import Mathlib.Data.List.Pairwise

/-!
# Field regions

`FieldRegions::add` merges the fields of a register block whose byte ranges
overlap.  `add` follows the source: one pass collects the regions the new field
meets and folds them into the new region, the collected ones are removed from
the back, and the new region goes where a binary search puts it.

The state invariant is `RegionPartition`; one call keeps it (`add_partition`),
and so does every successful sequence of calls from the empty vector.
-/

namespace Svd2Rust

open FallibleRuns OverlapChains SliceSearch

/-- `syn::Type` of a struct field: an element type, an array of it, or `()`. -/
inductive FieldTy where
  | path (name : String)
  | array (name : String) (len : Nat)
  | unit
deriving DecidableEq, Repr

/-- `syn::Field` as `new_syn_field` builds it. -/
structure SynField where
  ident : String
  ty : FieldTy
deriving DecidableEq, Repr

/-- `RegisterBlockField`; the first accessor always exists. -/
structure RegisterBlockField where
  synField : SynField
  offset : Nat
  size : Nat
  accessors : List AccessType
  accessors_ne : accessors ≠ []
deriving DecidableEq

/-- First byte after the field. -/
def RegisterBlockField.end_ (rbf : RegisterBlockField) : Nat :=
  rbf.offset + bytesOfBits rbf.size

/-- `Region`: fields that share one stretch `[offset, end_)` of the block. -/
structure Region where
  rbfs : List RegisterBlockField
  offset : Nat
  end_ : Nat
  ident : Option String
deriving DecidableEq

def Region.size (r : Region) : Nat := r.end_ - r.offset

def Region.isUnion (r : Region) : Bool := 1 < r.rbfs.length

abbrev FieldRegions := List Region

namespace FieldRegions

/-- The intersection test of the merging loop. -/
def meets (rbfStart rbfEnd : Nat) (f : Region) : Bool :=
  let begin := max f.offset rbfStart
  let stop := min f.end_ rbfEnd
  stop > begin

/-- Fold a met region into the new one. -/
def foldInto (newRegion f : Region) : Region :=
  { newRegion with
    offset := min newRegion.offset f.offset
    end_ := max newRegion.end_ f.end_
    rbfs := newRegion.rbfs ++ f.rbfs }

/-- The merging loop: the indices of the regions to remove, and the region that
replaces them. -/
def mergeLoop (rbfStart rbfEnd : Nat) :
    (idx : Nat) → FieldRegions → List Nat → Region → List Nat × Region
  | _, [], indices, newRegion => (indices, newRegion)
  | idx, f :: rest, indices, newRegion =>
      if meets rbfStart rbfEnd f then
        mergeLoop rbfStart rbfEnd (idx + 1) rest (indices ++ [idx]) (foldInto newRegion f)
      else mergeLoop rbfStart rbfEnd (idx + 1) rest indices newRegion

/-- `for idx in indices.iter().rev()  { self.regions.remove(*idx); }` -/
def removeAll (regions : FieldRegions) (indices : List Nat) : FieldRegions :=
  indices.reverse.foldl (fun regions idx => regions.eraseIdx idx) regions

/-- `sort_by_key` is a stable sort. -/
def sortByOffset (rbfs : List RegisterBlockField) : List RegisterBlockField :=
  rbfs.insertionSort (fun a b => a.offset ≤ b.offset)

/-- `FieldRegions::add`. -/
def add (regions : FieldRegions) (rbf : RegisterBlockField) : Gen FieldRegions := do
  let rbfStart := rbf.offset
  let rbfEnd ← addU32 rbfStart (bytesOfBits rbf.size)
  let (indices, merged) := mergeLoop rbfStart rbfEnd 0 regions [] ⟨[rbf], rbfStart, rbfEnd, none⟩
  let regions := removeAll regions indices
  let newRegion := { merged with rbfs := sortByOffset merged.rbfs }
  match binarySearch (regions.map (·.offset)) newRegion.offset with
  | .ok idx =>
      if newRegion.size = 0 then return regions.insertIdx idx newRegion
      else bail s!"we shouldn't exist in the vec, but are at idx {idx}"
  | .error idx => return regions.insertIdx idx newRegion

/-- The fields added one after the other to an empty `FieldRegions`. -/
def addAll (rbfs : List RegisterBlockField) : Gen FieldRegions :=
  rbfs.foldlM add []

end FieldRegions

/-- Two fields share a byte. -/
abbrev FieldOverlap : RegisterBlockField → RegisterBlockField → Prop :=
  Overlap RegisterBlockField.offset RegisterBlockField.end_

/-- A chain of overlapping fields of `fields` leads from one to the other. -/
abbrev FieldLinked (fields : List RegisterBlockField) :
    RegisterBlockField → RegisterBlockField → Prop :=
  Linked RegisterBlockField.offset RegisterBlockField.end_ fields

/-- The stretches of two regions have no byte in common. -/
def Region.Disjoint (r s : Region) : Prop :=
  ∀ x, ¬ ((r.offset ≤ x ∧ x < r.end_) ∧ (s.offset ≤ x ∧ x < s.end_))

theorem Region.Disjoint.symm {r s : Region} (h : r.Disjoint s) : s.Disjoint r :=
  fun x hx => h x ⟨hx.2, hx.1⟩

instance : Std.Symm Region.Disjoint := ⟨fun _ _ h => h.symm⟩

/-- One region of a well-formed vector: its stretch is the union of its fields'
byte ranges and the fields hang together.  A field without bytes is alone. -/
structure Region.WellFormed (r : Region) : Prop where
  rbfs_ne : r.rbfs ≠ []
  hull : IsHull RegisterBlockField.offset RegisterBlockField.end_ r.rbfs r.offset r.end_
  empty_alone : ∀ f ∈ r.rbfs, f.size = 0 → r.rbfs = [f] ∧ r.offset = f.offset ∧ r.end_ = f.offset

/-- Regions of a vector in their order: sorted by offset, and a region with
bytes ends before the next one starts unless that one has no bytes. -/
structure Region.Before (r s : Region) : Prop where
  offset_le : r.offset ≤ s.offset
  same_offset : r.offset = s.offset → r.size = 0
  apart : r.size ≠ 0 → s.size ≠ 0 → r.end_ ≤ s.offset

/-- The state invariant of `FieldRegions` after `fields` were added. -/
structure RegionPartition (fields : List RegisterBlockField) (regions : FieldRegions) : Prop where
  exact : (regions.flatMap (·.rbfs)).Perm fields
  ordered : regions.Pairwise Region.Before
  wellFormed : ∀ r ∈ regions, r.WellFormed

/-! ## One call of `add` -/

namespace FieldRegions

theorem meets_iff {s e : Nat} {f : Region} :
    meets s e f = true ↔ max f.offset s < min f.end_ e := by
  simp [meets]

/-- The loop folds exactly the met regions, in their order. -/
theorem mergeLoop_region (s e : Nat) (regions : FieldRegions) (idx : Nat) (indices : List Nat)
    (newRegion : Region) :
    (mergeLoop s e idx regions indices newRegion).2 =
      (regions.filter (meets s e)).foldl foldInto newRegion := by
  induction regions generalizing idx indices newRegion with
  | nil => rfl
  | cons f rest ih =>
      unfold mergeLoop
      by_cases hmeet : meets s e f = true
      · simp [hmeet, ih]
      · simp [hmeet, ih]

/-- Indices collected earlier stay in front. -/
theorem mergeLoop_indices (s e : Nat) (regions : FieldRegions) (idx : Nat) (indices : List Nat)
    (newRegion other : Region) :
    (mergeLoop s e idx regions indices newRegion).1 =
      indices ++ (mergeLoop s e idx regions [] other).1 := by
  induction regions generalizing idx indices newRegion other with
  | nil => simp [mergeLoop]
  | cons f rest ih =>
      unfold mergeLoop
      by_cases hmeet : meets s e f = true
      · simp only [hmeet, if_true]
        rw [ih _ (indices ++ [idx]) _ other, ih _ ([] ++ [idx]) _ other]
        simp
      · simp only [hmeet]
        exact ih _ _ _ _

theorem removeAll_cons (regions : FieldRegions) (idx : Nat) (indices : List Nat) :
    removeAll regions (idx :: indices) = (removeAll regions indices).eraseIdx idx := by
  simp [removeAll]

/-- Removing the collected indices from the back leaves the regions that were
not met. -/
theorem removeAll_mergeLoop (s e : Nat) (newRegion : Region) (regions before : FieldRegions) :
    removeAll (before ++ regions) (mergeLoop s e before.length regions [] newRegion).1 =
      before ++ regions.filter (fun f => !meets s e f) := by
  induction regions generalizing before newRegion with
  | nil => simp [mergeLoop, removeAll]
  | cons f rest ih =>
      have hrest := ih newRegion (before ++ [f])
      rw [List.append_assoc, List.singleton_append, List.length_append] at hrest
      unfold mergeLoop
      by_cases hmeet : meets s e f = true
      · simp only [hmeet, if_true]
        rw [mergeLoop_indices s e rest _ _ _ newRegion, List.nil_append, List.singleton_append,
          removeAll_cons]
        simp only [List.length_singleton] at hrest
        rw [hrest, List.append_assoc, List.eraseIdx_append_of_length_le (Nat.le_refl _)]
        simp [hmeet]
      · simp only [hmeet, Bool.false_eq_true, if_false]
        simp only [List.length_singleton] at hrest
        rw [hrest]
        simp [hmeet]

/-- Folding met, well-formed regions into a hull around the new field gives a
hull again. -/
theorem foldInto_hull {rbf : RegisterBlockField} {met : FieldRegions}
    (hmet : ∀ f ∈ met, f.WellFormed ∧ meets rbf.offset rbf.end_ f = true) {acc : Region}
    (hacc : IsHull RegisterBlockField.offset RegisterBlockField.end_ acc.rbfs acc.offset acc.end_)
    (hrbf : rbf ∈ acc.rbfs) :
    IsHull RegisterBlockField.offset RegisterBlockField.end_ (met.foldl foldInto acc).rbfs
      (met.foldl foldInto acc).offset (met.foldl foldInto acc).end_ := by
  induction met generalizing acc with
  | nil => exact hacc
  | cons f rest ih =>
      have hf := hmet f List.mem_cons_self
      exact ih (fun g hg => hmet g (List.mem_cons_of_mem _ hg))
        (hacc.absorb hf.1.hull hrbf (meets_iff.mp hf.2)) (List.mem_append_left _ hrbf)

theorem foldInto_rbfs (met : FieldRegions) (acc : Region) :
    (met.foldl foldInto acc).rbfs = acc.rbfs ++ met.flatMap (·.rbfs) := by
  induction met generalizing acc with
  | nil => simp
  | cons f rest ih => simp [ih, foldInto]

end FieldRegions

/-- A region without bytes holds a single field without bytes. -/
theorem Region.WellFormed.size_eq_zero {r : Region} (h : r.WellFormed) :
    r.size = 0 ↔ ∃ f ∈ r.rbfs, f.size = 0 := by
  constructor
  · intro hsize
    obtain ⟨f, hf⟩ := List.exists_mem_of_ne_nil _ h.rbfs_ne
    refine ⟨f, hf, ?_⟩
    by_contra hne
    have hpos : 0 < bytesOfBits f.size := Nat.pos_of_ne_zero (bytesOfBits_eq_zero.not.mpr hne)
    have hin := (h.hull.cover f.offset).mpr
      ⟨f, hf, Nat.le_refl _, by unfold RegisterBlockField.end_; omega⟩
    unfold Region.size at hsize
    omega
  · intro h
    obtain ⟨f, hf, hzero⟩ := h
    obtain ⟨_, hoff, hend⟩ := h.empty_alone f hf hzero
    unfold Region.size
    omega

/-- A region that is met has bytes, and so have all its fields. -/
theorem Region.WellFormed.size_ne_of_meets {r : Region} (h : r.WellFormed) {s e : Nat}
    (hmeet : FieldRegions.meets s e r = true) : ∀ f ∈ r.rbfs, f.size ≠ 0 := by
  intro f hf hzero
  obtain ⟨_, hoff, hend⟩ := h.empty_alone f hf hzero
  rw [FieldRegions.meets_iff] at hmeet
  omega

/-- Two regions with bytes that share none, the first not after the second. -/
theorem Region.Before.apart_of_disjoint {r s : Region} (hle : r.offset ≤ s.offset)
    (hdisjoint : r.Disjoint s) (hs : s.size ≠ 0) : r.end_ ≤ s.offset := by
  by_contra hlt
  apply hdisjoint s.offset
  unfold Region.size at hs
  omega

/-- Regions in order share no byte. -/
theorem Region.Before.disjoint {r s : Region} (h : r.Before s) : r.Disjoint s := by
  intro x h
  obtain ⟨hr, hs⟩ := h
  have := h.apart (by unfold Region.size; omega) (by unfold Region.size; omega)
  omega

namespace FieldRegions

/-- What a successful `add` inserts, and what it inserts it into. -/
theorem add_ok {regions regions' : FieldRegions} {rbf : RegisterBlockField}
    (h : add regions rbf = .ok regions') :
    rbf.end_ ≤ u32Max ∧
    ∃ newRegion idx kept,
      kept = regions.filter (fun f => !meets rbf.offset rbf.end_ f) ∧
      newRegion.rbfs.Perm
        (rbf :: (regions.filter (meets rbf.offset rbf.end_)).flatMap (·.rbfs)) ∧
      newRegion.offset = ((regions.filter (meets rbf.offset rbf.end_)).foldl foldInto
        ⟨[rbf], rbf.offset, rbf.end_, none⟩).offset ∧
      newRegion.end_ = ((regions.filter (meets rbf.offset rbf.end_)).foldl foldInto
        ⟨[rbf], rbf.offset, rbf.end_, none⟩).end_ ∧
      regions' = kept.insertIdx idx newRegion ∧
      (binarySearch (kept.map (·.offset)) newRegion.offset = .ok idx ∧ newRegion.size = 0 ∨
        binarySearch (kept.map (·.offset)) newRegion.offset = .error idx) := by
  unfold add at h
  obtain ⟨rbfEnd, hend, h⟩ := gen_bind_ok.mp h
  obtain ⟨hmax, rfl⟩ := addU32_ok.mp hend
  refine ⟨hmax, ?_⟩
  set merged := mergeLoop rbf.offset (rbf.offset + bytesOfBits rbf.size) 0 regions []
    ⟨[rbf], rbf.offset, rbf.offset + bytesOfBits rbf.size, none⟩ with hmerged
  have hregion := mergeLoop_region rbf.offset (rbf.offset + bytesOfBits rbf.size) regions 0 []
    ⟨[rbf], rbf.offset, rbf.offset + bytesOfBits rbf.size, none⟩
  have hkept := removeAll_mergeLoop rbf.offset (rbf.offset + bytesOfBits rbf.size)
    ⟨[rbf], rbf.offset, rbf.offset + bytesOfBits rbf.size, none⟩ regions []
  simp only [List.nil_append, List.length_nil] at hkept
  rw [← hmerged] at hregion hkept
  simp only [hkept] at h
  have hperm : (sortByOffset merged.2.rbfs).Perm
      (rbf :: (regions.filter (meets rbf.offset rbf.end_)).flatMap (·.rbfs)) := by
    refine (List.perm_insertionSort _ _).trans ?_
    rw [hregion, foldInto_rbfs]
    exact .refl _
  split at h
  · next idx hidx =>
      split at h
      · next hsize =>
          exact ⟨_, idx, _, rfl, hperm, by rw [hregion]; rfl, by rw [hregion]; rfl,
            (gen_pure_ok.mp h).symm, Or.inl ⟨hidx, hsize⟩⟩
      · exact (bail_ok.mp h).elim
  · next idx hidx =>
      exact ⟨_, idx, _, rfl, hperm, by rw [hregion]; rfl, by rw [hregion]; rfl,
        (gen_pure_ok.mp h).symm, Or.inr hidx⟩

/-- A region inserted where the search says keeps the order, provided it shares
no byte with the others. -/
theorem insert_ordered {kept : FieldRegions} {newRegion : Region} {idx : Nat}
    (hordered : kept.Pairwise Region.Before)
    (hdisjoint : ∀ r ∈ kept, r.Disjoint newRegion)
    (hsearch : binarySearch (kept.map (·.offset)) newRegion.offset = .ok idx ∧
        newRegion.size = 0 ∨
      binarySearch (kept.map (·.offset)) newRegion.offset = .error idx) :
    idx ≤ kept.length ∧ (kept.insertIdx idx newRegion).Pairwise Region.Before := by
  have hsorted : (kept.map (·.offset)).Pairwise (· ≤ ·) :=
    List.pairwise_map.mpr (hordered.imp fun h => h.offset_le)
  have hsplit := List.take_append_drop idx kept
  rw [← hsplit, List.pairwise_append] at hordered
  obtain ⟨hbefore, hafter, hcross⟩ := hordered
  rcases hsearch with ⟨hhit, hzero⟩ | hmiss
  · -- a hit: the region without bytes goes in front of a region at its offset
    obtain ⟨hlt, hmatch⟩ := List.getElem?_eq_some_iff.mp (binarySearch_ok hhit)
    rw [List.length_map] at hlt
    simp only [List.getElem_map] at hmatch
    refine ⟨by omega, ?_⟩
    have hdrop := List.drop_eq_getElem_cons hlt
    rw [insertIdx_eq_take_drop _ _ (by omega), List.pairwise_append, List.pairwise_cons]
    refine ⟨hbefore, ⟨?_, hafter⟩, ?_⟩
    · intro s hs
      have hle : newRegion.offset ≤ s.offset := by
        rw [hdrop, List.pairwise_cons] at hafter
        rw [hdrop] at hs
        rcases List.mem_cons.mp hs with rfl | hs
        · omega
        · have := (hafter.1 s hs).offset_le
          omega
      exact ⟨hle, fun _ => hzero, fun h _ => absurd hzero h⟩
    · intro r hr s hs
      rcases List.mem_cons.mp hs with rfl | hs
      · have hrm := hcross r hr kept[idx] (by rw [hdrop]; exact List.mem_cons_self)
        exact ⟨by have := hrm.offset_le; omega, fun heq => hrm.same_offset (by omega),
          fun _ h => absurd hzero h⟩
      · exact hcross r hr s hs
  · -- a miss: no region has the offset, so the order around it is strict
    obtain ⟨hlen, hsmaller, hlarger⟩ := binarySearch_error hsorted hmiss
    rw [List.length_map] at hlen
    rw [← List.map_take, List.forall_mem_map] at hsmaller
    rw [← List.map_drop, List.forall_mem_map] at hlarger
    refine ⟨hlen, ?_⟩
    rw [insertIdx_eq_take_drop _ _ hlen, List.pairwise_append, List.pairwise_cons]
    refine ⟨hbefore, ⟨?_, hafter⟩, ?_⟩
    · intro s hs
      have hlt := hlarger s hs
      have hdis := hdisjoint s (List.mem_of_mem_drop hs)
      exact ⟨hlt.le, fun heq => absurd heq hlt.ne, fun _ hne =>
        Region.Before.apart_of_disjoint hlt.le hdis.symm hne⟩
    · intro r hr s hs
      rcases List.mem_cons.mp hs with rfl | hs
      · have hlt := hsmaller r hr
        have hdis := hdisjoint r (List.mem_of_mem_take hr)
        exact ⟨hlt.le, fun heq => absurd heq hlt.ne, fun _ hne =>
          Region.Before.apart_of_disjoint hlt.le hdis hne⟩
      · exact hcross r hr s hs

/-- The region `add` builds is well-formed. -/
theorem merged_wellFormed {regions : FieldRegions} {rbf : RegisterBlockField}
    (hwf : ∀ r ∈ regions, r.WellFormed) {newRegion : Region}
    (hrbfs : newRegion.rbfs.Perm
      (rbf :: (regions.filter (meets rbf.offset rbf.end_)).flatMap (·.rbfs)))
    (hoffset : newRegion.offset = ((regions.filter (meets rbf.offset rbf.end_)).foldl foldInto
      ⟨[rbf], rbf.offset, rbf.end_, none⟩).offset)
    (hend : newRegion.end_ = ((regions.filter (meets rbf.offset rbf.end_)).foldl foldInto
      ⟨[rbf], rbf.offset, rbf.end_, none⟩).end_) : newRegion.WellFormed := by
  have hmet : ∀ f ∈ regions.filter (meets rbf.offset rbf.end_),
      f.WellFormed ∧ meets rbf.offset rbf.end_ f = true := by
    intro f hf
    obtain ⟨hmem, hm⟩ := List.mem_filter.mp hf
    exact ⟨hwf f hmem, hm⟩
  refine ⟨fun hnil => ?_, ?_, ?_⟩
  · rw [hnil] at hrbfs
    exact absurd hrbfs.symm (List.not_perm_cons_nil)
  · have hfold := @foldInto_hull rbf _ hmet ⟨[rbf], rbf.offset, rbf.end_, none⟩
      (IsHull.singleton rbf) List.mem_cons_self
    rw [foldInto_rbfs] at hfold
    rw [hoffset, hend]
    exact hfold.perm hrbfs.symm
  · intro f hf hzero
    rcases List.mem_cons.mp (hrbfs.mem_iff.mp hf) with rfl | hf
    · -- a field without bytes meets nothing
      have hend_eq : f.end_ = f.offset := by
        unfold RegisterBlockField.end_
        rw [bytesOfBits_eq_zero.mpr hzero, Nat.add_zero]
      have hnone : regions.filter (meets f.offset f.end_) = [] := by
        apply List.filter_eq_nil_iff.mpr
        intro g _ hg
        rw [meets_iff] at hg
        omega
      rw [hnone] at hrbfs hoffset hend
      exact ⟨List.perm_singleton.mp hrbfs, hoffset, hend.trans hend_eq⟩
    · obtain ⟨g, hg, hfg⟩ := List.mem_flatMap.mp hf
      exact absurd hzero ((hmet g hg).1.size_ne_of_meets (hmet g hg).2 f hfg)

/-- A kept region shares no byte with the region `add` builds. -/
theorem kept_disjoint {fields : List RegisterBlockField} {regions : FieldRegions}
    {rbf : RegisterBlockField} (hinv : RegionPartition fields regions) {newRegion : Region}
    (hwf : newRegion.WellFormed)
    (hrbfs : newRegion.rbfs.Perm
      (rbf :: (regions.filter (meets rbf.offset rbf.end_)).flatMap (·.rbfs))) :
    ∀ r ∈ regions.filter (fun f => !meets rbf.offset rbf.end_ f), r.Disjoint newRegion := by
  intro r hr x h
  obtain ⟨hxr, hxnew⟩ := h
  obtain ⟨hmem, hnot⟩ := List.mem_filter.mp hr
  obtain ⟨m, hm, hxm⟩ := (hwf.hull.cover x).mp hxnew
  rcases List.mem_cons.mp (hrbfs.mem_iff.mp hm) with rfl | hm
  · have hmeet : meets m.offset m.end_ r = true := by rw [meets_iff]; omega
    simp [hmeet] at hnot
  · obtain ⟨g, hg, hmg⟩ := List.mem_flatMap.mp hm
    obtain ⟨hgmem, hgmeet⟩ := List.mem_filter.mp hg
    have hxg := ((hinv.wellFormed g hgmem).hull.cover x).mpr ⟨m, hmg, hxm⟩
    have hne : r ≠ g := by
      intro heq
      obtain rfl := heq
      simp [hgmeet] at hnot
    exact (hinv.ordered.imp Region.Before.disjoint).forall hmem hgmem hne x ⟨hxr, hxg⟩

/-- **Step.**  A successful `add` keeps the invariant and adds its field.  The regions it
meets are merged with it into one, which goes where the first of them was; the others are kept
in their order. -/
theorem add_partition {fields : List RegisterBlockField} {regions regions' : FieldRegions}
    {rbf : RegisterBlockField} (hinv : RegionPartition fields regions)
    (h : add regions rbf = .ok regions') : RegionPartition (fields ++ [rbf]) regions' := by
  obtain ⟨-, newRegion, idx, kept, rfl, hrbfs, hoffset, hend, rfl, hsearch⟩ := add_ok h
  have hwf := merged_wellFormed hinv.wellFormed hrbfs hoffset hend
  obtain ⟨hidx, hordered⟩ := insert_ordered
    (hinv.ordered.sublist List.filter_sublist) (kept_disjoint hinv hwf hrbfs) hsearch
  have hperm := List.perm_insertIdx newRegion
    (regions.filter (fun f => !meets rbf.offset rbf.end_ f)) hidx
  refine ⟨?_, hordered, ?_⟩
  · have hnew := hperm.flatMap_right Region.rbfs
    have hmerged := hrbfs.append_right
      ((regions.filter (fun f => !meets rbf.offset rbf.end_ f)).flatMap Region.rbfs)
    have hall := (List.filter_append_perm (meets rbf.offset rbf.end_) regions).flatMap_right
      Region.rbfs
    rw [List.flatMap_append] at hall
    exact hnew.trans (hmerged.trans (((hall.trans hinv.exact).cons rbf).trans
      (List.perm_append_singleton rbf fields).symm))
  · intro r hr
    rcases List.mem_cons.mp (hperm.mem_iff.mp hr) with rfl | hr
    · exact hwf
    · exact hinv.wellFormed r (List.mem_of_mem_filter hr)

/-- **Run.**  Any successful sequence of calls from the empty vector.  The invariant holds of
no regions, and `add_partition` takes it through each call. -/
theorem addAll_partition {fields : List RegisterBlockField} {regions : FieldRegions}
    (h : addAll fields = .ok regions) : RegionPartition fields regions := by
  have hempty : RegionPartition [] [] := ⟨by simp, List.Pairwise.nil, by simp⟩
  have hrun := invariant_of_safeRun (fun hinv _ hadd => add_partition hinv hadd) hempty
    (safeRun_true [] fields) h
  simpa using hrun

end FieldRegions

/-! ## What the regions say about the fields -/

theorem RegisterBlockField.span_of_size_ne {f : RegisterBlockField} (h : f.size ≠ 0) :
    f.offset < f.end_ := by
  have : bytesOfBits f.size ≠ 0 := bytesOfBits_eq_zero.not.mpr h
  unfold RegisterBlockField.end_
  omega

namespace RegionPartition

variable {fields : List RegisterBlockField} {regions : FieldRegions}

theorem mem_fields (h : RegionPartition fields regions) {r : Region} (hr : r ∈ regions)
    {f : RegisterBlockField} (hf : f ∈ r.rbfs) : f ∈ fields :=
  h.exact.mem_iff.mp (List.mem_flatMap.mpr ⟨r, hr, hf⟩)

/-- Regions at different positions have no byte in common. -/
theorem disjoint_of_ne (h : RegionPartition fields regions) {i j : Nat} (hi : i < regions.length)
    (hj : j < regions.length) (hij : i ≠ j) : regions[i].Disjoint regions[j] := by
  have hpair := List.pairwise_iff_getElem.mp h.ordered
  rcases Nat.lt_or_gt_of_ne hij with hlt | hgt
  · exact (hpair i j hi hj hlt).disjoint
  · exact (hpair j i hj hi hgt).disjoint.symm

/-- Overlapping fields are in the same region. -/
theorem mem_of_overlap (h : RegionPartition fields regions) {i : Nat} (hi : i < regions.length)
    {a b : RegisterBlockField} (ha : a ∈ regions[i].rbfs) (hb : b ∈ fields)
    (hover : FieldOverlap a b) : b ∈ regions[i].rbfs := by
  obtain ⟨s, hs, hbs⟩ := List.mem_flatMap.mp (h.exact.mem_iff.mpr hb)
  obtain ⟨k, hk, rfl⟩ := List.mem_iff_getElem.mp hs
  by_cases hki : i = k
  · subst hki
    exact hbs
  · obtain ⟨ha', hab, hba, hb'⟩ := overlap_iff.mp hover
    have hx := ((h.wellFormed _ (List.getElem_mem hi)).hull.cover (max a.offset b.offset)).mpr
      ⟨a, ha, le_max_left _ _, max_lt ha' hba⟩
    have hy := ((h.wellFormed _ hs).hull.cover (max a.offset b.offset)).mpr
      ⟨b, hbs, le_max_right _ _, max_lt hab hb'⟩
    exact absurd ⟨hx, hy⟩ (h.disjoint_of_ne hi hk hki _)

/-- Fields with bytes share a region exactly when a chain of overlapping fields
links them. -/
theorem same_region_iff_linked (h : RegionPartition fields regions) {i j : Nat}
    (hi : i < regions.length) (hj : j < regions.length) {f g : RegisterBlockField}
    (hf : f ∈ regions[i].rbfs) (hg : g ∈ regions[j].rbfs) (hsize : g.size ≠ 0) :
    i = j ↔ FieldLinked fields f g := by
  constructor
  · intro heq
    obtain rfl := heq
    exact ((h.wellFormed _ (List.getElem_mem hi)).hull.linked f hf g hg).mono
      fun c hc => h.mem_fields (List.getElem_mem hi) hc
  · intro hlink
    have hgi := linked_stays (fun a ha b hb hab => h.mem_of_overlap hi ha hb hab) hf hlink
    by_contra hij
    have hspan := RegisterBlockField.span_of_size_ne hsize
    have hin : ∀ k (hk : k < regions.length), g ∈ regions[k].rbfs →
        regions[k].offset ≤ g.offset ∧ g.offset < regions[k].end_ := fun k hk hgk =>
      ((h.wellFormed _ (List.getElem_mem hk)).hull.cover _).mpr ⟨g, hgk, Nat.le_refl _, hspan⟩
    exact h.disjoint_of_ne hi hj hij _ ⟨hin i hi hgi, hin j hj hg⟩

end RegionPartition

/-- The regions partition the fields by their overlaps. -/
structure PartitionsByOverlap (fields : List RegisterBlockField) (regions : FieldRegions) :
    Prop where
  sorted : regions.Pairwise fun r s => r.offset ≤ s.offset
  exactly_one : (regions.flatMap (·.rbfs)).Perm fields
  disjoint : regions.Pairwise fun r s => r.size ≠ 0 → s.size ≠ 0 → r.Disjoint s
  union : ∀ r ∈ regions, ∀ x,
    (r.offset ≤ x ∧ x < r.end_) ↔ ∃ f ∈ r.rbfs, f.offset ≤ x ∧ x < f.end_
  same_region : ∀ (i j : Nat) (hi : i < regions.length) (hj : j < regions.length),
    ∀ f ∈ regions[i].rbfs, ∀ g ∈ regions[j].rbfs, f.size ≠ 0 → g.size ≠ 0 →
      (i = j ↔ FieldLinked fields f g)
  zero_alone : ∀ r ∈ regions, ∀ f ∈ r.rbfs, f.size = 0 →
    r.rbfs = [f] ∧ r.offset = f.offset ∧ r.end_ = f.offset

/-- **Region partition.**  Whatever fields are added, in whatever order, as long as every
`add` succeeds the regions partition them by overlap.  Each `add` merges the new field with
the regions it meets, which stand next to one another because the regions are sorted and
disjoint; the hull of what is merged meets no other region. -/
theorem addAll_partitions_by_overlap {fields : List RegisterBlockField} {regions : FieldRegions}
    (h : FieldRegions.addAll fields = .ok regions) : PartitionsByOverlap fields regions := by
  have hinv := FieldRegions.addAll_partition h
  exact {
    sorted := hinv.ordered.imp fun hb => hb.offset_le
    exactly_one := hinv.exact
    disjoint := hinv.ordered.imp fun hb _ _ => hb.disjoint
    union := fun r hr => (hinv.wellFormed r hr).hull.cover
    same_region := fun i j hi hj f hf g hg _ hg0 => hinv.same_region_iff_linked hi hj hf hg hg0
    zero_alone := fun r hr => (hinv.wellFormed r hr).empty_alone }

/-- A field for a single register. -/
def plainField (name : String) (offset size : Nat) : RegisterBlockField where
  synField := ⟨name, .path name⟩
  offset := offset
  size := size
  accessors := [.ref (.reg ⟨"", name, name, offset⟩)]
  accessors_ne := by simp

theorem addAll_partitions_overlapping_fields :
    ∃ regions, FieldRegions.addAll
        [plainField "a" 0 32, plainField "z" 2 0, plainField "b" 2 32, plainField "c" 8 8] =
          .ok regions ∧
      PartitionsByOverlap
        [plainField "a" 0 32, plainField "z" 2 0, plainField "b" 2 32, plainField "c" 8 8]
        regions :=
  ⟨_, rfl, addAll_partitions_by_overlap rfl⟩

end Svd2Rust
