import Svd2Rust.AsciiCrates
import Svd2Rust.BlockPlacement

/-!
# Emission of a register block

`register_or_cluster_block` walks the regions in order, pads the gaps, emits a
field for a region with a single field and a padding for a union, and closes the
block at its size.  The struct is `repr(C)` and its items follow each other
without gaps of their own, so the walk is right exactly when every item lands
where the region says.

The walk subtracts `last_end` from the offset of the next region.  Regions with
bytes are disjoint and sorted, so only a region without bytes can start before
the previous one ended, and it does when the field in it starts strictly inside
the bytes of another (`neverUnderflows_iff`).
-/

namespace Svd2Rust

open RustStrings OverlapChains

/-! ## Names of unions -/

section Idents

variable (crates : Crates)

/-- `split_keep`: runs of letters, and every other character by itself. -/
def splitKeep : List Char → List (List Char)
  | [] => []
  | c :: cs =>
      let matched := fun c => crates.isNumeric c || !crates.isAlphabetic c
      if matched c then [c] :: splitKeep cs
      else match cs, splitKeep cs with
        | d :: _, piece :: pieces => if matched d then [c] :: piece :: pieces
            else (c :: piece) :: pieces
        | _, _ => [[c]]

/-- How many leading pieces of the first identifier all others share. -/
def commonPieces : List (List Char) → List (List (List Char)) → Nat
  | [], _ => 0
  | piece :: pieces, others =>
      if others.all (·.head? = some piece) then commonPieces pieces (others.map List.tail) + 1 else 0

def Region.idents (r : Region) : List String := r.rbfs.map (·.synField.ident)

/-- `shortest_ident`: by length, then by content. -/
def Region.shortestIdent (r : Region) : Option String :=
  (r.idents.insertionSort fun a b =>
    a.utf8ByteSize < b.utf8ByteSize ∨ a.utf8ByteSize = b.utf8ByteSize ∧ a ≤ b).head?

/-- `common_ident`. -/
def Region.commonIdent (r : Region) : Option String :=
  match r.idents.map fun s => splitKeep crates s.toList with
  | [] => none
  | first :: others =>
      let index := commonPieces first others
      if index ≤ 1 then none
      else match first[index]? with
        | some elem =>
            if elem.all crates.isNumeric then some (String.ofList (first.take index).flatten)
            else some (String.ofList (first.take (index - 1)).flatten)
        | none => some (String.ofList (first.take (index - 1)).flatten)

/-- `compute_ident`. -/
def Region.computeIdent (r : Region) : Option String :=
  match r.commonIdent crates with
  | some ident => some ident
  | none => r.shortestIdent

/-- `resolve_idents`. -/
def FieldRegions.resolveIdents (regions : FieldRegions) : FieldRegions :=
  let computed := regions.map fun r =>
    if r.isUnion then { r with ident := r.computeIdent crates } else r
  let idents := (computed.filter (·.isUnion)).map (·.ident)
  computed.map fun r =>
    if r.ident.isSome && r.isUnion && 1 < idents.count r.ident then
      { r with ident := r.shortestIdent }
    else r

end Idents

/-! ## The items of the struct -/

/-- An item of the emitted struct: reserved bytes or a field. -/
inductive BlockItem where
  | reserved (name : String) (bytes : Nat)
  | field (rbf : RegisterBlockField)
deriving DecidableEq

def BlockItem.bytes : BlockItem → Nat
  | .reserved _ bytes => bytes
  | .field rbf => bytesOfBits rbf.size

/-- The emitted block. -/
structure RegisterBlock where
  ty : String
  doc : String
  docAlias : Option String
  items : List BlockItem
  methods : List Method

section Emission

variable (crates : Crates) (config : Config)

/-- The padding in front of a region. -/
def gapItems (i lastEnd : Nat) (region : Region) : Gen (List BlockItem) := do
  let pad ← subU32 region.offset lastEnd
  return if pad ≠ 0 then [.reserved s!"_reserved{i}" pad] else []

/-- The name of the padding that stands for a union. -/
def unionName (i : Nat) (region : Region) : String :=
  s!"_reserved_{i}_" ++ (region.computeIdent crates).getD s!"{region.offset}_{region.end_}"

/-- The items of a region. -/
def regionItems (i : Nat) (region : Region) : Gen (List BlockItem) :=
  if region.isUnion then do
    let pad ← subU32 region.end_ region.offset
    return [.reserved (unionName crates i region) pad]
  else return region.rbfs.map .field

/-- The accessors of a field as they are emitted; in a union the first one turns
raw. -/
def emittedAccessors (isRegionAUnion : Bool) (rbf : RegisterBlockField) : List AccessType :=
  (if isRegionAUnion then rbf.accessor.raw else rbf.accessor) :: rbf.accessors.tail

def regionAccessors (region : Region) : List AccessType :=
  region.rbfs.flatMap (emittedAccessors region.isUnion)

/-- The loop over the regions: their items and the final `last_end`. -/
def emitRegions : (i lastEnd : Nat) → FieldRegions → Gen (List BlockItem × Nat)
  | _, lastEnd, [] => return ([], lastEnd)
  | i, lastEnd, region :: rest => do
      let gap ← gapItems i lastEnd region
      let body ← regionItems crates i region
      let (items, stop) ← emitRegions (i + 1) region.end_ rest
      return (gap ++ body ++ items, stop)

/-- The padding at the end of a block of a given size. -/
def endItems (size : Option Nat) (lastEnd : Nat) : Gen (List BlockItem) :=
  match size with
  | none => return []
  | some size =>
      if lastEnd ≤ size then
        return if size - lastEnd > 0 then [.reserved "_reserved_end" (size - lastEnd)] else []
      else bail "Incorrect block size"

/-- `register_or_cluster_block`.  The identifier of a cluster is one that `cluster_block` has
made before. -/
def registerOrClusterBlock (ercs : List RegisterCluster) (path : BlockPath)
    (deriveInfos : List DeriveInfo) (name : Option String) (doc : String) (size : Option Nat) :
    Gen RegisterBlock := do
  let ercsExpanded ← withContext "Could not expand register or cluster block"
    (expand crates config ercs path deriveInfos)
  let added ← FieldRegions.addAll ercsExpanded
  let regions := added.resolveIdents crates
  let (items, lastEnd) ← emitRegions crates 0 0 regions
  let tail ← endItems size lastEnd
  let ty := match name with
    | some name => identText crates config name .cluster
    | none => "RegisterBlock"
  return {
    ty := ty
    doc := doc
    docAlias := name.filter (· ≠ ty)
    items := items ++ tail
    methods := (regions.flatMap regionAccessors).flatMap AccessType.toTokens }

end Emission

/-! ## What the layout has to satisfy -/

/-- The items with the offsets they get when laid out back to back. -/
def placeItems : (start : Nat) → List BlockItem → List (Nat × BlockItem)
  | _, [] => []
  | start, item :: rest => (start, item) :: placeItems (start + item.bytes) rest

/-- `last_end` when a loop that starts with `first` reaches region `i`. -/
def lastEnd (first : Nat) (regions : FieldRegions) : Nat → Nat
  | 0 => first
  | i + 1 => (regions[i]?.map (·.end_)).getD first

/-- No subtraction of the loop underflows. -/
def NeverUnderflows (first : Nat) (regions : FieldRegions) : Prop :=
  ∀ (i : Nat) (hi : i < regions.length), lastEnd first regions i ≤ regions[i].offset

/-- Every item is where it belongs: fields outside unions at their offset, union
paddings over their region, and the end at the block's size. -/
structure LaidOutExactly (crates : Crates) (regions : FieldRegions) (size : Option Nat)
    (items : List BlockItem) : Prop where
  only_fields : ∀ pos rbf, (pos, BlockItem.field rbf) ∈ placeItems 0 items → pos = rbf.offset
  fields : ∀ r ∈ regions, r.isUnion = false → ∀ rbf ∈ r.rbfs,
    (rbf.offset, BlockItem.field rbf) ∈ placeItems 0 items
  unions : ∀ (i : Nat) (hi : i < regions.length), regions[i].isUnion = true →
    (regions[i].offset, BlockItem.reserved (unionName crates i regions[i]) regions[i].size) ∈
      placeItems 0 items
  total : ∀ s, size = some s → (items.map BlockItem.bytes).sum = s

/-- No entry without bytes starts strictly inside the bytes of another entry. -/
def NoEmptyInside (footprints : List Footprint) : Prop :=
  ∀ z ∈ footprints, z.bits = 0 → ∀ p ∈ footprints, ¬ (p.start < z.start ∧ z.start < p.end_)

instance (footprints : List Footprint) : Decidable (NoEmptyInside footprints) :=
  inferInstanceAs (Decidable (∀ z ∈ footprints, _ → ∀ p ∈ footprints, _))

/-! ## When the subtractions underflow -/

theorem Region.WellFormed.offset_le_end {r : Region} (h : r.WellFormed) : r.offset ≤ r.end_ := by
  obtain ⟨f, hf⟩ := List.exists_mem_of_ne_nil _ h.rbfs_ne
  by_cases hzero : f.size = 0
  · obtain ⟨-, hoffset, hend⟩ := h.empty_alone f hf hzero
    omega
  · have hspan := (h.hull.cover f.offset).mpr
      ⟨f, hf, Nat.le_refl _, RegisterBlockField.span_of_size_ne hzero⟩
    omega

/-- A region outside unions is its only field. -/
theorem Region.WellFormed.of_single {r : Region} (h : r.WellFormed) (hsingle : r.isUnion = false) :
    ∃ f, r.rbfs = [f] ∧ r.offset = f.offset ∧ r.end_ = f.end_ := by
  obtain ⟨f, hf⟩ : ∃ f, r.rbfs = [f] := by
    have hne := h.rbfs_ne
    unfold Region.isUnion at hsingle
    match hrbfs : r.rbfs with
    | [] => exact absurd hrbfs hne
    | [f] => exact ⟨f, rfl⟩
    | _ :: _ :: _ => simp [hrbfs] at hsingle
  refine ⟨f, hf, ?_⟩
  by_cases hzero : f.size = 0
  · obtain ⟨-, hoffset, hend⟩ := h.empty_alone f (by simp [hf]) hzero
    have hbytes := bytesOfBits_eq_zero.mpr hzero
    unfold RegisterBlockField.end_
    omega
  · -- the stretch of a hull of one field is the span of that field
    have hspan := RegisterBlockField.span_of_size_ne hzero
    have hcover : ∀ x, (r.offset ≤ x ∧ x < r.end_) ↔ f.offset ≤ x ∧ x < f.end_ := by
      intro x
      rw [h.hull.cover, hf]
      simp
    have hfirst := (hcover f.offset).mpr ⟨Nat.le_refl _, hspan⟩
    have hlast := (hcover (f.end_ - 1)).mpr (by omega)
    have hstart := (hcover r.offset).mp (by omega)
    have hstop := (hcover (r.end_ - 1)).mp (by omega)
    omega

theorem neverUnderflows_cons {first : Nat} {r : Region} {rest : FieldRegions} :
    NeverUnderflows first (r :: rest) ↔ first ≤ r.offset ∧ NeverUnderflows r.end_ rest := by
  have hshift : ∀ i, i ≤ rest.length →
      lastEnd first (r :: rest) (i + 1) = lastEnd r.end_ rest i := by
    intro i hi
    cases i with
    | zero => rfl
    | succ i =>
        have hlt : i < rest.length := hi
        simp [lastEnd, hlt]
  constructor
  · intro h
    refine ⟨h 0 (by simp), fun i hi => ?_⟩
    rw [← hshift i hi.le]
    exact h (i + 1) (by simpa using hi)
  · intro h i hi
    obtain ⟨hfirst, hrest⟩ := h
    cases i with
    | zero => exact hfirst
    | succ i =>
        have hlt : i < rest.length := by simpa using hi
        rw [hshift i hlt.le]
        exact hrest i hlt

/-- Without underflow every region ends before all later ones start. -/
theorem NeverUnderflows.pairwise {first : Nat} {regions : FieldRegions}
    (h : NeverUnderflows first regions) (hwf : ∀ r ∈ regions, r.WellFormed) :
    regions.Pairwise fun r s => r.end_ ≤ s.offset := by
  induction regions generalizing first with
  | nil => exact .nil
  | cons r rest ih =>
      obtain ⟨-, hrest⟩ := neverUnderflows_cons.mp h
      have hpair := ih hrest fun s hs => hwf s (List.mem_cons_of_mem _ hs)
      refine .cons ?_ hpair
      cases rest with
      | nil => simp
      | cons s rest =>
          have hs : r.end_ ≤ s.offset := (neverUnderflows_cons.mp hrest).1
          have hsend := (hwf s (by simp)).offset_le_end
          intro t ht
          rcases List.mem_cons.mp ht with rfl | ht
          · exact hs
          · have := List.rel_of_pairwise_cons hpair ht
            omega

/-- **Underflow.**  On the regions of any fields the loop underflows exactly when
a field without bytes starts strictly inside another field. -/
theorem neverUnderflows_iff {fields : List RegisterBlockField} {regions : FieldRegions}
    (h : RegionPartition fields regions) :
    NeverUnderflows 0 regions ↔ NoEmptyInside (fields.map (·.footprint)) := by
  constructor
  · intro hnever z hz hbits p hp h
    obtain ⟨hlo, hhi⟩ := h
    obtain ⟨zf, hzf, rfl⟩ := List.mem_map.mp hz
    obtain ⟨pf, hpf, rfl⟩ := List.mem_map.mp hp
    obtain ⟨s, hs, hzs⟩ := List.mem_flatMap.mp (h.exact.mem_iff.mpr hzf)
    obtain ⟨r, hr, hpr⟩ := List.mem_flatMap.mp (h.exact.mem_iff.mpr hpf)
    obtain ⟨j, hj, rfl⟩ := List.mem_iff_getElem.mp hs
    obtain ⟨i, hi, rfl⟩ := List.mem_iff_getElem.mp hr
    obtain ⟨halone, hsoffset, hsend⟩ := (h.wellFormed _ hs).empty_alone zf hzs hbits
    change pf.offset < zf.offset at hlo
    change zf.offset < pf.end_ at hhi
    have hrcover := (h.wellFormed _ hr).hull.cover
    have hpoffset := (hrcover pf.offset).mpr ⟨pf, hpr, Nat.le_refl _, by omega⟩
    have hplast := (hrcover (pf.end_ - 1)).mpr ⟨pf, hpr, by omega, by omega⟩
    rcases Nat.lt_trichotomy i j with hij | rfl | hji
    · have := List.pairwise_iff_getElem.mp (hnever.pairwise h.wellFormed) i j hi hj hij
      omega
    · rw [halone, List.mem_singleton] at hpr
      subst hpr
      omega
    · have := (List.pairwise_iff_getElem.mp h.ordered j i hj hi hji).offset_le
      omega
  · intro hno i hi
    cases i with
    | zero => exact Nat.zero_le _
    | succ i =>
        have hi' : i < regions.length := Nat.lt_of_succ_lt hi
        have hbefore := List.pairwise_iff_getElem.mp h.ordered i (i + 1) hi' hi (Nat.lt_succ_self i)
        have hr := h.wellFormed _ (List.getElem_mem hi')
        have hs := h.wellFormed _ (List.getElem_mem hi)
        have hend := hr.offset_le_end
        have hle := hbefore.offset_le
        simp only [lastEnd, List.getElem?_eq_getElem hi', Option.map_some, Option.getD_some]
        by_cases hrsize : regions[i].size = 0
        · unfold Region.size at hrsize
          omega
        · by_cases hssize : regions[i + 1].size = 0
          · -- a region without bytes inside the hull `r` would be inside a field of `r`
            by_contra hlt
            have hne : regions[i].offset ≠ regions[i + 1].offset :=
              fun heq => hrsize (hbefore.same_offset heq)
            obtain ⟨m, hm, hacross⟩ := hr.hull.exists_across (x := regions[i + 1].offset)
              ⟨by omega, by omega⟩
            obtain ⟨z, hz, hzero⟩ := hs.size_eq_zero.mp hssize
            obtain ⟨-, hoffset, -⟩ := hs.empty_alone z hz hzero
            rw [hoffset] at hacross
            exact hno _ (List.mem_map_of_mem (h.mem_fields (List.getElem_mem hi) hz)) hzero _
              (List.mem_map_of_mem (h.mem_fields (List.getElem_mem hi') hm)) hacross
          · exact hbefore.apart hrsize hssize

/-! ## What the loop emits -/

def itemBytes (items : List BlockItem) : Nat := (items.map BlockItem.bytes).sum

theorem placeItems_append (start : Nat) (items more : List BlockItem) :
    placeItems start (items ++ more) =
      placeItems start items ++ placeItems (start + itemBytes items) more := by
  induction items generalizing start with
  | nil => simp [placeItems, itemBytes]
  | cons item rest ih =>
      simp only [List.cons_append, placeItems, ih, itemBytes, List.map_cons, List.sum_cons]
      rw [Nat.add_assoc]

/-- What a stretch of the loop has emitted from `start` on, `i` being the number
of its first region. -/
structure EmittedExactly (crates : Crates) (i start : Nat) (regions : FieldRegions)
    (items : List BlockItem) : Prop where
  only_fields : ∀ pos rbf, (pos, BlockItem.field rbf) ∈ placeItems start items → pos = rbf.offset
  fields : ∀ r ∈ regions, r.isUnion = false → ∀ rbf ∈ r.rbfs,
    (rbf.offset, BlockItem.field rbf) ∈ placeItems start items
  unions : ∀ (k : Nat) (hk : k < regions.length), regions[k].isUnion = true →
    (regions[k].offset,
      BlockItem.reserved (unionName crates (i + k) regions[k]) regions[k].size) ∈
      placeItems start items

/-- The gap in front of a region ends at its offset. -/
theorem gapItems_ok {i start : Nat} {r : Region} (hle : start ≤ r.offset) :
    ∃ gap, gapItems i start r = .ok gap ∧ start + itemBytes gap = r.offset ∧
      ∀ pos rbf, (pos, BlockItem.field rbf) ∉ placeItems start gap := by
  have hpad : subU32 r.offset start = .ok (r.offset - start) := subU32_ok.mpr ⟨hle, rfl⟩
  refine ⟨_, gen_bind_ok.mpr ⟨_, hpad, rfl⟩, ?_⟩
  by_cases hzero : r.offset - start = 0
  · rw [if_neg (not_not.mpr hzero)]
    exact ⟨by simp only [itemBytes, List.map_nil, List.sum_nil]; omega, by simp [placeItems]⟩
  · rw [if_pos hzero]
    exact ⟨by simp only [itemBytes, BlockItem.bytes, List.map_cons, List.map_nil, List.sum_cons,
      List.sum_nil]; omega, by simp [placeItems]⟩

/-- The items of a well-formed region fill its stretch. -/
theorem regionItems_ok {crates : Crates} (i : Nat) {r : Region} (hwf : r.WellFormed) :
    ∃ body, regionItems crates i r = .ok body ∧ r.offset + itemBytes body = r.end_ ∧
      EmittedExactly crates i r.offset [r] body := by
  have hle := hwf.offset_le_end
  unfold regionItems
  cases hunion : r.isUnion with
  | true =>
      rw [if_pos rfl]
      refine ⟨_, gen_bind_ok.mpr ⟨_, subU32_ok.mpr ⟨hle, rfl⟩, rfl⟩, ?_, ?_, ?_, ?_⟩
      · simp only [itemBytes, BlockItem.bytes, List.map_cons, List.map_nil, List.sum_cons,
          List.sum_nil]
        omega
      · simp [placeItems]
      · simp [hunion]
      · intro k hk _
        obtain rfl : k = 0 := by simpa using hk
        simp [placeItems, Region.size]
  | false =>
      obtain ⟨f, hf, hoffset, hend⟩ := hwf.of_single hunion
      rw [if_neg Bool.false_ne_true, hf]
      refine ⟨_, rfl, ?_, ?_, ?_, ?_⟩
      · simp only [itemBytes, BlockItem.bytes, List.map_cons, List.map_nil, List.sum_cons,
          List.sum_nil]
        rw [hoffset, hend]
        rfl
      · intro pos rbf hmem
        simp only [List.map_cons, List.map_nil, placeItems, List.mem_singleton, Prod.mk.injEq,
          BlockItem.field.injEq] at hmem
        rw [hmem.1, hmem.2, hoffset]
      · intro s hs _ rbf hrbf
        rw [List.mem_singleton.mp hs, hf, List.mem_singleton] at hrbf
        simp [placeItems, hrbf, hoffset]
      · intro k hk hk'
        obtain rfl : k = 0 := by simpa using hk
        simp [hunion] at hk'

/-- **Loop.**  Without underflow the loop emits every region where it belongs and
ends where the last one does. -/
theorem emitRegions_ok {crates : Crates} (i : Nat) {start : Nat} {regions : FieldRegions}
    (h : NeverUnderflows start regions) (hwf : ∀ r ∈ regions, r.WellFormed) :
    ∃ items, emitRegions crates i start regions = .ok (items, start + itemBytes items) ∧
      EmittedExactly crates i start regions items := by
  induction regions generalizing i start with
  | nil =>
      refine ⟨[], rfl, ?_, ?_, ?_⟩
      · simp [placeItems]
      · simp
      · simp
  | cons r rest ih =>
      obtain ⟨hle, hrest⟩ := neverUnderflows_cons.mp h
      obtain ⟨gap, hgap, hgapbytes, hgapfields⟩ := gapItems_ok (i := i) hle
      obtain ⟨body, hbody, hbodybytes, hexact⟩ :=
        @regionItems_ok crates i _ (hwf r List.mem_cons_self)
      obtain ⟨items, hitems, hrestexact⟩ :=
        ih (i + 1) hrest fun s hs => hwf s (List.mem_cons_of_mem _ hs)
      have hplaced : placeItems start (gap ++ body ++ items) = placeItems start gap ++
          placeItems r.offset body ++ placeItems r.end_ items := by
        rw [placeItems_append, placeItems_append, hgapbytes]
        congr 2
        simp only [itemBytes, List.map_append, List.sum_append] at *
        omega
      refine ⟨gap ++ body ++ items, ?_, ?_, ?_, ?_⟩
      · simp only [emitRegions, hgap, hbody, hitems, gen_bind_ok, gen_pure_ok]
        refine ⟨gap, rfl, body, rfl, _, rfl, ?_⟩
        simp only [itemBytes, List.map_append, List.sum_append, Prod.mk.injEq, true_and] at *
        omega
      · intro pos rbf hmem
        rw [hplaced, List.mem_append, List.mem_append] at hmem
        rcases hmem with (hmem | hmem) | hmem
        · exact absurd hmem (hgapfields pos rbf)
        · exact hexact.only_fields pos rbf hmem
        · exact hrestexact.only_fields pos rbf hmem
      · intro s hs hsingle rbf hrbf
        rw [hplaced, List.mem_append, List.mem_append]
        rcases List.mem_cons.mp hs with rfl | hs
        · exact .inl (.inr (hexact.fields s (by simp) hsingle rbf hrbf))
        · exact .inr (hrestexact.fields s hs hsingle rbf hrbf)
      · intro k hk hunion
        rw [hplaced, List.mem_append, List.mem_append]
        cases k with
        | zero => exact .inl (.inr (hexact.unions 0 (by simp) hunion))
        | succ k =>
            have hmem := hrestexact.unions k (by simpa using hk) hunion
            rw [Nat.add_right_comm] at hmem
            exact .inr hmem

/-- `resolve_idents` touches nothing but the identifiers. -/
theorem resolveIdents_eq_map (crates : Crates) (regions : FieldRegions) :
    ∃ idents : Region → Option String,
      regions.resolveIdents crates = regions.map fun r => { r with ident := idents r } := by
  let computed : Region → Region := fun r =>
    if r.isUnion then { r with ident := r.computeIdent crates } else r
  let seen := ((regions.map computed).filter (·.isUnion)).map (·.ident)
  let renamed : Region → Region := fun r =>
    if r.ident.isSome && r.isUnion && 1 < seen.count r.ident then
      { r with ident := r.shortestIdent }
    else r
  refine ⟨fun r => (renamed (computed r)).ident, ?_⟩
  have hresolve : regions.resolveIdents crates = (regions.map computed).map renamed := rfl
  rw [hresolve, List.map_map]
  apply List.map_congr_left
  intro r _
  change renamed (computed r) = { r with ident := (renamed (computed r)).ident }
  simp only [renamed, computed]
  split_ifs <;> rfl

/-- Nothing the loop emits depends on the resolved identifiers. -/
theorem emitRegions_map_ident {crates : Crates} (idents : Region → Option String) (i start : Nat)
    (regions : FieldRegions) :
    emitRegions crates i start (regions.map fun r => { r with ident := idents r }) =
      emitRegions crates i start regions := by
  induction regions generalizing i start with
  | nil => rfl
  | cons r rest ih =>
      rw [List.map_cons, emitRegions, emitRegions, ih]
      rfl

/-- The final padding fills the block up to its size. -/
theorem endItems_ok {size : Option Nat} {stop : Nat} {tail : List BlockItem}
    (h : endItems size stop = .ok tail) :
    (∀ s, size = some s → stop + itemBytes tail = s) ∧
      ∀ pos rbf start, (pos, BlockItem.field rbf) ∉ placeItems start tail := by
  unfold endItems at h
  cases size with
  | none =>
      rw [← gen_pure_ok.mp h]
      simp [placeItems]
  | some size =>
      simp only at h
      split at h
      · next hle =>
          rw [← gen_pure_ok.mp h]
          split
          · simp only [Option.some.injEq, forall_eq', itemBytes, BlockItem.bytes, List.map_cons,
              List.map_nil, List.sum_cons, List.sum_nil]
            exact ⟨by omega, by simp [placeItems]⟩
          · simp only [Option.some.injEq, forall_eq', itemBytes, List.map_nil, List.sum_nil]
            exact ⟨by omega, by simp [placeItems]⟩
      · exact (bail_ok.mp h).elim

theorem endItems_ok_or_bail (size : Option Nat) (stop : Nat) :
    (∃ tail, endItems size stop = .ok tail) ∨ endItems size stop = bail "Incorrect block size" := by
  unfold endItems
  cases size with
  | none => exact .inl ⟨_, rfl⟩
  | some size =>
      by_cases hle : stop ≤ size
      · exact .inl ⟨_, if_pos hle⟩
      · exact .inr (if_neg hle)

/-! ## The layout of a block -/

/-- What the layout of a block promises: no subtraction underflows, the block is
emitted unless it is too large for its size, and then everything is in place. -/
structure LayoutHolds (crates : Crates) (config : Config) (ercs : List RegisterCluster)
    (path : BlockPath) (deriveInfos : List DeriveInfo) (name : Option String) (doc : String)
    (size : Option Nat) (regions : FieldRegions) : Prop where
  no_underflow : NeverUnderflows 0 regions
  emitted : (∃ block, registerOrClusterBlock crates config ercs path deriveInfos name doc size =
      .ok block) ∨
    registerOrClusterBlock crates config ercs path deriveInfos name doc size =
      bail "Incorrect block size"
  exact : ∀ block, registerOrClusterBlock crates config ercs path deriveInfos name doc size =
    .ok block → LaidOutExactly crates regions size block.items

/-- What the loop has emitted stays where it is when the block is filled up. -/
theorem EmittedExactly.with_tail {crates : Crates} {regions : FieldRegions} {size : Option Nat}
    {items tail : List BlockItem} (hexact : EmittedExactly crates 0 0 regions items)
    (htail : endItems size (0 + itemBytes items) = .ok tail) :
    LaidOutExactly crates regions size (items ++ tail) := by
  obtain ⟨htotal, htailfields⟩ := endItems_ok htail
  refine ⟨?_, ?_, ?_, ?_⟩
  · intro pos rbf hmem
    rw [placeItems_append, List.mem_append] at hmem
    rcases hmem with hmem | hmem
    · exact hexact.only_fields pos rbf hmem
    · exact absurd hmem (htailfields pos rbf _)
  · intro r hr hsingle rbf hrbf
    rw [placeItems_append, List.mem_append]
    exact .inl (hexact.fields r hr hsingle rbf hrbf)
  · intro i hi hunion
    rw [placeItems_append, List.mem_append]
    have hmem := hexact.unions i hi hunion
    rw [Nat.zero_add] at hmem
    exact .inl hmem
  · intro s hs
    have hbytes := htotal s hs
    simp only [itemBytes] at hbytes
    rw [List.map_append, List.sum_append]
    omega

/-- **Block layout.**  A block whose entries expand and whose regions are found is laid out
exactly if and only if no entry without bytes starts strictly inside the bytes of another
entry.  The loop pads up to the offset of each region, so the one thing that can go wrong is
an offset before the end of the last region.  Regions with bytes are disjoint and sorted; only
one without bytes can start inside another. -/
theorem layoutHolds_iff_noEmptyInside {crates : Crates} {config : Config}
    {ercs : List RegisterCluster} {path : BlockPath} {deriveInfos : List DeriveInfo}
    {name : Option String} {doc : String} {size : Option Nat} {fields : List RegisterBlockField}
    {regions : FieldRegions} (hexpand : expand crates config ercs path deriveInfos = .ok fields)
    (hadd : FieldRegions.addAll fields = .ok regions) :
    LayoutHolds crates config ercs path deriveInfos name doc size regions ↔
      NoEmptyInside (blockFootprints config ercs path deriveInfos) := by
  have hpartition := FieldRegions.addAll_partition hadd
  have hiff : NeverUnderflows 0 regions ↔
      NoEmptyInside (blockFootprints config ercs path deriveInfos) := by
    rw [neverUnderflows_iff hpartition]
    simp only [NoEmptyInside, (expand_footprints hexpand).mem_iff]
  rw [← hiff]
  refine ⟨fun h => h.no_underflow, fun hnever => ?_⟩
  obtain ⟨items, hitems, hexact⟩ :=
    @emitRegions_ok crates 0 _ _ hnever hpartition.wellFormed
  obtain ⟨idents, hresolve⟩ := resolveIdents_eq_map crates regions
  have hblock : registerOrClusterBlock crates config ercs path deriveInfos name doc size = (do
      let tail ← endItems size (0 + itemBytes items)
      let ty := match name with
        | some name => identText crates config name .cluster
        | none => "RegisterBlock"
      return {
        ty := ty
        doc := doc
        docAlias := name.filter (· ≠ ty)
        items := items ++ tail
        methods :=
          ((regions.resolveIdents crates).flatMap regionAccessors).flatMap AccessType.toTokens }) := by
    unfold registerOrClusterBlock
    rw [withContext_ok.mpr hexpand]
    simp only [hadd, hresolve, emitRegions_map_ident, hitems, bind, Except.bind]
  refine ⟨hnever, ?_, ?_⟩
  · rw [hblock]
    cases htail : endItems size (0 + itemBytes items) with
    | ok tail => exact .inl ⟨_, rfl⟩
    | error e =>
        rcases endItems_ok_or_bail size (0 + itemBytes items) with ⟨tail, hok⟩ | hbail
        · exact absurd (htail.symm.trans hok) (by simp)
        · rw [← htail, hbail]
          exact .inr rfl
  · intro block hok
    rw [hblock] at hok
    obtain ⟨tail, htail, hok⟩ := gen_bind_ok.mp hok
    rw [← gen_pure_ok.mp hok]
    exact hexact.with_tail htail

/-- Two overlapping registers, an array with gaps behind them and a block size. -/
theorem layoutHolds_union_and_proxy :
    ∃ fields regions,
      expand asciiCrates defaultConfig
        [.register (.single (plainRegister "CR" 0 32)), .register (.single (plainRegister "CRH" 2 16)),
          .register (.array (plainRegister "DR%s" 8 16) (countedDim 2 4))]
        (.new "TIM") [.root, .root, .root] = .ok fields ∧
      FieldRegions.addAll fields = .ok regions ∧
      LayoutHolds asciiCrates defaultConfig
        [.register (.single (plainRegister "CR" 0 32)), .register (.single (plainRegister "CRH" 2 16)),
          .register (.array (plainRegister "DR%s" 8 16) (countedDim 2 4))]
        (.new "TIM") [.root, .root, .root] none "Register block" (some 16) regions :=
  ⟨_, _, rfl, rfl, (layoutHolds_iff_noEmptyInside rfl rfl).mpr (by decide)⟩

/-- An array with gaps that starts inside a 64-bit register underflows. -/
theorem not_layoutHolds_proxy_inside_register :
    ∃ fields regions,
      expand asciiCrates defaultConfig
        [.register (.single (plainRegister "TIME" 0 64)),
          .register (.array (plainRegister "HALF%s" 4 16) (countedDim 2 4))]
        (.new "TIM") [.root, .root] = .ok fields ∧
      FieldRegions.addAll fields = .ok regions ∧
      ¬ LayoutHolds asciiCrates defaultConfig
        [.register (.single (plainRegister "TIME" 0 64)),
          .register (.array (plainRegister "HALF%s" 4 16) (countedDim 2 4))]
        (.new "TIM") [.root, .root] none "Register block" none regions :=
  ⟨_, _, rfl, rfl, fun h => absurd (h.no_underflow 1 (by decide)) (by decide)⟩

end Svd2Rust
