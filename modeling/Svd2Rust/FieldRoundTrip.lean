import Svd2Rust.NeutralModify

/-!
# Writing a field and reading it back

A writer replaces a run of bits, a reader extracts one.  Named readers leave out
the mask when the field is as wide as the storage type and the cast when the types
agree; indexed readers always mask and cast.  The two tests go by the bits
`to_ty_width` gives the size of the register, which are those of the storage type but for
a register of one bit.  `accessorsSound_iff` says for which registers reading gives back
what was written, leaves the other fields alone and does not depend on the accessor.
-/

namespace Svd2Rust

open BitFields

/-! ## The run a reader extracts -/

/-- The accessor reads a run of bits as a value of that type. -/
def Reads (rty : RustTy) (path : ReadAccessor × Nat) (ty : RustTy) (o w : Nat) : Prop :=
  ∀ bits : BitVec rty.bits, path.1.read rty bits path.2 = .ok ⟨ty, (extract bits o w).toNat⟩

/-- The type a named reader's expression has.  A field of one bit in a register of one bit
has neither mask nor cast, though the storage type is `u8`. -/
def namedTy (size w : Nat) (rty fty : RustTy) : RustTy :=
  if size = 1 ∧ w = 1 then rty else fty

/-- The width of the run a named reader extracts: without a mask it reaches the top
of the register's type. -/
def namedWidth (size w o : Nat) (rty : RustTy) : Nat :=
  if size = 1 ∧ w = 1 then rty.bits - o else w

section Reading

variable {crates : Crates} {config : Config}

theorem toTyWidth_of_toTy {width : Nat} {ty : RustTy} (h : toTy width = .ok ty) :
    toTyWidth width = .ok ty.bits := by
  unfold toTy at h
  unfold toTyWidth
  split at h
  · cases h
    rw [if_pos ‹_›]
    rfl
  split at h
  · cases h
    rw [if_neg ‹_›, if_pos ‹_›]
    rfl
  split at h
  · cases h
    rw [if_neg ‹_›, if_neg ‹_›, if_pos ‹_›]
    rfl
  split at h
  · cases h
    rw [if_neg ‹_›, if_neg ‹_›, if_neg ‹_›, if_pos ‹_›]
    rfl
  split at h
  · cases h
    rw [if_neg ‹_›, if_neg ‹_›, if_neg ‹_›, if_neg ‹_›, if_pos ‹_›]
    rfl
  · simp at h

/-- A width that fills a type is of that type. -/
theorem toTy_bits (ty : RustTy) : toTy ty.bits = .ok ty := by cases ty <;> rfl

theorem RustTy.eq_of_bits {ty ty' : RustTy} (h : ty.bits = ty'.bits) : ty = ty' := by
  cases ty <;> cases ty' <;> first | rfl | cases h

/-- The storage type of a register has the width `to_ty_width` gives its size,
except for a register of one bit. -/
theorem registerSize_bits {size tyWidth : Nat} {rty : RustTy}
    (hrty : toTy (registerSize size) = .ok rty) (hwidth : toTyWidth size = .ok tyWidth) :
    size = 1 ∧ tyWidth = 1 ∨ rty.bits = tyWidth := by
  have hle : size < 65 := by
    by_contra hgt
    unfold toTyWidth at hwidth
    rw [if_neg (by omega), if_neg (by omega), if_neg (by omega), if_neg (by omega),
      if_neg (by omega)] at hwidth
    simp at hwidth
  by_cases hone : size = 1
  · subst hone
    exact Or.inl ⟨rfl, (Except.ok.inj hwidth).symm⟩
  · have hall : ∀ size < 65, 2 ≤ size → toTyWidth size = .ok (registerSize size) := by decide
    have hpos : size ≠ 0 := by
      intro heq
      obtain rfl := heq
      simp [toTyWidth] at hwidth
    obtain rfl := Except.ok.inj ((hall size hle (by omega)).symm.trans hwidth)
    exact Or.inr (toTy_registerSize hrty)

/-- A storage type is not `bool`. -/
theorem registerSize_ne_bool {size : Nat} {rty : RustTy}
    (hrty : toTy (registerSize size) = .ok rty) : rty ≠ .bool := by
  intro hbool
  subst hbool
  have hone : registerSize size = 1 := (toTy_registerSize hrty).symm
  unfold registerSize nextPowerOfTwo at hone
  split at hone
  · cases hone
  split at hone
  · omega
  split at hone
  · omega
  · have hpos := Nat.two_pow_pos (Nat.log2 (size - 1))
    omega

/-- A cast keeps the value of a field. -/
theorem convert_cast {rty fty : RustTy} {w : Nat} (hfty : toTy w = .ok fty) {e : ReadExpr}
    (hcast : e.cast = some (readCast w fty)) {masked : BitVec rty.bits}
    (hlt : masked.toNat < 2 ^ w) : e.convert rty masked = ⟨fty, masked.toNat⟩ := by
  rw [ReadExpr.convert, hcast]
  by_cases hone : w = 1
  · subst hone
    obtain rfl : fty = .bool := (Except.ok.inj hfty).symm
    have hbit : (masked != 0).toNat = masked.toNat := by
      by_cases hzero : masked = 0
      · simp [hzero]
      · have hne : masked.toNat ≠ 0 := by
          intro hnat
          exact hzero (BitVec.eq_of_toNat_eq (by simpa using hnat))
        have hval : masked.toNat = 1 := by omega
        rw [bne_iff_ne.mpr hzero, hval]
        rfl
    change (⟨.bool, (masked != 0).toNat⟩ : ReadValue) = _
    rw [hbit]
  · have hbits := (toTy_ok hfty).2.1
    have hfits : masked.toNat < 2 ^ fty.bits :=
      lt_of_lt_of_le hlt (Nat.pow_le_pow_right (by decide) hbits)
    simp only [readCast, if_neg hone, Nat.mod_eq_of_lt hfits]

/-- The mask of a reader is the mask of its width. -/
theorem ofNat_widthMax {n w : Nat} (hw : w ≤ n) (h64 : w ≤ 64) :
    BitVec.ofNat n (widthMax w) = lowMask n w := by
  rw [widthMax_eq h64, ofNat_two_pow_sub_one hw]

theorem shrReg_ok {n o : Nat} {x y : BitVec n} : shrReg x o = .ok y ↔ o < n ∧ x >>> o = y := by
  unfold shrReg
  split
  · simp [*]
  · simp [*]

/-- A named reader shifts by its offset, whether or not the shift is written. -/
theorem namedRead_shifted {n o : Nat} (ho : o < n) (bits : BitVec n) (limit index mask : Nat)
    (cast : Cast) (useCast useMask : Bool) :
    (namedRead o mask cast useCast useMask).shifted bits limit index = .ok (bits >>> o) := by
  unfold ReadExpr.shifted namedRead literalUnless
  by_cases hzero : o = 0
  · simp [hzero, gen_pure_ok]
  · simp only [if_neg hzero, Option.map_some]
    exact gen_bind_ok.mpr ⟨o, rfl, shrReg_ok.mpr ⟨ho, rfl⟩⟩

/-- **Named readers extract.**  They read the run of the field, as the mask is left out only
where the field fills the storage type; in a register of one bit they read everything from the
field's offset up. -/
theorem namedRead_eval {size w o : Nat} {rty fty : RustTy} {useCast useMask : Bool}
    (hrty : toTy (registerSize size) = .ok rty) (hfty : toTy w = .ok fty)
    (hflags : castAndMask (some size) w = .ok (useCast, useMask)) (hfit : o + w ≤ rty.bits)
    (bits : BitVec rty.bits) (limit index : Nat) :
    (namedRead o (widthMax w) (readCast w fty) useCast useMask).eval rty bits limit index =
      .ok ⟨namedTy size w rty fty, (extract bits o (namedWidth size w o rty)).toNat⟩ := by
  obtain ⟨hpos, hbits, h64⟩ := toTy_ok hfty
  obtain ⟨sizeTy, hsize, hflags⟩ := gen_bind_ok.mp hflags
  obtain ⟨widthTy, hwidth, hflags⟩ := gen_bind_ok.mp hflags
  obtain rfl : fty.bits = widthTy := Except.ok.inj ((toTyWidth_of_toTy hfty).symm.trans hwidth)
  have heq := gen_pure_ok.mp hflags
  rw [Prod.mk.injEq] at heq
  obtain ⟨rfl, rfl⟩ := heq
  refine gen_bind_ok.mpr ⟨_, namedRead_shifted (by omega) bits limit index _ _ _ _, ?_⟩
  refine gen_pure_ok.mpr ?_
  by_cases hone : size = 1 ∧ w = 1
  · rw [namedTy, if_pos hone, namedWidth, if_pos hone, extract_top bits (by omega)]
    obtain ⟨rfl, rfl⟩ := hone
    obtain rfl : 1 = sizeTy := Except.ok.inj hsize
    simp [namedRead, ReadExpr.masked, ReadExpr.convert]
  · rw [namedTy, if_neg hone, namedWidth, if_neg hone]
    have hstorage : size = 1 ∧ sizeTy = 1 ∨ rty.bits = sizeTy := registerSize_bits hrty hsize
    by_cases hmask : sizeTy = w
    · -- without a mask the field fills the storage type
      obtain rfl : rty.bits = w := by omega
      obtain rfl : rty = fty := Except.ok.inj ((toTy_bits rty).symm.trans hfty)
      obtain rfl : o = 0 := by omega
      have htop : extract bits 0 rty.bits = bits >>> 0 := extract_top bits (Nat.zero_le _)
      rw [htop]
      simp [namedRead, ReadExpr.masked, ReadExpr.convert, hmask]
    · have hne : (sizeTy != w) = true := by simpa using hmask
      have hmasked : ReadExpr.masked (bits >>> o)
          (namedRead o (widthMax w) (readCast w fty) (sizeTy != fty.bits) (sizeTy != w)) =
          extract bits o w := by
        simp only [ReadExpr.masked, namedRead, hne, if_true]
        rw [ofNat_widthMax (by omega) (by omega)]
        rfl
      rw [hmasked]
      have hlt := toNat_extract_lt (show w ≤ rty.bits by omega) bits o
      by_cases hcast : sizeTy = fty.bits
      · -- without a cast the register's type is the field's
        have hty : rty = fty := RustTy.eq_of_bits (by omega)
        simp [ReadExpr.convert, namedRead, hcast, hty]
      · have hcasts : (sizeTy != fty.bits) = true := by simpa using hcast
        apply convert_cast hfty _ hlt
        simp [namedRead, hne, hcasts]

/-- **Indexed readers extract.**  They always mask and cast. -/
theorem indexedRead_eval {w increment offset index limit : Nat} {rty fty : RustTy}
    (hfty : toTy w = .ok fty) (hfit : offset + index * increment + w ≤ rty.bits)
    (hlimit : rty.bits ≤ limit) (bits : BitVec rty.bits) :
    (indexedRead increment offset (widthMax w) (readCast w fty)).eval rty bits limit index =
      .ok ⟨fty, (extract bits (offset + index * increment) w).toNat⟩ := by
  obtain ⟨hpos, hbits, h64⟩ := toTy_ok hfty
  have hshift : (indexedRead increment offset (widthMax w) (readCast w fty)).shifted bits limit
      index = .ok (bits >>> (offset + index * increment)) :=
    gen_bind_ok.mpr ⟨_, calculateOffset_eval.mpr ⟨by omega, rfl⟩, shrReg_ok.mpr ⟨by omega, rfl⟩⟩
  refine gen_bind_ok.mpr ⟨_, hshift, gen_pure_ok.mpr ?_⟩
  have hmasked : ReadExpr.masked (bits >>> (offset + index * increment))
      (indexedRead increment offset (widthMax w) (readCast w fty)) =
      extract bits (offset + index * increment) w := by
    simp only [ReadExpr.masked, indexedRead]
    rw [ofNat_widthMax (by omega) (by omega)]
    rfl
  rw [hmasked]
  exact convert_cast hfty rfl (toNat_extract_lt (by omega) bits _)

/-- The storage types have at most 64 bits. -/
theorem RustTy.bits_le (ty : RustTy) : ty.bits ≤ 64 := by cases ty <;> decide

/-- The accessors of an array's element: by index, by iterator, and by the name of
the element, which has the element's offset. -/
theorem readPaths_array {info : FieldInfo} {dim : DimElement} {name : String} {mask : Nat}
    {fty : RustTy} {useCast useMask : Bool} {accessors : List ReadAccessor}
    (h : readAccessors crates config (.array info dim) name mask fty useCast useMask =
      .ok accessors) {i : Nat} (hi : i < dim.dim) :
    ∃ iterName elementName, readPaths (.array info dim) accessors i =
      [(.indexed name dim.dim (indexedRead dim.dimIncrement info.bitRange.offset mask
          (readCast info.bitRange.width fty)), i),
        (.iter iterName dim.dim (indexedRead dim.dimIncrement info.bitRange.offset mask
          (readCast info.bitRange.width fty)), i),
        (.named elementName (namedRead (info.bitRange.offset + i * dim.dimIncrement) mask
          (readCast info.bitRange.width fty) useCast useMask), i)] := by
  obtain rfl := readAccessors_array h
  have ho : (Field.elementOffsets crates (.array info dim))[i]? =
      some (info.bitRange.offset + i * dim.dimIncrement) := by
    rw [elementOffsets_array, List.getElem?_map, List.getElem?_range hi]
    rfl
  obtain ⟨element, helement, hsame⟩ :=
    Option.map_eq_some_iff.mp ((List.getElem?_map ..).symm.trans ho)
  refine ⟨name ++ "_iter", fieldAccessorText crates config element.name, ?_⟩
  rw [readPaths, List.getElem?_map, helement, ← hsame]
  rfl

/-- What the accessors of an element do: the indexed ones of an array extract the
field's run as the field's type, the named one what a named reader extracts. -/
structure ElementReads (rty fty : RustTy) (size w o : Nat) (single : Bool)
    (paths : List (ReadAccessor × Nat)) : Prop where
  all : ∀ path ∈ paths, Reads rty path (namedTy size w rty fty) o (namedWidth size w o rty) ∨
    single = false ∧ Reads rty path fty o w
  named : ∃ path ∈ paths, Reads rty path (namedTy size w rty fty) o (namedWidth size w o rty)
  indexed : single = false → ∃ path ∈ paths, Reads rty path fty o w

/-- **Reading an element.**  Every accessor of an element extracts from its offset. -/
theorem elementReads {field : Field} {name : String} {accessors : List ReadAccessor} {size : Nat}
    {rty fty : RustTy} {useCast useMask : Bool}
    (hrty : toTy (registerSize size) = .ok rty) (hfty : toTy field.info.bitRange.width = .ok fty)
    (hflags : castAndMask (some size) field.info.bitRange.width = .ok (useCast, useMask))
    (h : readAccessors crates config field name (widthMax field.info.bitRange.width) fty useCast
      useMask = .ok accessors) {i o : Nat} (ho : (field.elementOffsets crates)[i]? = some o)
    (hfit : o + field.info.bitRange.width ≤ rty.bits) :
    ElementReads rty fty size field.info.bitRange.width o field.isSingle
      (readPaths field accessors i) := by
  have hlimit := rty.bits_le
  have hnamed : ∀ elementName, Reads rty
      (.named elementName (namedRead o (widthMax field.info.bitRange.width)
        (readCast field.info.bitRange.width fty) useCast useMask), i)
      (namedTy size field.info.bitRange.width rty fty) o
      (namedWidth size field.info.bitRange.width o rty) := by
    intro elementName bits
    exact namedRead_eval hrty hfty hflags hfit bits _ _
  cases field with
  | single info =>
      obtain rfl := gen_pure_ok.mp h
      obtain rfl := List.mem_singleton.mp (List.mem_of_getElem? ho)
      refine ⟨fun path hpath => ?_, ⟨_, List.mem_singleton.mpr rfl, hnamed _⟩, nofun⟩
      obtain rfl := List.mem_singleton.mp hpath
      exact Or.inl (hnamed _)
  | array info dim =>
      rw [elementOffsets_array, List.getElem?_map, Option.map_eq_some_iff] at ho
      obtain ⟨index, hindex, rfl⟩ := ho
      obtain ⟨hlt, rfl⟩ := List.getElem?_eq_some_iff.mp hindex
      rw [List.getElem_range] at hfit hnamed ⊢
      rw [List.length_range] at hlt
      obtain ⟨iterName, elementName, hpaths⟩ := readPaths_array h hlt
      rw [hpaths]
      have hindexed : Reads rty (.indexed name dim.dim (indexedRead dim.dimIncrement
          info.bitRange.offset (widthMax info.bitRange.width)
          (readCast info.bitRange.width fty)), i) fty
          (info.bitRange.offset + i * dim.dimIncrement) info.bitRange.width := by
        intro bits
        rw [ReadAccessor.read, if_pos hlt]
        exact indexedRead_eval hfty hfit (hlimit.trans (by decide)) bits
      have hiter : Reads rty (.iter iterName dim.dim (indexedRead dim.dimIncrement
          info.bitRange.offset (widthMax info.bitRange.width)
          (readCast info.bitRange.width fty)), i) fty
          (info.bitRange.offset + i * dim.dimIncrement) info.bitRange.width := by
        intro bits
        rw [ReadAccessor.read, if_pos hlt]
        exact indexedRead_eval hfty hfit (hlimit.trans (by decide)) bits
      refine ⟨fun path hpath => ?_, ⟨_, ?_, hnamed elementName⟩, fun _ => ⟨_, ?_, hindexed⟩⟩
      · simp only [List.mem_cons, List.not_mem_nil, or_false] at hpath
        rcases hpath with rfl | rfl | rfl
        · exact Or.inr ⟨rfl, hindexed⟩
        · exact Or.inr ⟨rfl, hiter⟩
        · exact Or.inl (hnamed _)
      · simp
      · simp

end Reading

/-! ## Soundness of the accessors of a register -/

/-- The width of a field. -/
def FieldCode.width (fc : FieldCode) : Nat := fc.field.info.bitRange.width

section Soundness

variable (crates : Crates) (env : ProxyEnv) (rty : RustTy) (codes : List FieldCode)

/-- Element `i` of a field starts at bit `o` and lies inside the register's type. -/
def FieldCode.ElementAt (fc : FieldCode) (i o : Nat) : Prop :=
  (fc.field.elementOffsets crates)[i]? = some o ∧ o + fc.width ≤ rty.bits

/-- Every accessor of element `i` reads that value. -/
def FieldCode.ReadsAs (fc : FieldCode) (reader : ReaderCode) (bits : BitVec rty.bits) (i : Nat)
    (value : ReadValue) : Prop :=
  ∀ path ∈ readPaths fc.field reader.accessors i, path.1.read rty bits path.2 = .ok value

/-- What is promised of the word after a value was left in element `i` at bit `o`:
the element reads as the value, masked, and every element without a common bit
reads as before. -/
structure HoldsAfter (fc : FieldCode) (fty : RustTy) (i o value : Nat)
    (before after : BitVec rty.bits) : Prop where
  roundTrip : ∀ reader ∈ fc.reader, fc.ReadsAs rty reader after i ⟨fty, value % 2 ^ fc.width⟩
  frame : ∀ gc ∈ codes, ∀ reader ∈ gc.reader, ∀ j o', gc.ElementAt crates rty j o' →
    DisjointRuns o fc.width o' gc.width → ∀ path ∈ readPaths gc.field reader.accessors j,
      path.1.read rty after path.2 = path.1.read rty before path.2

/-- **Sound accessors.**  Every writer call that leaves a value of the field's type
returns a word that holds it, and the accessors of an element read alike. -/
structure AccessorsSound : Prop where
  write : ∀ fc ∈ codes, ∀ writer ∈ fc.writer, ∀ fty, toTy fc.width = .ok fty →
    ∀ i o, fc.ElementAt crates rty i o → ∀ path ∈ writePaths fc.field writer.accessors i,
      ∀ call value, (env.resolve writer.proxy).leaves call = some value → value < 2 ^ fty.bits →
        ∀ bits : BitVec rty.bits, ∃ bits', writer.write env path call bits = .ok bits' ∧
          HoldsAfter crates rty codes fc fty i o value bits bits'
  agree : ∀ fc ∈ codes, ∀ reader ∈ fc.reader, ∀ i o, fc.ElementAt crates rty i o →
    ∀ bits, ∃ value, fc.ReadsAs rty reader bits i value

/-- A named reader reads the run of its field, as a value of the field's type: only a field of
one bit in a register of one bit has neither mask nor cast without filling the storage type. -/
def ReadsOwnRun (size : Nat) (fc : FieldCode) : Prop := ¬ (size = 1 ∧ fc.width = 1)

/-- Where the accessors of a register of `size` bits are sound: named readers read the
runs of their fields if something else accesses them, writers are as wide as what
is read, and no wider than the fields nearby allow. -/
structure AccessorsAligned (size : Nat) : Prop where
  readers : ∀ fc ∈ codes, fc.reader.isSome = true →
    fc.writer.isSome = true ∨ fc.field.isSingle = false →
      ∀ i o, fc.ElementAt crates rty i o → ReadsOwnRun size fc
  writers : ∀ fc ∈ codes, ∀ writer ∈ fc.writer, ∀ i o, fc.ElementAt crates rty i o →
    (env.resolve writer.proxy).width ≤ rty.bits ∧
      (fc.reader.isSome = true → fc.width ≤ (env.resolve writer.proxy).width)
  apart : ∀ fc ∈ codes, ∀ writer ∈ fc.writer, ∀ i o, fc.ElementAt crates rty i o →
    ∀ gc ∈ codes, gc.reader.isSome = true → ∀ j o', gc.ElementAt crates rty j o' →
      DisjointRuns o fc.width o' gc.width →
        DisjointRuns o (env.resolve writer.proxy).width o' (namedWidth size gc.width o' rty)

end Soundness

section Aligned

variable {crates : Crates} {config : Config} {access : Access} {properties : RegisterProperties}
  {rmwv : Option ModifiedWriteValues} {code : FieldsCode} {env : ProxyEnv} {rty : RustTy}
  {size : Nat}

theorem namedWidth_le {w o : Nat} (hfit : o + w ≤ rty.bits) :
    w ≤ namedWidth size w o rty ∧ o + namedWidth size w o rty ≤ rty.bits := by
  unfold namedWidth
  split
  · omega
  · omega

/-- Named readers read a field as a value of its type exactly under that condition. -/
theorem namedTy_eq_iff {fc : FieldCode} {fty : RustTy} (hrty : toTy (registerSize size) = .ok rty)
    (hfty : toTy fc.width = .ok fty) :
    namedTy size fc.width rty fty = fty ↔ ReadsOwnRun size fc := by
  unfold namedTy ReadsOwnRun
  by_cases hone : size = 1 ∧ fc.width = 1
  · rw [if_pos hone]
    refine iff_of_false (fun hty => ?_) (not_not_intro hone)
    have hbool : fty = .bool := (Except.ok.inj (hone.2 ▸ hfty)).symm
    exact registerSize_ne_bool hrty (hty.trans hbool)
  · rw [if_neg hone]
    exact iff_of_true rfl hone

/-- The reader of a rendered field, at an element inside the register. -/
theorem FieldsInv.reads (hinv : FieldsInv crates config access properties rmwv code)
    (hsize : properties.size = some size) (hrty : toTy (registerSize size) = .ok rty)
    {fc : FieldCode} (hfc : fc ∈ code.fields) {reader : ReaderCode} (hreader : reader ∈ fc.reader)
    {i o : Nat} (ho : fc.ElementAt crates rty i o) :
    ∃ fty, toTy fc.width = .ok fty ∧ ElementReads rty fty size fc.width o fc.field.isSingle
      (readPaths fc.field reader.accessors i) := by
  obtain ⟨fty, useCast, useMask, hcode⟩ := hinv.codes fc hfc
  obtain ⟨name, haccessors⟩ := hcode.reader_accessors reader hreader
  exact ⟨fty, hcode.fty_ok, elementReads hrty hcode.fty_ok (hsize ▸ hcode.flags_ok)
    haccessors ho.1 ho.2⟩

/-- The accessors of an element read the field's run, if named readers do. -/
theorem ElementReads.reads_own {fc : FieldCode} {fty : RustTy} {o : Nat}
    {paths : List (ReadAccessor × Nat)}
    (h : ElementReads rty fty size fc.width o fc.field.isSingle paths)
    (hrty : toTy (registerSize size) = .ok rty) (hfty : toTy fc.width = .ok fty)
    (hown : ReadsOwnRun size fc) {path : ReadAccessor × Nat} (hpath : path ∈ paths) :
    Reads rty path fty o fc.width := by
  have hty := (namedTy_eq_iff hrty hfty).mpr hown
  have hwidth : namedWidth size fc.width o rty = fc.width := if_neg hown
  rcases h.all path hpath with hnamed | hindexed
  · rwa [hty, hwidth] at hnamed
  · exact hindexed.2

/-- An insertion that the named reader does not meet leaves every accessor alone. -/
theorem ElementReads.frame {fty : RustTy} {w o : Nat} {single : Bool}
    {paths : List (ReadAccessor × Nat)} (h : ElementReads rty fty size w o single paths)
    (hfit : o + w ≤ rty.bits) {o' w' : Nat} (hw' : w' ≤ rty.bits)
    (hapart : DisjointRuns o' w' o (namedWidth size w o rty))
    {path : ReadAccessor × Nat} (hpath : path ∈ paths) (bits value : BitVec rty.bits) :
    path.1.read rty (insert bits o' w' value) path.2 = path.1.read rty bits path.2 := by
  obtain ⟨hle, htop⟩ := @namedWidth_le rty size _ _ hfit
  rcases h.all path hpath with hnamed | hindexed
  · rw [hnamed, hnamed, extract_insert_of_disjoint hw' (by omega) hapart]
  · have hinner : DisjointRuns o' w' o w := by
      intro i hi hin
      exact hapart i hi ⟨hin.1, by have := hin.2; omega⟩
    rw [hindexed.2, hindexed.2, extract_insert_of_disjoint hw' (by omega) hinner]

/-- **Aligned accessors are sound.**  With the runs apart, an insertion at one element is not
seen by an extraction at the other. -/
theorem accessorsSound_of_aligned (hinv : FieldsInv crates config access properties rmwv code)
    (hsize : properties.size = some size) (hrty : toTy (registerSize size) = .ok rty)
    (h : AccessorsAligned crates env rty code.fields size) :
    AccessorsSound crates env rty code.fields where
  write := by
    intro fc hfc writer hwriter fty hfty i o ho path hpath call value hleaves hvalue bits
    have hfit := ho.2
    obtain ⟨hwidth, hcovers⟩ := h.writers fc hfc writer hwriter i o ho
    obtain ⟨hpos, hbits, -⟩ := toTy_ok hfty
    have hlimit := rty.bits_le
    obtain ⟨_, _, _, hcode⟩ := hinv.codes fc hfc
    obtain ⟨name, haccessors⟩ := hcode.writer_accessors writer hwriter
    have hoffset : path.1.offset path.2 = .ok o :=
      writePaths_offset haccessors ho.1 (by unfold u8Max; omega) hpath
    refine ⟨_, (WriterCode.write_ok hoffset hleaves).mpr ⟨hwidth, by omega, rfl⟩, ?_, ?_⟩
    · intro reader hreader rpath hrpath
      have hreadable : fc.reader.isSome = true := Option.isSome_iff_exists.mpr ⟨reader, hreader⟩
      have hwritable : fc.writer.isSome = true := Option.isSome_iff_exists.mpr ⟨writer, hwriter⟩
      obtain ⟨fty', hfty', hreads⟩ := hinv.reads hsize hrty hfc hreader ho
      obtain rfl := Except.ok.inj (hfty.symm.trans hfty')
      have hown := h.readers fc hfc hreadable (Or.inl hwritable) i o ho
      rw [hreads.reads_own hrty hfty hown hrpath,
        extract_insert (hcovers hreadable) hwidth hfit, toNat_and_lowMask (by omega),
        BitVec.toNat_ofNat, Nat.mod_mod_of_dvd _ (Nat.pow_dvd_pow 2 (by omega))]
    · intro gc hgc reader hreader j o' ho' hdisjoint rpath hrpath
      obtain ⟨gty, -, hreads⟩ := hinv.reads hsize hrty hgc hreader ho'
      have hapart := h.apart fc hfc writer hwriter i o ho gc hgc
        (Option.isSome_iff_exists.mpr ⟨reader, hreader⟩) j o' ho' hdisjoint
      exact hreads.frame ho'.2 hwidth hapart hrpath _ _
  agree := by
    intro fc hfc reader hreader i o ho bits
    have hfit := ho.2
    have hreadable : fc.reader.isSome = true := Option.isSome_iff_exists.mpr ⟨reader, hreader⟩
    obtain ⟨fty, hfty, hreads⟩ := hinv.reads hsize hrty hfc hreader ho
    by_cases hsingle : fc.field.isSingle = true
    · refine ⟨⟨namedTy size fc.width rty fty,
        (extract bits o (namedWidth size fc.width o rty)).toNat⟩, fun path hpath => ?_⟩
      rcases hreads.all path hpath with hnamed | hindexed
      · exact hnamed bits
      · rw [hsingle] at hindexed
        cases hindexed.1
    · have harray : fc.field.isSingle = false := by simpa using hsingle
      have hown := h.readers fc hfc hreadable (Or.inr harray) i o ho
      exact ⟨_, fun path hpath => hreads.reads_own hrty hfty hown hpath bits⟩

/-- What soundness says of one call: the writer fits the register, its word reads
through the named accessor as the value, and the frame holds. -/
theorem AccessorsSound.call (h : AccessorsSound crates env rty code.fields)
    (hinv : FieldsInv crates config access properties rmwv code)
    {fc : FieldCode} (hfc : fc ∈ code.fields) {writer : WriterCode} (hwriter : writer ∈ fc.writer)
    {fty : RustTy} (hfty : toTy fc.width = .ok fty) {i o : Nat} (ho : fc.ElementAt crates rty i o)
    {call : WriterCall} {value : Nat}
    (hleaves : (env.resolve writer.proxy).leaves call = some value)
    (hvalue : value < 2 ^ fty.bits) (bits : BitVec rty.bits) :
    (env.resolve writer.proxy).width ≤ rty.bits ∧
      HoldsAfter crates rty code.fields fc fty i o value bits
        (insert bits o (env.resolve writer.proxy).width (BitVec.ofNat _ value)) := by
  have hfit := ho.2
  have hlimit := rty.bits_le
  obtain ⟨_, _, _, hcode⟩ := hinv.codes fc hfc
  obtain ⟨name, haccessors⟩ := hcode.writer_accessors writer hwriter
  obtain ⟨path, hpath⟩ := exists_writePath haccessors i
  obtain ⟨bits', hok, hholds⟩ :=
    h.write fc hfc writer hwriter fty hfty i o ho path hpath call value hleaves hvalue bits
  have hoffset : path.1.offset path.2 = .ok o :=
    writePaths_offset haccessors ho.1 (by unfold u8Max; omega) hpath
  obtain ⟨hwidth, -, rfl⟩ := (WriterCode.write_ok hoffset hleaves).mp hok
  exact ⟨hwidth, hholds⟩

/-- The named reader of a written element reads the value back, as the field's type. -/
theorem HoldsAfter.named {fc : FieldCode} {fty : RustTy} {i o value : Nat}
    {before after : BitVec rty.bits}
    (h : HoldsAfter crates rty code.fields fc fty i o value before after)
    {reader : ReaderCode} (hreader : reader ∈ fc.reader)
    (hreads : ElementReads rty fty size fc.width o fc.field.isSingle
      (readPaths fc.field reader.accessors i)) :
    namedTy size fc.width rty fty = fty ∧
      (extract after o (namedWidth size fc.width o rty)).toNat = value % 2 ^ fc.width := by
  obtain ⟨path, hpath, hnamed⟩ := hreads.named
  have heq := Except.ok.inj ((hnamed after).symm.trans (h.roundTrip reader hreader path hpath))
  rw [ReadValue.mk.injEq] at heq
  exact heq

/-- A writer whose named reader reads all its values back covers what is read. -/
theorem namedWidth_le_of_sound (h : AccessorsSound crates env rty code.fields)
    (hinv : FieldsInv crates config access properties rmwv code)
    (hsize : properties.size = some size) (hrty : toTy (registerSize size) = .ok rty)
    {fc : FieldCode} (hfc : fc ∈ code.fields) {writer : WriterCode} (hwriter : writer ∈ fc.writer)
    {reader : ReaderCode} (hreader : reader ∈ fc.reader) {i o : Nat}
    (ho : fc.ElementAt crates rty i o) :
    namedWidth size fc.width o rty ≤ (env.resolve writer.proxy).width := by
  have hfit := ho.2
  obtain ⟨-, htop⟩ := @namedWidth_le rty size _ _ hfit
  obtain ⟨fty, hfty, hreads⟩ := hinv.reads hsize hrty hfc hreader ho
  obtain ⟨call, hleaves⟩ := (env.resolve writer.proxy).exists_leaves_zero
  obtain ⟨hwidth, hholds⟩ := h.call hinv hfc hwriter hfty ho hleaves
    (Nat.two_pow_pos _) (BitVec.allOnes _)
  by_contra hlt
  -- the first bit above the writer's run is still set
  have hzero := getLsbD_of_toNat_extract_eq_zero (i := o + (env.resolve writer.proxy).width)
    (by omega) ((hholds.named hreader hreads).2.trans (Nat.zero_mod _)) ⟨by omega, by omega⟩
  rw [getLsbD_insert hwidth (by omega), if_neg (by unfold InRun; omega),
    BitVec.getLsbD_allOnes] at hzero
  simp only [decide_eq_false_iff_not] at hzero
  omega

/-- A field that is written reads its own run. -/
theorem readsOwnRun_of_written (h : AccessorsSound crates env rty code.fields)
    (hinv : FieldsInv crates config access properties rmwv code)
    (hsize : properties.size = some size) (hrty : toTy (registerSize size) = .ok rty)
    {fc : FieldCode} (hfc : fc ∈ code.fields) {writer : WriterCode} (hwriter : writer ∈ fc.writer)
    {reader : ReaderCode} (hreader : reader ∈ fc.reader) {i o : Nat}
    (ho : fc.ElementAt crates rty i o) : ReadsOwnRun size fc := by
  obtain ⟨fty, hfty, hreads⟩ := hinv.reads hsize hrty hfc hreader ho
  obtain ⟨call, hleaves⟩ := (env.resolve writer.proxy).exists_leaves_zero
  obtain ⟨-, hholds⟩ := h.call hinv hfc hwriter hfty ho hleaves (Nat.two_pow_pos _) 0
  exact (namedTy_eq_iff hrty hfty).mp (hholds.named hreader hreads).1

/-- A field array whose accessors agree reads its own run. -/
theorem readsOwnRun_of_agree (h : AccessorsSound crates env rty code.fields)
    (hinv : FieldsInv crates config access properties rmwv code)
    (hsize : properties.size = some size) (hrty : toTy (registerSize size) = .ok rty)
    {fc : FieldCode} (hfc : fc ∈ code.fields) (harray : fc.field.isSingle = false)
    {reader : ReaderCode} (hreader : reader ∈ fc.reader) {i o : Nat}
    (ho : fc.ElementAt crates rty i o) : ReadsOwnRun size fc := by
  obtain ⟨fty, hfty, hreads⟩ := hinv.reads hsize hrty hfc hreader ho
  obtain ⟨value, hvalue⟩ := h.agree fc hfc reader hreader i o ho (BitVec.allOnes _)
  obtain ⟨named, hnamed, hnamedReads⟩ := hreads.named
  obtain ⟨indexed, hindexed, hindexedReads⟩ := hreads.indexed harray
  have hnamedValue := Except.ok.inj ((hnamedReads _).symm.trans (hvalue named hnamed))
  have heq := hnamedValue.trans
    (Except.ok.inj ((hindexedReads _).symm.trans (hvalue indexed hindexed))).symm
  exact (namedTy_eq_iff hrty hfty).mp (ReadValue.mk.inj heq).1

/-- **Sound accessors are aligned.**  Suitable words show each condition: all ones above a
field show a missing mask, and a value with all bits set shows a writer that is too wide. -/
theorem aligned_of_accessorsSound (hinv : FieldsInv crates config access properties rmwv code)
    (hsize : properties.size = some size) (hrty : toTy (registerSize size) = .ok rty)
    (h : AccessorsSound crates env rty code.fields) :
    AccessorsAligned crates env rty code.fields size where
  readers := by
    intro fc hfc hreadable hother i o ho
    obtain ⟨reader, hreader⟩ := Option.isSome_iff_exists.mp hreadable
    rcases hother with hwritable | harray
    · obtain ⟨writer, hwriter⟩ := Option.isSome_iff_exists.mp hwritable
      exact readsOwnRun_of_written h hinv hsize hrty hfc hwriter hreader ho
    · exact readsOwnRun_of_agree h hinv hsize hrty hfc harray hreader ho
  writers := by
    intro fc hfc writer hwriter i o ho
    obtain ⟨fty, _, _, hcode⟩ := hinv.codes fc hfc
    have hfit := ho.2
    obtain ⟨call, hleaves⟩ := (env.resolve writer.proxy).exists_leaves_zero
    obtain ⟨hwidth, -⟩ := h.call hinv hfc hwriter hcode.fty_ok ho hleaves
      (Nat.two_pow_pos _) 0
    refine ⟨hwidth, fun hreadable => ?_⟩
    obtain ⟨reader, hreader⟩ := Option.isSome_iff_exists.mp hreadable
    exact (namedWidth_le hfit).1.trans
      (namedWidth_le_of_sound h hinv hsize hrty hfc hwriter hreader ho)
  apart := by
    intro fc hfc writer hwriter k o hk gc hgc hreadable l o' hl hdisjoint i hi hi'
    obtain ⟨reader, hreader⟩ := Option.isSome_iff_exists.mp hreadable
    have hfit := hl.2
    obtain ⟨-, htop⟩ := @namedWidth_le rty size _ _ hfit
    obtain ⟨fty, _, _, hcode⟩ := hinv.codes fc hfc
    obtain ⟨gty, -, hreads⟩ := hinv.reads hsize hrty hgc hreader hl
    obtain ⟨call, hleaves⟩ := (env.resolve writer.proxy).exists_leaves_zero
    obtain ⟨hwidth, hholds⟩ := h.call hinv hfc hwriter hcode.fty_ok hk hleaves
      (Nat.two_pow_pos _) (BitVec.allOnes _)
    obtain ⟨path, hpath, hnamed⟩ := hreads.named
    have hframe := hholds.frame gc hgc reader hreader l o' hl hdisjoint path hpath
    rw [hnamed, hnamed] at hframe
    have hsame := (ReadValue.mk.inj (Except.ok.inj hframe)).2
    have hbit := getLsbD_of_extract_eq (by omega) (BitVec.eq_of_toNat_eq hsame) hi'
    -- the writer cleared the bit
    have hlt : i < rty.bits := by
      have hrun := hi'.2
      omega
    rw [getLsbD_insert hwidth hlt, if_pos hi, BitVec.getLsbD_allOnes] at hbit
    simp [hlt] at hbit

/-- Writers that are not re-exported have the width of their field, so with them only
unmasked readers matter. -/
theorem aligned_of_own (hinv : FieldsInv crates config access properties rmwv code)
    (hown : ∀ fc ∈ code.fields, ∀ writer ∈ fc.writer, ∀ base, writer.proxy ≠ .reexport base)
    (hreads : ∀ fc ∈ code.fields, ReadsOwnRun size fc) :
    AccessorsAligned crates env rty code.fields size := by
  have hwidth : ∀ fc ∈ code.fields, ∀ writer ∈ fc.writer,
      (env.resolve writer.proxy).width = fc.width := by
    intro fc hfc writer hwriter
    obtain ⟨_, _, _, hcode⟩ := hinv.codes fc hfc
    rcases hcode.writer_proxy writer hwriter with hproxy | hproxy
    · obtain ⟨valueTy, safety, hproxy⟩ := hproxy
      rw [hproxy, ProxyEnv.resolve, writerProxy_width]
      rfl
    · obtain ⟨base, hproxy⟩ := hproxy
      exact absurd hproxy (hown fc hfc writer hwriter base)
  refine ⟨fun fc hfc _ _ _ _ _ => hreads fc hfc, fun fc hfc writer hwriter i o ho => ?_, ?_⟩
  · rw [hwidth fc hfc writer hwriter]
    exact ⟨(Nat.le_add_left ..).trans ho.2, fun _ => le_rfl⟩
  · intro fc hfc writer hwriter i o ho gc hgc _ j o' ho' hdisjoint
    have hsame : namedWidth size gc.width o' rty = gc.width := if_neg (hreads gc hgc)
    rw [hwidth fc hfc writer hwriter, hsame]
    exact hdisjoint

end Aligned

/-- **Write and read back.**  The accessors of a rendered register are sound exactly when they
are aligned.  A writer replaces the run of its width and a reader extracts one: what was
written is read back if the two runs are the same, and a field without a common bit is left
alone if the runs are apart, whatever the declared widths are. -/
theorem accessorsSound_iff {crates : Crates} {config : Config} {register : Register}
    {access : Access} {rpath : RegisterPath} {index : Index} {code : RegisterCode} {size : Nat}
    (env : ProxyEnv) (hsize : register.info.properties.size = some size)
    (h : renderRegisterMod crates config register access rpath index = .ok code) :
    AccessorsSound crates env code.rty code.code.fields ↔
      AccessorsAligned crates env code.rty code.code.fields size := by
  obtain ⟨hinv, size', hsize', hrty⟩ := renderRegisterMod_ok h
  obtain rfl := Option.some.inj (hsize.symm.trans hsize')
  constructor
  · intro hsound
    exact aligned_of_accessorsSound hinv hsize hrty hsound
  · intro haligned
    exact accessorsSound_of_aligned hinv hsize hrty haligned

/-! ## A register of 24 bits -/

/-- A counter as wide as its register, which is stored in 32 bits, and two flags above it. -/
def statusRegister : RegisterInfo :=
  { plainRegister "SR" 0 24 with
    fields := some [
      .single (bitField "COUNT" 0 24),
      .array (bitField "FLAG%s" 24 1) ⟨2, 1, none, none, by simp⟩] }

theorem accessorsSound_threeBytes : ∃ code,
    renderRegisterMod asciiCrates defaultConfig (.single statusRegister) .readWrite
      controlPath levelIndex = .ok code ∧
    AccessorsSound asciiCrates modeEnv code.rty code.code.fields := by
  have hrender : renderRegisterMod asciiCrates defaultConfig (.single statusRegister)
    .readWrite controlPath levelIndex = .ok _ := rfl
  refine ⟨_, hrender, (accessorsSound_iff modeEnv rfl hrender).mpr ?_⟩
  apply aligned_of_own (renderRegisterMod_ok hrender).1
  · intro fc hfc writer hwriter base
    rcases List.mem_cons.mp hfc with rfl | hflag
    · obtain rfl := Option.some.inj hwriter
      exact nofun
    · obtain rfl := List.mem_singleton.mp hflag
      obtain rfl := Option.some.inj hwriter
      exact nofun
  · intro fc hfc hone
    cases hone.1

/-- SEL re-exports the four-bit writer of MODE: writing it changes what FLAG reads. -/
theorem not_accessorsSound_wideWriter : ∃ code,
    renderRegisterMod asciiCrates defaultConfig (.single sharedEnumRegister) .readWrite
      controlPath levelIndex = .ok code ∧
    (code.code.fields.map fun fc => fc.writer.map (·.proxy)) =
      [some (.own (modeEnv.writer ((controlPath.newField "MODE").newEnum "Level"))),
        some (.reexport ((controlPath.newField "MODE").newEnum "Level")),
        some (.own (.fieldWriter 2 "u8" .unsafe_))] ∧
    ¬ AccessorsSound asciiCrates modeEnv code.rty code.code.fields := by
  have hrender : renderRegisterMod asciiCrates defaultConfig (.single sharedEnumRegister)
    .readWrite controlPath levelIndex = .ok _ := rfl
  obtain ⟨hinv, size, hsize, hrty⟩ := renderRegisterMod_ok hrender
  obtain rfl := Option.some.inj hsize
  refine ⟨_, hrender, rfl, fun h => ?_⟩
  have haligned := aligned_of_accessorsSound hinv rfl hrty h
  -- four bits at the offset of SEL reach bit 6, the first of FLAG
  have hapart : DisjointRuns 4 4 6 2 :=
    haligned.apart _ (List.mem_cons_of_mem _ List.mem_cons_self) _ rfl 0 4 ⟨rfl, by decide⟩ _
      (List.mem_cons_of_mem _ (List.mem_cons_of_mem _ List.mem_cons_self)) rfl 0 6
      ⟨rfl, by decide⟩ (fun i hi hi' => by
        have hbelow := hi.2
        have habove := hi'.1
        simp only [FieldCode.width] at hbelow
        change i < 4 + 2 at hbelow
        omega)
  exact hapart 6 ⟨by decide, by decide⟩ ⟨by decide, by decide⟩

end Svd2Rust
