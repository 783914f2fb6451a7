import Svd2Rust.EnumRoundTrip

/-!
# Reading a derived enumeration

A field that takes its enumeration from another one re-exports the reader of that field,
`variant()` included.  The method was made for the width of the other field, and the
accessors hand it the bits of this one; the compiler only compares the integer types.

`derivedReads_iff` says when every value is decoded as the enumeration asks: always in a
field that is not wider, and in a wider one where the enumeration leaves room.
-/

namespace Svd2Rust

open BitFields WordCells

/-! ## Values the method was not made for -/

/-- The last arm is right for all values beyond the field.  Without a default the field must
have a value without a name, so that the method returns an `Option`.  With one the default
must still be the last arm, as it is while it has more than one value to stand for. -/
def RoomBeyond (evs : EnumeratedValues) (width : Nat) : Prop :=
  match evs.defaultValue with
  | none => evs.kept.length ≠ 2 ^ width
  | some _ => evs.kept.length + 1 < 2 ^ width ∧ ∃ b < 2 ^ width, b ∉ evs.listed

section Beyond

variable {crates : Crates} {config : Config} {evs : EnumeratedValues} {width b : Nat}

theorem roomBeyond_none (h : evs.defaultValue = none) :
    RoomBeyond evs width ↔ evs.kept.length ≠ 2 ^ width := by
  unfold RoomBeyond
  rw [h]

theorem roomBeyond_some {entry : EnumeratedValue} (h : evs.defaultValue = some entry) :
    RoomBeyond evs width ↔
      evs.kept.length + 1 < 2 ^ width ∧ ∃ b < 2 ^ width, b ∉ evs.listed := by
  unfold RoomBeyond
  rw [h]

/-- No arm is for a value beyond the field. -/
theorem HasArms.find_beyond {method : VariantMethod} {variants : List Variant}
    (h : HasArms method variants width) (hwide : width ≠ 1) (hb : 2 ^ width ≤ b) :
    method.arms.find? (·.1 = unsuffixedOrBool b width) = none := by
  apply List.find?_eq_none.mpr
  intro arm harm hlit
  rw [h.arms] at harm
  obtain ⟨v, hv, rfl⟩ := List.mem_map.mp harm
  have hlit : unsuffixedOrBool v.value width = unsuffixedOrBool b width := by simpa using hlit
  rw [unsuffixedOrBool, if_neg hwide, unsuffixedOrBool, if_neg hwide] at hlit
  have hfits := h.fits v hv
  have hsame := Literal.int.inj hlit
  omega

/-- Without a default in the last arm only `None` is a right answer. -/
theorem HasArms.decodesTo_beyond {method : VariantMethod} {variants : List Variant}
    (h : HasArms method variants width) (hwide : width ≠ 1) (hb : 2 ^ width ≤ b)
    (hfallback : fallbackArm variants none method.optional width = .ok method.fallback)
    {entry : Option EnumeratedValue} :
    DecodesTo crates config (method.call width b) b entry ↔
      method.optional = true ∧ entry = none := by
  have hfind := h.find_beyond hwide hb
  have hlast := fallbackArm_noDefault hfallback
  cases hoptional : method.optional with
  | true =>
      rw [hoptional, if_pos rfl] at hlast
      have hcall : method.call width b = .noVariant := by
        simp [VariantMethod.call, hfind, hlast]
      rw [hcall]
      simp
  | false =>
      rw [hoptional, if_neg Bool.false_ne_true] at hlast
      rcases hlast with hlast | hlast
      · have hcall : method.call width b = .unreachable := by
          simp [VariantMethod.call, hfind, hlast]
        rw [hcall]
        simp
      · have hcall : method.call width b = .noArm := by
          simp [VariantMethod.call, hfind, hlast]
        rw [hcall]
        simp

/-- The default in the last arm is right for a value beyond the field. -/
theorem HasArms.decodesTo_beyond_default {method : VariantMethod} {variants : List Variant}
    (h : HasArms method variants width) (hwide : width ≠ 1) (hb : 2 ^ width ≤ b)
    {entry : EnumeratedValue} {x : Nat} (hentry : evs.defaultValue = some entry)
    (hlast : method.fallback = .variant (Variant.fromValue crates config x entry)) :
    DecodesTo crates config (method.call width b) b (some entry) := by
  have hcall : method.call width b = .variant (Variant.fromValue crates config x entry) := by
    simp [VariantMethod.call, h.find_beyond hwide hb, hlast]
  obtain ⟨-, hdefault⟩ := EnumeratedValues.defaultValue_some hentry
  rw [hcall]
  exact ⟨x, rfl, fun hother => absurd (hdefault.symm.trans hother) (by decide)⟩

/-- With arms for the kept entries only, a method that decodes its field returns an `Option`
without a default exactly when there is room. -/
theorem optional_iff_roomBeyond (wf : WellFormedEnum evs width) {method : VariantMethod}
    {variants : List Variant} (hkept : KeptVariants crates config evs variants)
    (hall : HasArms method variants width)
    (hfallback : fallbackArm variants none method.optional width = .ok method.fallback)
    (hsome : method.optional = true ↔ evs.values.length ≠ 2 ^ width)
    (hdecodes : Decodes crates config evs width method)
    (hsource : evs.defaultValue = none ∨ ∀ b < 2 ^ width, b ∈ evs.listed) :
    method.optional = true ∧ evs.defaultValue = none ↔ RoomBeyond evs width := by
  have hle := hkept.length_le wf
  have hlength : variants.length = evs.kept.length := hkept.length_eq.symm
  have hcounts := (decodes_iff_of_keptOnly hkept wf hall hsome
    (fallbackArm_noDefault hfallback)).mp hdecodes
  rw [hsome]
  cases hentry : evs.defaultValue with
  | none =>
      rw [roomBeyond_none hentry, and_iff_left rfl]
      constructor
      · intro hne hfull
        exact hne (hcounts.full hfull)
      · intro hne
        exact (hcounts.short (lt_of_le_of_ne hle hne)).1
  | some entry =>
      have hevery := hsource.resolve_left (by simp [hentry])
      rw [roomBeyond_some hentry]
      constructor
      · intro hnone
        exact absurd hnone.2 (Option.some_ne_none entry)
      · intro hroom
        obtain ⟨-, x, hx, hnot⟩ := hroom
        exact absurd (hevery x hx) hnot

/-- **Beyond the field.**  A method that decodes its own field decodes a value beyond it
exactly when there is room. -/
theorem decodesTo_beyond_iff (wf : WellFormedEnum evs width) {items : List Variant}
    {method : VariantMethod} {predicates : List VariantPredicate}
    (h : readEnum crates config evs width = .ok (.enum items method predicates))
    (hdecodes : Decodes crates config evs width method) (hwide : width ≠ 1)
    (hb : 2 ^ width ≤ b) :
    DecodesTo crates config (method.call width b) b (expectedEntry evs b) ↔
      RoomBeyond evs width := by
  obtain ⟨variants, hole, hkept, hhole, harms, hoptional, hfallback⟩ := readEnum_enum h
  have hlength : variants.length = evs.kept.length := hkept.length_eq.symm
  have hle := hkept.length_le wf
  have hfits := hasArms_kept hkept wf
  have hsource := defaultVariant_ok hhole
  have hunlisted : b ∉ evs.listed := by
    intro hlisted
    have hfit := wf.fits b hlisted
    omega
  rw [expectedEntry_of_unlisted hunlisted]
  cases hole with
  | none =>
      rw [settleDefault_none] at harms hoptional hfallback
      have hall : HasArms method variants width := ⟨harms, hfits⟩
      have hsome : method.optional = true ↔ evs.values.length ≠ 2 ^ width := by simp [hoptional]
      rw [hall.decodesTo_beyond hwide hb hfallback]
      exact optional_iff_roomBeyond wf hkept hall hfallback hsome hdecodes hsource
  | some v =>
      obtain ⟨entry, x, hentry, hx, hnot, rfl⟩ := hsource
      have hshort : evs.kept.length ≠ 2 ^ width := by
        intro hfull
        exact hnot (EnumeratedValues.listed_of_mem_keptValues
          ((hkept.length_eq_iff wf).mp hfull x hx))
      rw [roomBeyond_some hentry, hentry]
      by_cases hgap : evs.kept.length + 1 = 2 ^ width
      · rw [settleDefault_some_gap (by omega)] at harms hfallback
        have hall : HasArms method
            (variants ++ [Variant.fromValue crates config x entry]) width := by
          refine ⟨harms, fun v hv => ?_⟩
          rcases List.mem_append.mp hv with hmem | hmem
          · exact hfits v hmem
          · exact List.mem_singleton.mp hmem ▸ hx
        rw [hall.decodesTo_beyond hwide hb hfallback]
        constructor
        · intro hnone
          exact absurd hnone.2 (Option.some_ne_none entry)
        · intro hroom
          have hlt := hroom.1
          omega
      · rw [settleDefault_some_short (by omega) (by omega)] at harms hoptional hfallback
        have hall : HasArms method variants width := ⟨harms, hfits⟩
        have hnever : method.optional = false := by simp [hoptional]
        rw [hnever] at hfallback
        have hlast : method.fallback = .variant (Variant.fromValue crates config x entry) :=
          (gen_pure_ok.mp hfallback).symm
        exact iff_of_true (hall.decodesTo_beyond_default hwide hb hentry hlast)
          ⟨by omega, x, hx, hnot⟩

end Beyond

/-! ## The bits of the deriving field -/

/-- Only fields of one bit are read as `bool`. -/
theorem toTy_one_iff {width width' : Nat} {fty : RustTy} (h : toTy width = .ok fty)
    (h' : toTy width' = .ok fty) : width = 1 ↔ width' = 1 := by
  have hbool : ∀ w, toTy w = .ok fty → (w = 1 ↔ fty = .bool) := by
    intro w hw
    unfold toTy at hw
    constructor
    · rintro rfl
      exact (Except.ok.inj hw).symm
    · rintro rfl
      by_contra hne
      rw [if_neg hne] at hw
      split_ifs at hw <;> cases hw
  rw [hbool width h, hbool width' h']

/-- A cell inside the word can hold any value of its width. -/
theorem Cell.exists_get {n : Nat} (c : Cell) (hfits : c.offset + c.width ≤ n) {value : Nat}
    (hvalue : value < 2 ^ c.width) : ∃ word : BitVec n, (c.get word).toNat = value := by
  refine ⟨insert 0 c.offset c.width (BitVec.ofNat n value), ?_⟩
  have hpow : 2 ^ c.width ∣ 2 ^ n := Nat.pow_dvd_pow 2 (by omega)
  rw [Cell.get, extract_insert_self hfits, toNat_and_lowMask (by omega), BitVec.toNat_ofNat,
    Nat.mod_mod_of_dvd _ hpow, Nat.mod_eq_of_lt hvalue]

section Register

variable {crates : Crates} {config : Config} {index : Index} {access baccess : Access}
  {rpath brpath : RegisterPath} {fc bfc : FieldCode} {evs : EnumeratedValues} {enum : EnumReader}

/-- The field re-exports the reader of the base field, whose enumeration it takes.  What the
base field's method matches on has the integer type of the field's bits, or the accessors
would not compile. -/
structure SharesReader (crates : Crates) (config : Config) (index : Index) (access : Access)
    (rpath : RegisterPath) (fc : FieldCode) (baccess : Access) (brpath : RegisterPath)
    (bfc : FieldCode) (evs : EnumeratedValues) (enum : EnumReader) : Prop where
  shared : ∃ base rmwv field fdpath lookup rwenum,
    IsRound crates config rmwv access rpath index field fc fdpath lookup rwenum ∧
      rwenum.readEnum = some (.derived evs base) ∧
        base.field = brpath.newField bfc.field.info.name ∧
          ∃ reader ∈ fc.reader, reader.proxy = .reexport base
  made : ∃ rmwv field fdpath lookup rwenum reader,
    IsRound crates config rmwv baccess brpath index field bfc fdpath lookup rwenum ∧
      rwenum.readEnum = some (.new evs) ∧ bfc.reader = some reader ∧
        reader.enumReader = some enum
  sameTy : toTy bfc.width = toTy fc.width

/-- The method is made for the width of the base field. -/
theorem SharesReader.readEnum_eq
    (h : SharesReader crates config index access rpath fc baccess brpath bfc evs enum) :
    readEnum crates config evs bfc.width = .ok enum := by
  obtain ⟨rmwv, field, fdpath, lookup, rwenum, reader, hround, hnew, hreader, henum⟩ := h.made
  obtain ⟨mask, fty, useCast, useMask, derives, derives', hread⟩ := hround.read
  rw [hreader] at hread
  obtain ⟨made, hmade, hsome⟩ := enumReader_of_round hnew hread
  obtain rfl := Option.some.inj (hsome.symm.trans henum)
  exact hmade

variable {register : Register} {code : RegisterCode} {size : Nat}

/-- **Reading through another field's reader.**  Where the method decodes the values of the
field it was made for, it decodes all values of the field that derives the enumeration exactly
if that field is not wider or the enumeration has room for the values beyond.  The method is
the one of the other field and gets the values of this one; beyond the width of the other
field it takes its last arm, which is right there only if it stands for more than what it was
made for. -/
theorem derivedReads_iff
    (hrender : renderRegisterMod crates config register access rpath index = .ok code)
    (hsize : register.info.properties.size = some size) {e : Element}
    (hfc : code.code.fields[e.field]? = some fc) {i : Nat}
    (hat : fc.ElementAt crates code.rty i e.offset) (hown : ReadsOwnRun size fc)
    {items : List Variant} {method : VariantMethod} {predicates : List VariantPredicate}
    (hshares : SharesReader crates config index access rpath fc baccess brpath bfc evs
      (.enum items method predicates))
    (wf : WellFormedEnum evs bfc.width) (hdecodes : Decodes crates config evs bfc.width method)
    {reader : ReaderCode} (hreader : reader ∈ fc.reader) {path : ReadAccessor × Nat}
    (hpath : path ∈ readPaths fc.field reader.accessors i) :
    (∀ bits, ∃ fty raw, path.1.read code.rty bits path.2 = .ok ⟨fty, raw⟩ ∧
      DecodesTo crates config (method.call bfc.width raw) raw (expectedEntry evs raw)) ↔
        fc.width ≤ bfc.width ∨ RoomBeyond evs bfc.width := by
  have hmade := hshares.readEnum_eq
  have hinv := (renderRegisterMod_ok hrender).1
  obtain ⟨fty, useCast, useMask, hcode⟩ := hinv.codes fc (List.mem_of_getElem? hfc)
  have hfty : toTy fc.width = .ok fty := hcode.fty_ok
  have hone := toTy_one_iff (hshares.sameTy.trans hfty) hfty
  have hcell : e.cell code.code.fields = ⟨e.offset, fc.width⟩ := Element.cell_eq hfc
  have hreads : ∀ bits, path.1.read code.rty bits path.2 =
      .ok ⟨fty, ((e.cell code.code.fields).get bits).toNat⟩ :=
    read_cell hrender hsize hfc hat hown hreader hfty hpath
  rw [hcell] at hreads
  constructor
  · intro hall
    by_contra hnot
    push Not at hnot
    obtain ⟨hwider, hroom⟩ := hnot
    have hpow : 2 ^ bfc.width < 2 ^ fc.width := Nat.pow_lt_pow_right (by omega) hwider
    -- the least value the method was not made for
    obtain ⟨bits, hbits⟩ := Cell.exists_get (⟨e.offset, fc.width⟩ : Cell) hat.2 hpow
    obtain ⟨ty, raw, hread, hreturn⟩ := hall bits
    obtain ⟨rfl, rfl⟩ := ReadValue.mk.inj (Except.ok.inj ((hreads bits).symm.trans hread))
    rw [hbits] at hreturn
    exact hroom ((decodesTo_beyond_iff wf hmade hdecodes (by omega) le_rfl).mp hreturn)
  · intro hcases bits
    refine ⟨fty, _, hreads bits, ?_⟩
    have hfit : fc.width ≤ code.rty.bits := by
      have htop := hat.2
      omega
    have hlt : ((⟨e.offset, fc.width⟩ : Cell).get bits).toNat < 2 ^ fc.width :=
      toNat_extract_lt hfit bits e.offset
    generalize ((⟨e.offset, fc.width⟩ : Cell).get bits).toNat = raw at hlt ⊢
    by_cases hraw : raw < 2 ^ bfc.width
    · exact hdecodes.returns raw hraw
    · have hwider : bfc.width < fc.width := by
        by_contra hle
        have hpow : 2 ^ fc.width ≤ 2 ^ bfc.width := Nat.pow_le_pow_right (by omega) (by omega)
        omega
      have hroom := hcases.resolve_left (by omega)
      exact (decodesTo_beyond_iff wf hmade hdecodes (by omega) (by omega)).mpr hroom

end Register

/-- A name for each of the four values of a two-bit field. -/
def gearEnum : EnumeratedValues :=
  { plainEnum [valuedEntry "Off" 0, valuedEntry "Slow" 1, valuedEntry "Fast" 2, valuedEntry "Auto" 3]
    with name := some "Gear" }

/-- An index that knows it as that of the field MODE. -/
def gearIndex : Index where
  registers _ := none
  clusters _ := none
  evs path := if path = (controlPath.newField "MODE").newEnum "Gear" then some gearEnum else none

/-- MODE has two bits, and SEL takes its enumeration for three. -/
def gearRegister : RegisterInfo :=
  { plainRegister "CR" 0 8 with
    fields := some [
      .single { bitField "MODE" 0 2 with enumeratedValues := [gearEnum] },
      .single { bitField "SEL" 4 3 with
        enumeratedValues := [{ gearEnum with derivedFrom := some "MODE.Gear" }] }] }

def gearCode : RegisterCode :=
  match renderRegisterMod asciiCrates defaultConfig (.single gearRegister) .readWrite controlPath
    gearIndex with
  | .ok code => code
  | .error _ => ⟨.u8, false, false, .safe, ⟨[], 0, 0⟩, none⟩

theorem gearCode_eq : renderRegisterMod asciiCrates defaultConfig (.single gearRegister) .readWrite
    controlPath gearIndex = .ok gearCode := rfl

def gearField (k : Nat) : FieldCode :=
  (gearCode.code.fields[k]?).getD ⟨.single (bitField "" 0 0), none, none⟩

def gearItems : List Variant :=
  ["Off", "Slow", "Fast", "Auto"].zipIdx.map fun (name, value) =>
    Variant.fromValue asciiCrates defaultConfig value (valuedEntry name value)

/-- The method of MODE. -/
def gearMethod : VariantMethod where
  arms := gearItems.map fun v => (.int v.value, v)
  fallback := .unreachable
  optional := false

theorem gearEnum_wellFormed : WellFormedEnum gearEnum 2 where
  distinct := by decide +kernel
  fits := by decide +kernel
  oneDefault := by decide +kernel

theorem gearEnum_decodes : Decodes asciiCrates defaultConfig gearEnum 2 gearMethod := by
  have hkept : KeptVariants asciiCrates defaultConfig gearEnum gearItems :=
    .cons ⟨0, rfl, rfl⟩ (.cons ⟨1, rfl, rfl⟩ (.cons ⟨2, rfl, rfl⟩ (.cons ⟨3, rfl, rfl⟩ .nil)))
  have harms : HasArms gearMethod gearItems 2 := ⟨rfl, by decide +kernel⟩
  refine (decodes_iff_of_keptOnly hkept gearEnum_wellFormed harms (by decide +kernel) ?_).mpr ?_
  · exact .inl rfl
  · exact ⟨fun _ => rfl, fun hshort => absurd hshort (by decide +kernel)⟩

theorem gearField_shares : SharesReader asciiCrates defaultConfig gearIndex .readWrite controlPath
    (gearField 1) .readWrite controlPath (gearField 0) gearEnum
    (.enum gearItems gearMethod (gearItems.map (variantPredicate false))) where
  shared := by
    refine ⟨(controlPath.newField "MODE").newEnum "Gear", none, (gearField 1).field, none, _,
      .readWriteCommon (.derived gearEnum ((controlPath.newField "MODE").newEnum "Gear")),
      ⟨rfl, rfl, rfl, ⟨7, .u8, false, true, ⟨["Gear"], [], [], [], []⟩, _, rfl⟩,
        ⟨.u8, ⟨["Gear"], [], [], [], []⟩, _, rfl⟩⟩, rfl, rfl, _, rfl, rfl⟩
  made := by
    refine ⟨none, (gearField 0).field, none, _, .readWriteCommon (.new gearEnum), _,
      ⟨rfl, rfl, rfl, ⟨3, .u8, false, true, ⟨[], [], [], [], []⟩, _, rfl⟩,
        ⟨.u8, ⟨[], [], [], [], []⟩, _, rfl⟩⟩, rfl, rfl, rfl⟩
  sameTy := rfl

/-- The values of MODE leave none over, so that some value of SEL is not decoded. -/
theorem derivedReads_iff_sel : ∃ reader path, (gearField 1).reader = some reader ∧
    readPaths (gearField 1).field reader.accessors 0 = [path] ∧
      ¬ ∀ bits, ∃ fty raw, path.1.read gearCode.rty bits path.2 = .ok ⟨fty, raw⟩ ∧
        DecodesTo asciiCrates defaultConfig (gearMethod.call 2 raw) raw
          (expectedEntry gearEnum raw) := by
  have hat : (gearField 1).ElementAt asciiCrates gearCode.rty 0 4 := ⟨rfl, by decide +kernel⟩
  have hown : ReadsOwnRun 8 (gearField 1) := fun hone => absurd hone.1 (by decide)
  have hfield : gearCode.code.fields[(⟨1, 4⟩ : Element).field]? = some (gearField 1) := rfl
  refine ⟨_, _, rfl, rfl, fun hall => ?_⟩
  have hcond := (derivedReads_iff gearCode_eq rfl hfield hat hown gearField_shares
    gearEnum_wellFormed gearEnum_decodes rfl List.mem_cons_self).mp hall
  rcases hcond with hle | hroom
  · exact absurd hle (by decide +kernel)
  · rw [roomBeyond_none rfl] at hroom
    exact absurd hroom (by decide +kernel)

end Svd2Rust
