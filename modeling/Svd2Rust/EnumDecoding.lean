import Mathlib.Data.Finset.Card
import Mathlib.Data.Finset.Range
import Mathlib.Data.List.Pairwise
import Svd2Rust.EnumVariants
import Svd2Rust.AsciiCrates

/-!
# Decoding an enumeration

The read half of an enumeration in `register::fields`: the generated enum, its
`variant` method and the `is_*` predicates.  The generator picks the arms of the
`match` by counting the kept variants, all entries and the values of the field.
`decodes_iff_decodable` says for which enumerations the three counts give the
decoding the entries ask for.
-/

namespace Svd2Rust

/-! ## The generated code -/

/-- The patterns of `unsuffixed_or_bool`. -/
inductive Literal where
  | int (n : Nat)
  | bool (b : Bool)
deriving DecidableEq, Repr

/-- `util::unsuffixed_or_bool`; also how a reader of that width holds its bits. -/
def unsuffixedOrBool (n width : Nat) : Literal :=
  if width = 1 then .bool (n != 0) else .int n

/-- The arm behind the literal ones. -/
inductive Fallback where
  | noVariant
  | variant (v : Variant)
  | unreachable
  | absent
deriving DecidableEq, Repr

/-- The generated `variant` method.  With `optional` the return type is `Option`
and the arms wrap their variant in `Some`. -/
structure VariantMethod where
  arms : List (Literal × Variant)
  fallback : Fallback
  optional : Bool
deriving DecidableEq, Repr

/-- A generated `is_*` predicate; the one of the default calls `variant`. -/
structure VariantPredicate where
  doc : String
  name : String
  pc : String
  callsVariant : Bool
deriving DecidableEq, Repr

/-- What the reader of an enumeration consists of. -/
inductive EnumReader where
  | newtype
  | enum (items : List Variant) (method : VariantMethod) (predicates : List VariantPredicate)
deriving DecidableEq, Repr

/-- The counts that settle where the default goes: dropped when the variants
already fill the field, one of them when it fills the last gap. -/
def settleDefault (variants : List Variant) (default : Option Variant) (full : Nat) :
    List Variant × Option Variant :=
  if variants.length = full then (variants, none)
  else if variants.length = full - 1 then (variants ++ default.toList, none)
  else (variants, default)

/-- The last arm of the `match`. -/
def fallbackArm (variants : List Variant) (default : Option Variant) (hasReserved : Bool)
    (width : Nat) : Gen Fallback :=
  if hasReserved then return .noVariant
  else match default with
    | some v => return .variant v
    | none => do
        let tyWidth ← toTyWidth width
        let representable ← shlOne tyWidth
        return if representable ≠ variants.length then .unreachable else .absent

/-- A predicate of the generated reader. -/
def variantPredicate (callsVariant : Bool) (v : Variant) : VariantPredicate :=
  ⟨escapeSpecialChars (respace v.doc), v.isSc, v.pc, callsVariant⟩

/-- `EV::New` of a readable field in `register::fields`. -/
def readEnum (crates : Crates) (config : Config) (evs : EnumeratedValues) (width : Nat) :
    Gen EnumReader := do
  let kept ← Variant.fromEnumeratedValues crates config evs
  let hole ← defaultVariant crates config evs width
  let hole ← newDefault crates hole
  let full ← shlOne width
  let (variants, default) := settleDefault kept hole full
  if variants.isEmpty && default.isNone then return .newtype
  else
    let hasReserved := default.isNone && evs.values.length != full
    let fallback ← fallbackArm variants default hasReserved width
    let arms := variants.map fun v => (unsuffixedOrBool v.value width, v)
    return .enum (variants ++ default.toList) ⟨arms, fallback, hasReserved⟩
      (variants.map (variantPredicate false) ++ default.toList.map (variantPredicate true))

/-- What `variant()` does on a raw value.  `noArm` is a `match` without an arm for
the value, which the compiler would refuse. -/
inductive ReadResult where
  | variant (v : Variant)
  | noVariant
  | unreachable
  | noArm
deriving DecidableEq, Repr

/-- `match self.bits { .. }` on the raw value `b`. -/
def VariantMethod.call (method : VariantMethod) (width b : Nat) : ReadResult :=
  match method.arms.find? (·.1 = unsuffixedOrBool b width) with
  | some (_, v) => .variant v
  | none => match method.fallback with
    | .noVariant => .noVariant
    | .variant v => .variant v
    | .unreachable => .unreachable
    | .absent => .noArm

/-! ## What the entries ask for -/

/-- The entry that names `b`: one with that value and a name that is not reserved,
else the default if `b` is not listed. -/
def expectedEntry (evs : EnumeratedValues) (b : Nat) : Option EnumeratedValue :=
  match evs.values.find? fun ev => !isReserved ev.name && ev.value == some b with
  | some ev => some ev
  | none => if b ∈ evs.listed then none else evs.defaultValue

/-- `variant()` returns the variant of the entry that names the value, and `None`
if there is none.  The default's variant carries a value of its own. -/
def DecodesTo (crates : Crates) (config : Config) (result : ReadResult) (b : Nat) :
    Option EnumeratedValue → Prop
  | none => result = .noVariant
  | some ev => ∃ x, result = .variant (Variant.fromValue crates config x ev) ∧
      (ev.isDefault = false → x = b)

/-- The method is total on the field, decodes as the entries ask and returns an
`Option` exactly when some value of the field has no variant. -/
structure Decodes (crates : Crates) (config : Config) (evs : EnumeratedValues) (width : Nat)
    (method : VariantMethod) : Prop where
  returns : ∀ b < 2 ^ width,
    DecodesTo crates config (method.call width b) b (expectedEntry evs b)
  optional : method.optional = true ↔ ∃ b < 2 ^ width, expectedEntry evs b = none

/-- Distinct values that fit the field, and at most one default. -/
structure WellFormedEnum (evs : EnumeratedValues) (width : Nat) : Prop where
  distinct : evs.listed.Nodup
  fits : ∀ v ∈ evs.listed, v < 2 ^ width
  oneDefault : ∀ ev ∈ evs.values, ∀ ev' ∈ evs.values,
    ev.isDefault = true → ev'.isDefault = true → ev = ev'

/-- When the counts decide rightly.  Without a default: all values are kept exactly
when there are as many entries as values.  With a default and every value listed:
the default neither holds a value under a name of its own nor leaves the counts
without a gap.  With a default and a gap: no value is listed as reserved, and a
single gap makes the entries as many as the values. -/
def DecodableEnum (evs : EnumeratedValues) (width : Nat) : Prop :=
  match evs.defaultValue with
  | none => evs.kept.length = 2 ^ width ↔ evs.values.length = 2 ^ width
  | some entry =>
      if ∀ b < 2 ^ width, b ∈ evs.listed then
        evs.kept.length < 2 ^ width ∧ evs.values.length ≠ 2 ^ width ∧
          (entry.value = none ∨ isReserved entry.name = true)
      else
        (∀ ev ∈ evs.values, isReserved ev.name = true → ev.value = none) ∧
          (evs.kept.length + 1 = 2 ^ width → evs.values.length = 2 ^ width)

instance (evs : EnumeratedValues) (width : Nat) : Decidable (DecodableEnum evs width) :=
  match hentry : evs.defaultValue with
  | none => decidable_of_iff (evs.kept.length = 2 ^ width ↔ evs.values.length = 2 ^ width)
      (by simp [DecodableEnum, hentry])
  | some entry => decidable_of_iff
      (if ∀ b < 2 ^ width, b ∈ evs.listed then
        evs.kept.length < 2 ^ width ∧ evs.values.length ≠ 2 ^ width ∧
          (entry.value = none ∨ isReserved entry.name = true)
      else
        (∀ ev ∈ evs.values, isReserved ev.name = true → ev.value = none) ∧
          (evs.kept.length + 1 = 2 ^ width → evs.values.length = 2 ^ width))
      (by simp only [DecodableEnum, hentry])

section Results

variable {crates : Crates} {config : Config} {b : Nat} {entry : Option EnumeratedValue}

@[simp] theorem decodesTo_noVariant :
    DecodesTo crates config .noVariant b entry ↔ entry = none := by
  cases entry <;> simp [DecodesTo]

@[simp] theorem not_decodesTo_unreachable : ¬ DecodesTo crates config .unreachable b entry := by
  cases entry <;> simp [DecodesTo]

@[simp] theorem not_decodesTo_noArm : ¬ DecodesTo crates config .noArm b entry := by
  cases entry <;> simp [DecodesTo]

end Results

/-! ## Distinct values below a bound -/

/-- Distinct values below `n` are at most `n`. -/
theorem length_le_of_nodup_lt {n : Nat} {values : List Nat} (hnodup : values.Nodup)
    (hlt : ∀ v ∈ values, v < n) : values.length ≤ n := by
  have hsubset : values.toFinset ⊆ Finset.range n := by
    intro v hv
    exact Finset.mem_range.mpr (hlt v (List.mem_toFinset.mp hv))
  have hcard := Finset.card_le_card hsubset
  rwa [List.toFinset_card_of_nodup hnodup, Finset.card_range] at hcard

/-- Distinct values below `n` are all of them exactly when there are `n`. -/
theorem length_eq_iff_covers {n : Nat} {values : List Nat} (hnodup : values.Nodup)
    (hlt : ∀ v ∈ values, v < n) : values.length = n ↔ ∀ b < n, b ∈ values := by
  have hsubset : values.toFinset ⊆ Finset.range n := by
    intro v hv
    exact Finset.mem_range.mpr (hlt v (List.mem_toFinset.mp hv))
  constructor
  · intro hlength b hb
    have hcard : (Finset.range n).card ≤ values.toFinset.card := by
      rw [List.toFinset_card_of_nodup hnodup, Finset.card_range, hlength]
    have heq := Finset.eq_of_subset_of_card_le hsubset hcard
    exact List.mem_toFinset.mp (heq ▸ Finset.mem_range.mpr hb)
  · intro hcovers
    have heq : values.toFinset = Finset.range n := by
      apply Finset.Subset.antisymm hsubset
      intro b hb
      exact List.mem_toFinset.mpr (hcovers b (Finset.mem_range.mp hb))
    rw [← List.toFinset_card_of_nodup hnodup, heq, Finset.card_range]

/-! ## The entry of a value -/

section Entries

variable {evs : EnumeratedValues} {width : Nat}

/-- Two entries of one value are one entry. -/
theorem entry_unique (hnodup : evs.listed.Nodup) {ev ev' : EnumeratedValue} {b : Nat}
    (hev : ev ∈ evs.values) (hev' : ev' ∈ evs.values) (hb : ev.value = some b)
    (hb' : ev'.value = some b) : ev = ev' := by
  have hpairs := List.pairwise_filterMap.mp hnodup
  have hsymm : Std.Symm fun a a' : EnumeratedValue =>
      ∀ v, a.value = some v → ∀ v', a'.value = some v' → v ≠ v' :=
    ⟨fun _ _ h v hv v' hv' => (h v' hv' v hv).symm⟩
  by_contra hne
  exact hpairs.forall hev hev' hne b hb b hb' rfl

/-- An entry with a name of its own names its value. -/
theorem expectedEntry_of_named (hnodup : evs.listed.Nodup) {ev : EnumeratedValue} {b : Nat}
    (hev : ev ∈ evs.values) (hname : isReserved ev.name = false) (hb : ev.value = some b) :
    expectedEntry evs b = some ev := by
  unfold expectedEntry
  cases hfind : evs.values.find? fun ev => !isReserved ev.name && ev.value == some b with
  | none =>
      have hnot := List.find?_eq_none.mp hfind ev hev
      simp [hname, hb] at hnot
  | some found =>
      have hfound := List.find?_some hfind
      simp only [Bool.and_eq_true, beq_iff_eq] at hfound
      rw [entry_unique hnodup (List.mem_of_find?_eq_some hfind) hev hfound.2 hb]

/-- A value listed as reserved has no entry. -/
theorem expectedEntry_of_reserved (hnodup : evs.listed.Nodup) {ev : EnumeratedValue} {b : Nat}
    (hev : ev ∈ evs.values) (hname : isReserved ev.name = true) (hb : ev.value = some b) :
    expectedEntry evs b = none := by
  have hnone : (evs.values.find? fun ev => !isReserved ev.name && ev.value == some b) = none := by
    apply List.find?_eq_none.mpr
    intro other hother hnamed
    simp only [Bool.and_eq_true, Bool.not_eq_true', beq_iff_eq] at hnamed
    obtain rfl := entry_unique hnodup hother hev hnamed.2 hb
    simp [hname] at hnamed
  have hlisted : b ∈ evs.listed := EnumeratedValues.mem_listed.mpr ⟨ev, hev, hb⟩
  simp [expectedEntry, hnone, hlisted]

/-- A value that is not listed has the default's entry. -/
theorem expectedEntry_of_unlisted {b : Nat} (hb : b ∉ evs.listed) :
    expectedEntry evs b = evs.defaultValue := by
  have hnone : (evs.values.find? fun ev => !isReserved ev.name && ev.value == some b) = none := by
    apply List.find?_eq_none.mpr
    intro ev hev hnamed
    simp only [Bool.and_eq_true, beq_iff_eq] at hnamed
    exact hb (EnumeratedValues.mem_listed.mpr ⟨ev, hev, hnamed.2⟩)
  simp [expectedEntry, hnone, hb]

/-- The values of the kept entries are distinct. -/
theorem kept_values_nodup (hnodup : evs.listed.Nodup) : (evs.kept.filterMap (·.value)).Nodup :=
  hnodup.sublist (List.Sublist.filterMap _ List.filter_sublist)

end Entries

/-! ## The generated match -/

/-- The pattern of a value of the field is the pattern of no other value. -/
theorem unsuffixedOrBool_inj {width a b : Nat} (ha : a < 2 ^ width) (hb : b < 2 ^ width)
    (h : unsuffixedOrBool a width = unsuffixedOrBool b width) : a = b := by
  unfold unsuffixedOrBool at h
  split at h
  · rename_i hone
    subst hone
    have ha' : a = 0 ∨ a = 1 := by omega
    have hb' : b = 0 ∨ b = 1 := by omega
    rcases ha' with rfl | rfl <;> rcases hb' with rfl | rfl <;> simp_all
  · exact Literal.int.inj h

/-- The arms of the method are those of a list of variants that fit the field. -/
structure HasArms (method : VariantMethod) (variants : List Variant) (width : Nat) : Prop where
  arms : method.arms = variants.map fun v => (unsuffixedOrBool v.value width, v)
  fits : ∀ v ∈ variants, v.value < 2 ^ width

section Calls

variable {method : VariantMethod} {variants : List Variant} {width b : Nat}

/-- A value with a variant reaches a variant of that value. -/
theorem HasArms.call_of_mem (h : HasArms method variants width) (hb : b < 2 ^ width) {v : Variant}
    (hv : v ∈ variants) (hvb : v.value = b) :
    ∃ v' ∈ variants, v'.value = b ∧ method.call width b = .variant v' := by
  unfold VariantMethod.call
  cases hfind : method.arms.find? (·.1 = unsuffixedOrBool b width) with
  | none =>
      have hmem : (unsuffixedOrBool v.value width, v) ∈ method.arms := by
        rw [h.arms]
        exact List.mem_map_of_mem hv
      have hnot := List.find?_eq_none.mp hfind _ hmem
      simp [hvb] at hnot
  | some arm =>
      have harm := List.mem_of_find?_eq_some hfind
      rw [h.arms] at harm
      obtain ⟨v', hv', rfl⟩ := List.mem_map.mp harm
      have hlit : unsuffixedOrBool v'.value width = unsuffixedOrBool b width := by
        simpa using List.find?_some hfind
      exact ⟨v', hv', unsuffixedOrBool_inj (h.fits v' hv') hb hlit, rfl⟩

/-- A value without a variant reaches the last arm. -/
theorem HasArms.call_of_not_mem (h : HasArms method variants width) (hb : b < 2 ^ width)
    (hnot : ∀ v ∈ variants, v.value ≠ b) :
    method.call width b = match method.fallback with
      | .noVariant => .noVariant
      | .variant v => .variant v
      | .unreachable => .unreachable
      | .absent => .noArm := by
  have hnone : method.arms.find? (·.1 = unsuffixedOrBool b width) = none := by
    apply List.find?_eq_none.mpr
    intro arm harm hlit
    rw [h.arms] at harm
    obtain ⟨v, hv, rfl⟩ := List.mem_map.mp harm
    have hlit : unsuffixedOrBool v.value width = unsuffixedOrBool b width := by simpa using hlit
    exact hnot v hv (unsuffixedOrBool_inj (h.fits v hv) hb hlit)
  simp [VariantMethod.call, hnone]

end Calls

/-- The last arm without a default: `None` for an `Option`, else nothing a value
of the field could decode to. -/
theorem fallbackArm_noDefault {variants : List Variant} {hasReserved : Bool} {width : Nat}
    {fallback : Fallback} (h : fallbackArm variants none hasReserved width = .ok fallback) :
    if hasReserved = true then fallback = .noVariant
    else fallback = .unreachable ∨ fallback = .absent := by
  unfold fallbackArm at h
  cases hasReserved with
  | true => exact (gen_pure_ok.mp h).symm
  | false =>
      obtain ⟨tyWidth, -, h⟩ := gen_bind_ok.mp h
      obtain ⟨representable, -, h⟩ := gen_bind_ok.mp h
      have hfallback := gen_pure_ok.mp h
      rw [← hfallback]
      by_cases hlength : representable = variants.length
      · simp [hlength]
      · simp [hlength]

/-! ## The kept variants -/

section Kept

variable {crates : Crates} {config : Config} {evs : EnumeratedValues} {width : Nat}
  {variants : List Variant}

/-- The values of the kept entries. -/
def EnumeratedValues.keptValues (evs : EnumeratedValues) : List Nat :=
  evs.kept.filterMap (·.value)

/-- The variants made of the kept entries, each with its entry's value. -/
def KeptVariants (crates : Crates) (config : Config) (evs : EnumeratedValues)
    (variants : List Variant) : Prop :=
  List.Forall₂ (fun ev variant =>
    ∃ v, ev.value = some v ∧ variant = Variant.fromValue crates config v ev) evs.kept variants

theorem KeptVariants.map_value (h : KeptVariants crates config evs variants) :
    variants.map (·.value) = evs.keptValues := by
  unfold EnumeratedValues.keptValues
  unfold KeptVariants at h
  generalize evs.kept = entries at h ⊢
  induction h with
  | nil => rfl
  | cons hev _ ih =>
      obtain ⟨v, hv, rfl⟩ := hev
      simp [hv, ih]

theorem KeptVariants.value_ne (h : KeptVariants crates config evs variants) {b : Nat}
    (hnot : b ∉ evs.keptValues) {v : Variant} (hv : v ∈ variants) : v.value ≠ b := by
  intro heq
  obtain rfl := heq
  rw [← h.map_value] at hnot
  exact hnot (List.mem_map_of_mem hv)

/-- Every kept entry has a value, so counting entries counts values. -/
theorem KeptVariants.length_keptValues (h : KeptVariants crates config evs variants) :
    evs.keptValues.length = evs.kept.length := by
  rw [← h.map_value, List.length_map]
  exact h.length_eq.symm

/-- Every variant has its entry. -/
theorem KeptVariants.entry_of_mem (h : KeptVariants crates config evs variants) {v : Variant}
    (hv : v ∈ variants) :
    ∃ ev ∈ evs.kept, ev.value = some v.value ∧
      v = Variant.fromValue crates config v.value ev := by
  unfold KeptVariants at h
  generalize evs.kept = entries at h ⊢
  induction h with
  | nil => simp at hv
  | cons hev _ ih =>
      rcases List.mem_cons.mp hv with rfl | hmem
      · obtain ⟨x, hx, rfl⟩ := hev
        exact ⟨_, List.mem_cons_self, hx, rfl⟩
      · obtain ⟨ev, hmem, hvalue⟩ := ih hmem
        exact ⟨ev, List.mem_cons_of_mem _ hmem, hvalue⟩

theorem EnumeratedValues.mem_keptValues {b : Nat} :
    b ∈ evs.keptValues ↔
      ∃ ev ∈ evs.values, isReserved ev.name = false ∧ ev.isDefault = false ∧
        ev.value = some b := by
  unfold keptValues
  rw [List.mem_filterMap]
  constructor
  · intro h
    obtain ⟨ev, hev, hb⟩ := h
    obtain ⟨hmem, hname, hdefault⟩ := EnumeratedValues.mem_kept.mp hev
    exact ⟨ev, hmem, hname, hdefault, hb⟩
  · intro h
    obtain ⟨ev, hmem, hname, hdefault, hb⟩ := h
    exact ⟨ev, EnumeratedValues.mem_kept.mpr ⟨hmem, hname, hdefault⟩, hb⟩

/-- A kept value is listed. -/
theorem EnumeratedValues.listed_of_mem_keptValues {b : Nat} (hb : b ∈ evs.keptValues) :
    b ∈ evs.listed := by
  obtain ⟨ev, hev, -, -, hvalue⟩ := mem_keptValues.mp hb
  exact mem_listed.mpr ⟨ev, hev, hvalue⟩

theorem WellFormedEnum.keptValues_lt (wf : WellFormedEnum evs width) :
    ∀ b ∈ evs.keptValues, b < 2 ^ width :=
  fun b hb => wf.fits b (EnumeratedValues.listed_of_mem_keptValues hb)

/-- A listed value that no kept entry has belongs to a reserved name or to the default. -/
theorem EnumeratedValues.exists_dropped {b : Nat} (hlisted : b ∈ evs.listed)
    (hnot : b ∉ evs.keptValues) : ∃ ev ∈ evs.values, ev.value = some b ∧
      (isReserved ev.name = true ∨ ev.isDefault = true) := by
  obtain ⟨ev, hev, hvalue⟩ := EnumeratedValues.mem_listed.mp hlisted
  refine ⟨ev, hev, hvalue, ?_⟩
  by_contra hkept
  push Not at hkept
  exact hnot (EnumeratedValues.mem_keptValues.mpr
    ⟨ev, hev, by simpa using hkept.1, by simpa using hkept.2, hvalue⟩)

/-- The value of a reserved name or of the default is that of no kept entry. -/
theorem WellFormedEnum.not_mem_keptValues (wf : WellFormedEnum evs width) {ev : EnumeratedValue}
    {b : Nat} (hev : ev ∈ evs.values) (hvalue : ev.value = some b)
    (hdropped : isReserved ev.name = true ∨ ev.isDefault = true) : b ∉ evs.keptValues := by
  intro hkept
  obtain ⟨ev', hev', hname, hdefault, hvalue'⟩ := EnumeratedValues.mem_keptValues.mp hkept
  obtain rfl := entry_unique wf.distinct hev' hev hvalue' hvalue
  rcases hdropped with hreserved | hdefault'
  · rw [hname] at hreserved
    cases hreserved
  · rw [hdefault] at hdefault'
    cases hdefault'

/-- As many kept entries as values of the field: every value is kept. -/
theorem KeptVariants.length_eq_iff (h : KeptVariants crates config evs variants)
    (wf : WellFormedEnum evs width) :
    evs.kept.length = 2 ^ width ↔ ∀ b < 2 ^ width, b ∈ evs.keptValues := by
  rw [← h.length_keptValues]
  exact length_eq_iff_covers (kept_values_nodup wf.distinct) wf.keptValues_lt

theorem KeptVariants.length_le (h : KeptVariants crates config evs variants)
    (wf : WellFormedEnum evs width) : evs.kept.length ≤ 2 ^ width := by
  rw [← h.length_keptValues]
  exact length_le_of_nodup_lt (kept_values_nodup wf.distinct) wf.keptValues_lt

/-- Fewer kept entries than values leave a value that is not kept. -/
theorem KeptVariants.exists_gap (h : KeptVariants crates config evs variants)
    (wf : WellFormedEnum evs width) (hshort : evs.kept.length < 2 ^ width) :
    ∃ b < 2 ^ width, b ∉ evs.keptValues := by
  by_contra hcovers
  push Not at hcovers
  exact hshort.ne ((h.length_eq_iff wf).mpr hcovers)

/-- The entry of a kept value is the kept one. -/
theorem expectedEntry_of_kept (wf : WellFormedEnum evs width) {ev : EnumeratedValue} {b : Nat}
    (hev : ev ∈ evs.kept) (hb : ev.value = some b) : expectedEntry evs b = some ev := by
  obtain ⟨hmem, hname, -⟩ := EnumeratedValues.mem_kept.mp hev
  exact expectedEntry_of_named wf.distinct hmem hname hb

/-- **Kept values decode.**  A list of variants that has the kept ones and, beside
them, only variants of values that are not listed, decodes every kept value. -/
theorem decodesTo_of_kept (h : KeptVariants crates config evs variants)
    (wf : WellFormedEnum evs width) {method : VariantMethod} {extra : List Variant}
    (harms : HasArms method (variants ++ extra) width)
    (hextra : ∀ v ∈ extra, v.value ∉ evs.listed) {b : Nat} (hb : b ∈ evs.keptValues) :
    DecodesTo crates config (method.call width b) b (expectedEntry evs b) ∧
      expectedEntry evs b ≠ none := by
  have hlisted := EnumeratedValues.listed_of_mem_keptValues hb
  have hvalues := h.map_value ▸ hb
  obtain ⟨v, hv, hvb⟩ := List.mem_map.mp hvalues
  obtain ⟨v', hv', hvb', hcall⟩ :=
    harms.call_of_mem (wf.keptValues_lt b hb) (List.mem_append_left extra hv) hvb
  have hkept : v' ∈ variants := by
    rcases List.mem_append.mp hv' with hmem | hmem
    · exact hmem
    · exact absurd (hvb' ▸ hlisted) (hextra v' hmem)
  obtain ⟨ev, hev, hevb, hfrom⟩ := h.entry_of_mem hkept
  rw [hvb'] at hevb hfrom
  rw [expectedEntry_of_kept wf hev hevb, hcall, hfrom]
  exact ⟨⟨b, rfl, fun _ => rfl⟩, by simp⟩

/-! ## The three places of the default -/

/-- A field every value of which decodes to a variant wants no `Option`. -/
theorem decodes_iff_of_total {method : VariantMethod}
    (htotal : ∀ b < 2 ^ width,
      DecodesTo crates config (method.call width b) b (expectedEntry evs b) ∧
        expectedEntry evs b ≠ none) :
    Decodes crates config evs width method ↔ method.optional = false := by
  have hnone : ¬ ∃ b < 2 ^ width, expectedEntry evs b = none := by
    intro h
    obtain ⟨b, hb, hentry⟩ := h
    exact (htotal b hb).2 hentry
  constructor
  · intro hdecodes
    by_contra hoptional
    exact hnone (hdecodes.optional.mp (by simpa using hoptional))
  · intro hoptional
    refine ⟨fun b hb => (htotal b hb).1, ?_⟩
    simp [hoptional, hnone]

/-- A list of kept entries as long as the field has values is one without further entries;
a shorter one counts differently with them and expects nothing at its gaps. -/
structure CountsDecide (evs : EnumeratedValues) (width : Nat) : Prop where
  full : evs.kept.length = 2 ^ width → evs.values.length = 2 ^ width
  short : evs.kept.length < 2 ^ width → evs.values.length ≠ 2 ^ width ∧
    ∀ b < 2 ^ width, b ∉ evs.keptValues → expectedEntry evs b = none

/-- **No default left.**  With the kept variants alone, the field is decoded
exactly when a full list has no entry to spare, and a list with gaps counts its
entries short of or past the field and expects nothing at the gaps. -/
theorem decodes_iff_of_keptOnly (h : KeptVariants crates config evs variants)
    (wf : WellFormedEnum evs width) {method : VariantMethod}
    (harms : HasArms method variants width)
    (hoptional : method.optional = true ↔ evs.values.length ≠ 2 ^ width)
    (hfallback : if method.optional = true then method.fallback = .noVariant
      else method.fallback = .unreachable ∨ method.fallback = .absent) :
    Decodes crates config evs width method ↔ CountsDecide evs width := by
  have hall : HasArms method (variants ++ []) width := by simpa using harms
  have hkept := fun {b : Nat} (hb : b ∈ evs.keptValues) =>
    decodesTo_of_kept h wf hall (by simp) hb
  have hgap : ∀ {b : Nat}, b < 2 ^ width → b ∉ evs.keptValues →
      method.call width b = match method.fallback with
        | .noVariant => .noVariant
        | .variant v => .variant v
        | .unreachable => .unreachable
        | .absent => .noArm := by
    intro b hb hnot
    exact harms.call_of_not_mem hb fun v hv => h.value_ne hnot hv
  constructor
  · intro hdecodes
    constructor
    · intro hfull
      by_contra hlength
      obtain ⟨b, hb, hnone⟩ := hdecodes.optional.mp (hoptional.mpr hlength)
      exact (hkept ((h.length_eq_iff wf).mp hfull b hb)).2 hnone
    · intro hshort
      have hreturns : ∀ b < 2 ^ width, b ∉ evs.keptValues →
          method.optional = true ∧ expectedEntry evs b = none := by
        intro b hb hnot
        have hreturn := hdecodes.returns b hb
        rw [hgap hb hnot] at hreturn
        cases hopt : method.optional with
        | true =>
            rw [hopt, if_pos rfl] at hfallback
            rw [hfallback] at hreturn
            exact ⟨rfl, decodesTo_noVariant.mp hreturn⟩
        | false =>
            rw [hopt, if_neg (by decide)] at hfallback
            rcases hfallback with hfall | hfall
            · rw [hfall] at hreturn
              exact absurd hreturn not_decodesTo_unreachable
            · rw [hfall] at hreturn
              exact absurd hreturn not_decodesTo_noArm
      obtain ⟨b, hb, hnot⟩ := h.exists_gap wf hshort
      exact ⟨hoptional.mp (hreturns b hb hnot).1, fun b hb hnot => (hreturns b hb hnot).2⟩
  · intro hcounts
    obtain ⟨hfull, hshort⟩ := hcounts
    rcases (h.length_le wf).eq_or_lt with hlength | hlength
    · have hcovers := (h.length_eq_iff wf).mp hlength
      apply (decodes_iff_of_total fun b hb => hkept (hcovers b hb)).mpr
      rw [← Bool.not_eq_true, hoptional, not_not]
      exact hfull hlength
    · obtain ⟨hne, hnone⟩ := hshort hlength
      have hopt := hoptional.mpr hne
      rw [hopt, if_pos rfl] at hfallback
      constructor
      · intro b hb
        by_cases hmem : b ∈ evs.keptValues
        · exact (hkept hmem).1
        · rw [hgap hb hmem, hfallback]
          exact decodesTo_noVariant.mpr (hnone b hb hmem)
      · obtain ⟨b, hb, hnot⟩ := h.exists_gap wf hlength
        exact ⟨fun _ => ⟨b, hb, hnone b hb hnot⟩, fun _ => hopt⟩

/-- A value that is not listed and one kept entry less than values cover the field. -/
theorem KeptVariants.covers_of_gap (h : KeptVariants crates config evs variants)
    (wf : WellFormedEnum evs width) {hole : Nat} (hlt : hole < 2 ^ width)
    (hhole : hole ∉ evs.listed) (hgap : evs.kept.length + 1 = 2 ^ width) :
    ∀ b < 2 ^ width, b ∈ evs.keptValues ++ [hole] := by
  apply (length_eq_iff_covers _ _).mp
  · rw [List.length_append, h.length_keptValues, List.length_singleton, hgap]
  · have hnot : hole ∉ evs.keptValues := fun hmem =>
      hhole (EnumeratedValues.listed_of_mem_keptValues hmem)
    simpa [List.nodup_append] using
      ⟨kept_values_nodup wf.distinct, fun a ha heq => hnot (heq ▸ ha)⟩
  · intro v hv
    rcases List.mem_append.mp hv with hmem | hmem
    · exact wf.keptValues_lt v hmem
    · exact List.mem_singleton.mp hmem ▸ hlt

/-- A single gap leaves no value to a reserved name. -/
theorem KeptVariants.reserved_unvalued_of_gap (h : KeptVariants crates config evs variants)
    (wf : WellFormedEnum evs width) {hole : Nat} (hlt : hole < 2 ^ width)
    (hhole : hole ∉ evs.listed) (hgap : evs.kept.length + 1 = 2 ^ width) :
    ∀ ev ∈ evs.values, isReserved ev.name = true → ev.value = none := by
  intro ev hev hname
  cases hvalue : ev.value with
  | none => rfl
  | some b =>
      have hlisted := EnumeratedValues.mem_listed.mpr ⟨ev, hev, hvalue⟩
      rcases List.mem_append.mp (h.covers_of_gap wf hlt hhole hgap b (wf.fits b hlisted))
        with hkept | hlast
      · exact absurd hkept (wf.not_mem_keptValues hev hvalue (.inl hname))
      · exact absurd (List.mem_singleton.mp hlast ▸ hlisted) hhole

/-- **The default as last variant.**  When it fills the only gap, every value has
a variant, and only the type of the method can go wrong. -/
theorem decodes_iff_of_defaultAppended (h : KeptVariants crates config evs variants)
    (wf : WellFormedEnum evs width) {method : VariantMethod} {entry : EnumeratedValue} {hole : Nat}
    (harms : HasArms method (variants ++ [Variant.fromValue crates config hole entry]) width)
    (hoptional : method.optional = true ↔ evs.values.length ≠ 2 ^ width)
    (hentry : evs.defaultValue = some entry) (hlt : hole < 2 ^ width)
    (hhole : hole ∉ evs.listed) (hgap : evs.kept.length + 1 = 2 ^ width) :
    Decodes crates config evs width method ↔ evs.values.length = 2 ^ width := by
  have hcovers := h.covers_of_gap wf hlt hhole hgap
  have hdecodes : ∀ b < 2 ^ width,
      DecodesTo crates config (method.call width b) b (expectedEntry evs b) ∧
        expectedEntry evs b ≠ none := by
    intro b hb
    rcases List.mem_append.mp (hcovers b hb) with hmem | hmem
    · apply decodesTo_of_kept h wf harms _ hmem
      intro v hv
      rw [List.mem_singleton.mp hv]
      exact hhole
    · obtain rfl := List.mem_singleton.mp hmem
      obtain ⟨v, hv, hvb, hcall⟩ := harms.call_of_mem hb
        (List.mem_append_right variants List.mem_cons_self) (Variant.fromValue_value ..)
      have hlast : v = Variant.fromValue crates config b entry := by
        rcases List.mem_append.mp hv with hkept | hkept
        · obtain ⟨ev, hev, hvalue, -⟩ := h.entry_of_mem hkept
          rw [hvb] at hvalue
          exact absurd (EnumeratedValues.mem_listed.mpr
            ⟨ev, (EnumeratedValues.mem_kept.mp hev).1, hvalue⟩) hhole
        · exact List.mem_singleton.mp hkept
      rw [expectedEntry_of_unlisted hhole, hentry, hcall, hlast]
      exact ⟨⟨b, rfl, fun _ => rfl⟩, by simp⟩
  rw [decodes_iff_of_total hdecodes, ← Bool.not_eq_true, hoptional, not_not]

/-- **The default as last arm.**  It takes every value without a kept variant,
those listed under a reserved name included. -/
theorem decodes_iff_of_defaultArm (h : KeptVariants crates config evs variants)
    (wf : WellFormedEnum evs width) {method : VariantMethod} {entry : EnumeratedValue} {hole : Nat}
    (harms : HasArms method variants width) (hoptional : method.optional = false)
    (hfallback : method.fallback = .variant (Variant.fromValue crates config hole entry))
    (hentry : evs.defaultValue = some entry) :
    Decodes crates config evs width method ↔
      ∀ ev ∈ evs.values, isReserved ev.name = true → ev.value = none := by
  obtain ⟨hmem, hdefault⟩ := EnumeratedValues.defaultValue_some hentry
  have hall : HasArms method (variants ++ []) width := by simpa using harms
  have hgap : ∀ b < 2 ^ width, b ∉ evs.keptValues →
      method.call width b = .variant (Variant.fromValue crates config hole entry) := by
    intro b hb hnot
    rw [harms.call_of_not_mem hb fun v hv => h.value_ne hnot hv, hfallback]
  constructor
  · intro hmethod ev hev hname
    cases hvalue : ev.value with
    | none => rfl
    | some b =>
        have hb := wf.fits b (EnumeratedValues.mem_listed.mpr ⟨ev, hev, hvalue⟩)
        have hnot := wf.not_mem_keptValues hev hvalue (.inl hname)
        have hreturn := hmethod.returns b hb
        rw [hgap b hb hnot, expectedEntry_of_reserved wf.distinct hev hname hvalue] at hreturn
        cases hreturn
  · intro hreserved
    have hentries : ∀ b < 2 ^ width, b ∉ evs.keptValues → expectedEntry evs b = some entry := by
      intro b hb hnot
      by_cases hlisted : b ∈ evs.listed
      · obtain ⟨ev, hev, hvalue, hdropped⟩ := EnumeratedValues.exists_dropped hlisted hnot
        have hname : isReserved ev.name = false := by
          by_contra hname
          rw [hreserved ev hev (by simpa using hname)] at hvalue
          cases hvalue
        have hdefault' : ev.isDefault = true := hdropped.resolve_left (by simp [hname])
        rw [expectedEntry_of_named wf.distinct hev hname hvalue,
          wf.oneDefault ev hev entry hmem hdefault' hdefault]
      · rw [expectedEntry_of_unlisted hlisted, hentry]
    have hdecodes : ∀ b < 2 ^ width,
        DecodesTo crates config (method.call width b) b (expectedEntry evs b) ∧
          expectedEntry evs b ≠ none := by
      intro b hb
      by_cases hkept : b ∈ evs.keptValues
      · exact decodesTo_of_kept h wf hall (by simp) hkept
      · rw [hgap b hb hkept, hentries b hb hkept]
        exact ⟨⟨hole, rfl, fun hnot => absurd (hdefault.symm.trans hnot) (by decide)⟩, by simp⟩
    exact (decodes_iff_of_total hdecodes).mpr hoptional

end Kept

/-! ## The generated method -/

section Method

variable {crates : Crates} {config : Config} {evs : EnumeratedValues} {width : Nat}

theorem settleDefault_none (variants : List Variant) (full : Nat) :
    settleDefault variants none full = (variants, none) := by
  unfold settleDefault
  split
  · rfl
  · simp

/-- The default fills the last gap. -/
theorem settleDefault_some_gap {variants : List Variant} {default : Variant} {full : Nat}
    (hgap : variants.length + 1 = full) :
    settleDefault variants (some default) full = (variants ++ [default], none) := by
  have hfull : variants.length ≠ full := by omega
  have hlast : variants.length = full - 1 := by omega
  rw [settleDefault, if_neg hfull, if_pos hlast]
  rfl

/-- The default stays behind the variants when more than one gap is left. -/
theorem settleDefault_some_short {variants : List Variant} {default : Variant} {full : Nat}
    (hfull : variants.length ≠ full) (hlast : variants.length ≠ full - 1) :
    settleDefault variants (some default) full = (variants, some default) := by
  rw [settleDefault, if_neg hfull, if_neg hlast]

/-- What a run of the generator that ends in an enum has done. -/
theorem readEnum_enum {items : List Variant} {method : VariantMethod}
    {predicates : List VariantPredicate}
    (h : readEnum crates config evs width = .ok (.enum items method predicates)) :
    ∃ variants hole, KeptVariants crates config evs variants ∧
      defaultVariant crates config evs width = .ok hole ∧
      method.arms = (settleDefault variants hole (2 ^ width)).1.map
        (fun v => (unsuffixedOrBool v.value width, v)) ∧
      method.optional = ((settleDefault variants hole (2 ^ width)).2.isNone &&
        evs.values.length != 2 ^ width) ∧
      fallbackArm (settleDefault variants hole (2 ^ width)).1
        (settleDefault variants hole (2 ^ width)).2 method.optional width =
          .ok method.fallback := by
  obtain ⟨variants, hvariants, h⟩ := gen_bind_ok.mp h
  obtain ⟨hole, hhole, h⟩ := gen_bind_ok.mp h
  obtain ⟨_, hnew, h⟩ := gen_bind_ok.mp h
  obtain rfl := newDefault_ok hnew
  obtain ⟨full, hfull, h⟩ := gen_bind_ok.mp h
  obtain ⟨-, rfl⟩ := shlOne_ok.mp hfull
  refine ⟨variants, hole, Variant.fromEnumeratedValues_ok hvariants, hhole, ?_⟩
  simp only at h
  split at h
  · have hnewtype := gen_pure_ok.mp h
    cases hnewtype
  · obtain ⟨fallback, hfallback, h⟩ := gen_bind_ok.mp h
    have henum := gen_pure_ok.mp h
    injection henum with _ hmethod _
    subst hmethod
    exact ⟨rfl, rfl, hfallback⟩

/-- Where the default's variant comes from: no default and no gap give none, else
it takes a value that is not listed. -/
theorem defaultVariant_ok {hole : Option Variant}
    (h : defaultVariant crates config evs width = .ok hole) :
    match hole with
    | none => evs.defaultValue = none ∨ ∀ b < 2 ^ width, b ∈ evs.listed
    | some v => ∃ entry x, evs.defaultValue = some entry ∧ x < 2 ^ width ∧ x ∉ evs.listed ∧
        v = Variant.fromValue crates config x entry := by
  unfold defaultVariant at h
  cases hentry : evs.defaultValue with
  | none =>
      rw [hentry] at h
      obtain rfl := gen_pure_ok.mp h
      exact Or.inl rfl
  | some entry =>
      rw [hentry] at h
      obtain ⟨gap, hgap, h⟩ := gen_bind_ok.mp h
      obtain ⟨-, hfound⟩ := minimalHole_ok hgap
      obtain rfl := gen_pure_ok.mp h
      cases gap with
      | none => exact Or.inr hfound
      | some x => exact ⟨entry, x, rfl, hfound.1, hfound.2, rfl⟩

/-- Variants made of kept entries give arms that fit the field. -/
theorem hasArms_kept {variants : List Variant} (h : KeptVariants crates config evs variants)
    (wf : WellFormedEnum evs width) : ∀ v ∈ variants, v.value < 2 ^ width := by
  intro v hv
  apply wf.keptValues_lt
  rw [← h.map_value]
  exact List.mem_map_of_mem hv

/-- The condition without a default, in terms of the entries. -/
theorem decodable_iff_of_noDefault {variants : List Variant}
    (h : KeptVariants crates config evs variants) (wf : WellFormedEnum evs width)
    (hentry : evs.defaultValue = none) :
    DecodableEnum evs width ↔ CountsDecide evs width := by
  have hle := h.length_le wf
  have hgaps : ∀ b < 2 ^ width, b ∉ evs.keptValues → expectedEntry evs b = none := by
    intro b hb hnot
    by_cases hlisted : b ∈ evs.listed
    · obtain ⟨ev, hev, hvalue, hdropped⟩ := EnumeratedValues.exists_dropped hlisted hnot
      have hname : isReserved ev.name = true := hdropped.resolve_right
        (by simp [EnumeratedValues.defaultValue_none hentry hev])
      exact expectedEntry_of_reserved wf.distinct hev hname hvalue
    · rw [expectedEntry_of_unlisted hlisted, hentry]
  unfold DecodableEnum
  rw [hentry]
  simp only
  constructor
  · intro hiff
    exact ⟨hiff.mp, fun hshort => ⟨fun hlength => hshort.ne (hiff.mpr hlength), hgaps⟩⟩
  · intro hcounts
    refine ⟨hcounts.full, fun hlength => ?_⟩
    by_contra hne
    exact (hcounts.short (lt_of_le_of_ne hle hne)).1 hlength

/-- The condition where the entries leave the default no value. -/
theorem decodable_iff_of_allListed {variants : List Variant}
    (h : KeptVariants crates config evs variants) (wf : WellFormedEnum evs width)
    {entry : EnumeratedValue} (hentry : evs.defaultValue = some entry)
    (hall : ∀ b < 2 ^ width, b ∈ evs.listed) :
    DecodableEnum evs width ↔ CountsDecide evs width := by
  have hle := h.length_le wf
  obtain ⟨hmem, hdefault⟩ := EnumeratedValues.defaultValue_some hentry
  have hextra : evs.kept.length < evs.values.length := by
    apply List.length_filter_lt_length_iff_exists.mpr
    exact ⟨entry, hmem, by simp [hdefault]⟩
  unfold DecodableEnum
  rw [hentry]
  simp only [if_pos hall]
  constructor
  · intro hcond
    obtain ⟨hshort, hlength, hname⟩ := hcond
    refine ⟨fun hfull => absurd hfull hshort.ne, fun _ => ⟨hlength, fun b hb hnot => ?_⟩⟩
    obtain ⟨ev, hev, hvalue, hdropped⟩ := EnumeratedValues.exists_dropped (hall b hb) hnot
    rcases hdropped with hreserved | hdefault'
    · exact expectedEntry_of_reserved wf.distinct hev hreserved hvalue
    · obtain rfl := wf.oneDefault ev hev entry hmem hdefault' hdefault
      rcases hname with hname | hname
      · rw [hname] at hvalue
        cases hvalue
      · exact expectedEntry_of_reserved wf.distinct hev hname hvalue
  · intro hcounts
    obtain ⟨hfull, hshort⟩ := hcounts
    have hlt : evs.kept.length < 2 ^ width := by
      by_contra hnot
      have hlength := hfull (by omega)
      omega
    obtain ⟨hne, hgaps⟩ := hshort hlt
    refine ⟨hlt, hne, ?_⟩
    cases hvalue : entry.value with
    | none => exact Or.inl rfl
    | some b =>
        refine Or.inr ?_
        by_contra hname
        have hname : isReserved entry.name = false := by simpa using hname
        have hb := wf.fits b (EnumeratedValues.mem_listed.mpr ⟨entry, hmem, hvalue⟩)
        have hnot := wf.not_mem_keptValues hmem hvalue (.inr hdefault)
        have hnamed := expectedEntry_of_named wf.distinct hmem hname hvalue
        rw [hgaps b hb hnot] at hnamed
        cases hnamed

/-- The condition with no default left in the `match`, in terms of the entries. -/
theorem decodable_iff_of_noHole {variants : List Variant}
    (h : KeptVariants crates config evs variants) (wf : WellFormedEnum evs width)
    (hnone : evs.defaultValue = none ∨ ∀ b < 2 ^ width, b ∈ evs.listed) :
    DecodableEnum evs width ↔ CountsDecide evs width := by
  cases hentry : evs.defaultValue with
  | none => exact decodable_iff_of_noDefault h wf hentry
  | some entry =>
      rcases hnone with hnone | hall
      · rw [hentry] at hnone
        cases hnone
      · exact decodable_iff_of_allListed h wf hentry hall

/-- **Enum decoding.**  The generated `variant` method is total on the field, decodes every
raw value as the entries ask and has the right return type exactly when the counts of the
enumeration decide rightly.  The method looks through the kept variants and falls back on the
default, an `Option` or `unreachable!`; which of them it gets is decided by comparing counts
with 2^width, not by which values are missing. -/
theorem decodes_iff_decodable (wf : WellFormedEnum evs width) {items : List Variant}
    {method : VariantMethod} {predicates : List VariantPredicate}
    (h : readEnum crates config evs width = .ok (.enum items method predicates)) :
    Decodes crates config evs width method ↔ DecodableEnum evs width := by
  obtain ⟨variants, hole, hkept, hhole, harms, hoptional, hfallback⟩ := readEnum_enum h
  have hlength : variants.length = evs.kept.length := hkept.length_eq.symm
  have hfits := hasArms_kept hkept wf
  have hsource := defaultVariant_ok hhole
  cases hole with
  | none =>
      rw [settleDefault_none] at harms hoptional hfallback
      rw [decodable_iff_of_noHole hkept wf hsource]
      apply decodes_iff_of_keptOnly hkept wf ⟨harms, hfits⟩
      · simp [hoptional]
      · exact fallbackArm_noDefault hfallback
  | some v =>
      obtain ⟨entry, x, hentry, hx, hunlisted, rfl⟩ := hsource
      have hnotAll : ¬ ∀ b < 2 ^ width, b ∈ evs.listed := fun hall => hunlisted (hall x hx)
      have hshort : evs.kept.length ≠ 2 ^ width := by
        intro hfull
        exact hunlisted (EnumeratedValues.listed_of_mem_keptValues
          ((hkept.length_eq_iff wf).mp hfull x hx))
      have hle := hkept.length_le wf
      have hcond : DecodableEnum evs width ↔
          (∀ ev ∈ evs.values, isReserved ev.name = true → ev.value = none) ∧
            (evs.kept.length + 1 = 2 ^ width → evs.values.length = 2 ^ width) := by
        unfold DecodableEnum
        rw [hentry]
        simp only [if_neg hnotAll]
      rw [hcond]
      by_cases hgap : evs.kept.length + 1 = 2 ^ width
      · rw [settleDefault_some_gap (by omega)] at harms hoptional
        have hreserved := hkept.reserved_unvalued_of_gap wf hx hunlisted hgap
        rw [and_iff_right hreserved, Classical.imp_iff_right_iff.mpr (Or.inl hgap)]
        apply decodes_iff_of_defaultAppended hkept wf ⟨harms, _⟩ _ hentry hx hunlisted hgap
        · intro v hv
          rcases List.mem_append.mp hv with hmem | hmem
          · exact hfits v hmem
          · exact List.mem_singleton.mp hmem ▸ hx
        · simp [hoptional]
      · rw [settleDefault_some_short (by omega) (by omega)] at harms hoptional hfallback
        have hnever : method.optional = false := by simp [hoptional]
        rw [hnever] at hfallback
        have hcounts : evs.kept.length + 1 = 2 ^ width → evs.values.length = 2 ^ width :=
          fun hnot => absurd hnot hgap
        rw [and_iff_left hcounts]
        exact decodes_iff_of_defaultArm hkept wf ⟨harms, hfits⟩ hnever
          (gen_pure_ok.mp hfallback).symm hentry

end Method

/-! ## Concrete enumerations -/

/-- An entry with a value. -/
def valuedEntry (name : String) (value : Nat) : EnumeratedValue := ⟨name, none, some value, false⟩

/-- An enumeration without a name. -/
def plainEnum (values : List EnumeratedValue) : EnumeratedValues := ⟨none, none, none, values⟩

/-- All four values of a two-bit field are listed, the last one as reserved. -/
def modeEnum : EnumeratedValues :=
  plainEnum [valuedEntry "Off" 0, valuedEntry "Slow" 1, valuedEntry "Fast" 2,
    valuedEntry "reserved" 3]

/-- A reserved value and a default beside it that no value is left for. -/
def gainEnum : EnumeratedValues :=
  plainEnum [valuedEntry "X1" 0, valuedEntry "X2" 1, valuedEntry "X4" 2,
    valuedEntry "Reserved" 3, ⟨"Other", none, none, true⟩]

theorem decodes_gainEnum :
    ∃ items method predicates,
      readEnum asciiCrates defaultConfig gainEnum 2 = .ok (.enum items method predicates) ∧
        Decodes asciiCrates defaultConfig gainEnum 2 method := by
  have wf : WellFormedEnum gainEnum 2 := ⟨by decide, by decide, by decide⟩
  have hread : readEnum asciiCrates defaultConfig gainEnum 2 = .ok (.enum _ _ _) := rfl
  exact ⟨_, _, _, hread, (decodes_iff_decodable wf hread).mpr (by decide)⟩

/-- With every value listed and one of them reserved, the counts see no gap, and
the reserved value runs into `unreachable!()`. -/
theorem not_decodes_modeEnum :
    WellFormedEnum modeEnum 2 ∧ ∃ items method predicates,
      readEnum asciiCrates defaultConfig modeEnum 2 = .ok (.enum items method predicates) ∧
        method.call 2 3 = .unreachable ∧
        ¬ Decodes asciiCrates defaultConfig modeEnum 2 method := by
  refine ⟨⟨by decide, by decide, by decide⟩, _, _, _, rfl, rfl, ?_⟩
  intro h
  exact not_decodesTo_unreachable (h.returns 3 (by decide))

end Svd2Rust
