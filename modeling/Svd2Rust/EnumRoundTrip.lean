import Svd2Rust.EnumDecoding
import Svd2Rust.FieldRounds
import Svd2Rust.ModifyRuns

/-!
# Writing a variant and reading it back

The two halves of an enumeration are generated apart: the reader picks the variants of the
enum and the arms of its `match` by counting, the writer gets a method for each variant and
one for the default.  `readWrite_agree` says that both end with the same variants, that
`variant` takes the number a method writes back to its variant, and that the `is_*`
predicates hold exactly where `variant` returns theirs.  `enumRoundTrip` follows a variant
through the register: from its method, through any read-modify-writes of other fields, to
the reader.
-/

namespace Svd2Rust

open BitFields WordCells

/-! ## The two halves of an enumeration -/

/-- The enum's variant of a name. -/
def variantNamed (items : List Variant) (pc : String) : Option Variant :=
  items.find? fun v => v.pc = pc

/-- A predicate on the raw value `b`: `*self == Enum::Pc`, or `matches!(self.variant(), Enum::Pc)`. -/
def VariantPredicate.holds (items : List Variant) (method : VariantMethod) (width b : Nat)
    (p : VariantPredicate) : Bool :=
  if p.callsVariant then match method.call width b with
    | .variant v => v.pc = p.pc
    | _ => false
  else match variantNamed items p.pc with
    | some v => unsuffixedOrBool v.value width = unsuffixedOrBool b width
    | none => false

section Halves

variable {crates : Crates} {config : Config} {evs : EnumeratedValues} {width : Nat}
  {kept : List Variant} {default : Option Variant}

/-- The variants of the kept entries and of the default have different values, all of
which fit the field. -/
structure SeparateVariants (width : Nat) (kept : List Variant) (default : Option Variant) :
    Prop where
  distinct : ((kept ++ default.toList).map (·.value)).Nodup
  fits : ∀ v ∈ kept ++ default.toList, v.value < 2 ^ width

/-- Every run of the generator works with such variants. -/
theorem separateVariants (wf : WellFormedEnum evs width)
    (hkept : KeptVariants crates config evs kept)
    (hdefault : defaultVariant crates config evs width = .ok default) :
    SeparateVariants width kept default := by
  have hvalues := hkept.map_value
  have hsource := defaultVariant_ok hdefault
  have hfits := hasArms_kept hkept wf
  have hnodup : (kept.map (·.value)).Nodup := hvalues ▸ kept_values_nodup wf.distinct
  cases default with
  | none => exact ⟨by simpa using hnodup, by simpa using hfits⟩
  | some v =>
      obtain ⟨entry, x, -, hx, hunlisted, rfl⟩ := hsource
      refine ⟨?_, ?_⟩
      · rw [Option.toList_some, List.map_append, List.nodup_append]
        refine ⟨hnodup, List.nodup_singleton _, ?_⟩
        intro a ha b hb heq
        rw [hvalues] at ha
        obtain rfl := List.mem_singleton.mp hb
        rw [heq] at ha
        exact hunlisted (EnumeratedValues.listed_of_mem_keptValues ha)
      · intro v hv
        rcases List.mem_append.mp hv with hv | hv
        · exact hfits v hv
        · obtain rfl := List.mem_singleton.mp hv
          exact hx

/-- The default leaves a gap between the kept variants. -/
theorem SeparateVariants.length_lt {v : Variant} (h : SeparateVariants width kept (some v)) :
    kept.length < 2 ^ width := by
  have hlength := @length_le_of_nodup_lt (2 ^ width) _ h.distinct fun x hx => by
    obtain ⟨v, hv, rfl⟩ := List.mem_map.mp hx
    exact h.fits v hv
  simp only [Option.toList_some, List.map_append, List.map_cons, List.map_nil, List.length_append,
    List.length_map, List.length_singleton] at hlength
  omega

/-- Variants of one value are one variant. -/
theorem SeparateVariants.eq_of_value (h : SeparateVariants width kept default) {v w : Variant}
    (hv : v ∈ kept ++ default.toList) (hw : w ∈ kept ++ default.toList)
    (heq : v.value = w.value) : v = w :=
  List.inj_on_of_nodup_map h.distinct hv hw heq

theorem SeparateVariants.default_not_mem {d : Variant} (h : SeparateVariants width kept (some d)) :
    d ∉ kept := by
  intro hd
  have hnodup := List.Nodup.of_map _ h.distinct
  rw [Option.toList_some, List.nodup_append] at hnodup
  exact hnodup.2.2 d hd d List.mem_cons_self rfl

/-- The read half: an arm for every variant, or for all but the default, which is what is
left then. -/
inductive IsReadHalf (width : Nat) (kept : List Variant) (default : Option Variant)
    (method : VariantMethod) (predicates : List VariantPredicate) : Prop
  | allArms (harms : HasArms method (kept ++ default.toList) width)
      (hfallback : ∀ v, method.fallback ≠ .variant v)
      (hpredicates : predicates = (kept ++ default.toList).map (variantPredicate false))
  | defaultLeft {d : Variant} (hdefault : default = some d) (harms : HasArms method kept width)
      (hfallback : method.fallback = .variant d)
      (hpredicates : predicates = kept.map (variantPredicate false) ++ [variantPredicate true d])

/-- Without a default no variant is left for the last arm. -/
theorem fallbackArm_none_ne {variants : List Variant} {hasReserved : Bool} {fallback : Fallback}
    (h : fallbackArm variants none hasReserved width = .ok fallback) (v : Variant) :
    fallback ≠ .variant v := by
  have hcases := fallbackArm_noDefault h
  cases hasReserved with
  | true =>
      rw [if_pos rfl] at hcases
      rw [hcases]
      exact Fallback.noConfusion
  | false =>
      rw [if_neg Bool.false_ne_true] at hcases
      rcases hcases with rfl | rfl
      · exact Fallback.noConfusion
      · exact Fallback.noConfusion

/-- **The read half.**  The variants of the enum are those of the kept entries, and the
default where it stands for a value of its own. -/
theorem readEnum_half (wf : WellFormedEnum evs width) {items : List Variant}
    {method : VariantMethod} {predicates : List VariantPredicate}
    (h : readEnum crates config evs width = .ok (.enum items method predicates)) :
    ∃ kept default, KeptVariants crates config evs kept ∧
      defaultVariant crates config evs width = .ok default ∧ items = kept ++ default.toList ∧
      IsReadHalf width kept default method predicates := by
  obtain ⟨kept, hkept, h⟩ := gen_bind_ok.mp h
  obtain ⟨default, hdefault, h⟩ := gen_bind_ok.mp h
  obtain ⟨_, hnew, h⟩ := gen_bind_ok.mp h
  obtain rfl := newDefault_ok hnew
  obtain ⟨full, hfull, h⟩ := gen_bind_ok.mp h
  obtain ⟨-, rfl⟩ := shlOne_ok.mp hfull
  have hkept := Variant.fromEnumeratedValues_ok hkept
  have hseparate := separateVariants wf hkept hdefault
  refine ⟨kept, default, hkept, hdefault, ?_⟩
  simp only at h
  split at h
  · cases gen_pure_ok.mp h
  · obtain ⟨fallback, hfallback, h⟩ := gen_bind_ok.mp h
    obtain ⟨rfl, rfl, rfl⟩ := EnumReader.enum.inj (gen_pure_ok.mp h)
    cases default with
    | none =>
        rw [settleDefault_none] at hfallback ⊢
        refine ⟨rfl, .allArms ⟨by simp, hseparate.fits⟩ (fallbackArm_none_ne hfallback) (by simp)⟩
    | some d =>
        have hlt := hseparate.length_lt
        by_cases hgap : kept.length + 1 = 2 ^ width
        · rw [settleDefault_some_gap (by omega)] at hfallback ⊢
          exact ⟨by simp, .allArms ⟨rfl, hseparate.fits⟩ (fallbackArm_none_ne hfallback) (by simp)⟩
        · rw [settleDefault_some_short (by omega) (by omega)] at hfallback ⊢
          refine ⟨rfl, .defaultLeft rfl ⟨rfl, fun v hv =>
            hseparate.fits v (List.mem_append_left _ hv)⟩ ?_ rfl⟩
          exact (gen_pure_ok.mp hfallback).symm

/-- **The write half.**  It has a method for every variant, the default's among them. -/
theorem writeVariants_half (wf : WellFormedEnum evs width) {safety safety' : Safety}
    {variants : List Variant}
    (h : writeVariants crates config evs width safety = .ok (variants, safety')) :
    ∃ kept default, KeptVariants crates config evs kept ∧
      defaultVariant crates config evs width = .ok default ∧ variants = kept ++ default.toList := by
  obtain ⟨kept, hkept, h⟩ := gen_bind_ok.mp h
  obtain ⟨default, hdefault, h⟩ := gen_bind_ok.mp h
  obtain ⟨_, hnew, h⟩ := gen_bind_ok.mp h
  obtain rfl := newDefault_ok hnew
  obtain ⟨full, hfull, h⟩ := gen_bind_ok.mp h
  obtain ⟨-, rfl⟩ := shlOne_ok.mp hfull
  have hkept := Variant.fromEnumeratedValues_ok hkept
  have hseparate := separateVariants wf hkept hdefault
  refine ⟨kept, default, hkept, hdefault, ?_⟩
  cases default with
  | none =>
      split at h
      · obtain ⟨rfl, -⟩ := Prod.mk.inj (gen_pure_ok.mp h)
        simp
      · obtain ⟨rfl, -⟩ := Prod.mk.inj (gen_pure_ok.mp h)
        simp
  | some d =>
      have hlt := hseparate.length_lt
      rw [if_neg (by omega)] at h
      obtain ⟨rfl, -⟩ := Prod.mk.inj (gen_pure_ok.mp h)
      rfl

/-- Kept entries make one list of variants. -/
theorem KeptVariants.unique {kept' : List Variant} (h : KeptVariants crates config evs kept)
    (h' : KeptVariants crates config evs kept') : kept = kept' := by
  unfold KeptVariants at h h'
  generalize evs.kept = entries at h h'
  induction h generalizing kept' with
  | nil =>
      cases h'
      rfl
  | cons hfirst _ ih =>
      cases h' with
      | cons hfirst' hrest' =>
          obtain ⟨x, hx, rfl⟩ := hfirst
          obtain ⟨y, hy, rfl⟩ := hfirst'
          obtain rfl := Option.some.inj (hx.symm.trans hy)
          rw [ih hrest']

section Calls

variable {method : VariantMethod} {predicates : List VariantPredicate}

/-- A variant is returned by its arm or by the last one. -/
theorem HasArms.call_cases {variants : List Variant} (harms : HasArms method variants width)
    {b : Nat} (hb : b < 2 ^ width) {v : Variant} (hcall : method.call width b = .variant v) :
    v ∈ variants ∧ v.value = b ∨ method.fallback = .variant v := by
  by_cases hmem : ∃ w ∈ variants, w.value = b
  · obtain ⟨w, hw, hwb⟩ := hmem
    obtain ⟨w', hw', hw'b, hcall'⟩ := harms.call_of_mem hb hw hwb
    obtain rfl := ReadResult.variant.inj (hcall'.symm.trans hcall)
    exact Or.inl ⟨hw', hw'b⟩
  · push Not at hmem
    rw [harms.call_of_not_mem hb hmem] at hcall
    cases hlast : method.fallback with
    | noVariant => rw [hlast] at hcall; cases hcall
    | unreachable => rw [hlast] at hcall; cases hcall
    | absent => rw [hlast] at hcall; cases hcall
    | variant d =>
        rw [hlast] at hcall
        exact Or.inr (congrArg Fallback.variant (ReadResult.variant.inj hcall))

/-- A variant with an arm is returned for its value, and for no other unless it is the
last arm. -/
theorem HasArms.call_iff {variants : List Variant} (harms : HasArms method variants width)
    (hdistinct : ∀ v ∈ variants, ∀ w ∈ variants, v.value = w.value → v = w) {v : Variant}
    (hv : v ∈ variants) (hfallback : method.fallback ≠ .variant v) {b : Nat} (hb : b < 2 ^ width) :
    method.call width b = .variant v ↔ v.value = b := by
  constructor
  · intro hcall
    exact ((harms.call_cases hb hcall).resolve_right hfallback).2
  · intro hvb
    obtain ⟨w, hw, hwb, hcall⟩ := harms.call_of_mem hb hv hvb
    rw [hcall, hdistinct v hv w hw (hvb.trans hwb.symm)]

/-- **Reading a variant.**  A variant is returned for its own value.  Its arm is the only one
for the value, as the values of the variants are distinct. -/
theorem IsReadHalf.call_value (h : IsReadHalf width kept default method predicates)
    (hseparate : SeparateVariants width kept default) {v : Variant}
    (hv : v ∈ kept ++ default.toList) : method.call width v.value = .variant v := by
  have hfits := hseparate.fits v hv
  have hdistinct := fun v hv w hw => @SeparateVariants.eq_of_value _ _ _ hseparate v w hv hw
  cases h with
  | allArms harms hfallback hpredicates =>
      exact (harms.call_iff hdistinct hv (hfallback v) hfits).mpr rfl
  | @defaultLeft d hdefault harms hfallback hpredicates =>
      subst hdefault
      rcases List.mem_append.mp hv with hkept | hd
      · obtain ⟨w, hw, hwv, hcall⟩ := harms.call_of_mem hfits hkept rfl
        rw [hcall, hdistinct w (List.mem_append_left _ hw) v hv hwv]
      · obtain rfl := List.mem_singleton.mp hd
        rw [harms.call_of_not_mem hfits, hfallback]
        intro w hw heq
        obtain rfl := hdistinct w (List.mem_append_left _ hw) v hv heq
        exact hseparate.default_not_mem hw

/-- The predicate of a variant that has an arm. -/
theorem holds_of_arm {items : List Variant} (hnames : (items.map (·.pc)).Nodup) {v : Variant}
    (hv : v ∈ items) (hfits : v.value < 2 ^ width) {b : Nat} (hb : b < 2 ^ width) :
    (variantPredicate false v).holds items method width b = true ↔ v.value = b := by
  have hfind : variantNamed items v.pc = some v := by
    cases hfind : variantNamed items v.pc with
    | none =>
        have hno := List.find?_eq_none.mp hfind v hv
        simp at hno
    | some w =>
        have hname : w.pc = v.pc := by simpa using List.find?_some hfind
        rw [List.inj_on_of_nodup_map hnames (List.mem_of_find?_eq_some hfind) hv hname]
  have hpc : (variantPredicate false v).pc = v.pc := rfl
  have hcalls : (variantPredicate false v).callsVariant = false := rfl
  rw [VariantPredicate.holds, hcalls, hpc, hfind]
  simp only [Bool.false_eq_true, if_false, decide_eq_true_eq]
  exact ⟨unsuffixedOrBool_inj hfits hb, fun h => h ▸ rfl⟩

/-- The predicate of the default that is left for the last arm. -/
theorem holds_of_default {items : List Variant} (hnames : (items.map (·.pc)).Nodup) {d : Variant}
    (hd : d ∈ items) {b : Nat} (hreturns : ∀ v, method.call width b = .variant v → v ∈ items) :
    (variantPredicate true d).holds items method width b = true ↔
      method.call width b = .variant d := by
  have hpc : (variantPredicate true d).pc = d.pc := rfl
  have hcalls : (variantPredicate true d).callsVariant = true := rfl
  rw [VariantPredicate.holds, hcalls, hpc]
  cases hcall : method.call width b with
  | variant v =>
      have hv := hreturns v hcall
      simp only [if_true, decide_eq_true_eq, ReadResult.variant.injEq]
      exact ⟨List.inj_on_of_nodup_map hnames hv hd, fun h => h ▸ rfl⟩
  | noVariant => simp
  | unreachable => simp
  | noArm => simp

/-- Only variants of the enum are returned. -/
theorem IsReadHalf.call_mem (h : IsReadHalf width kept default method predicates) {b : Nat}
    (hb : b < 2 ^ width) {v : Variant} (hcall : method.call width b = .variant v) :
    v ∈ kept ++ default.toList := by
  cases h with
  | allArms harms hfallback hpredicates =>
      exact ((harms.call_cases hb hcall).resolve_right (hfallback v)).1
  | @defaultLeft d hdefault harms hfallback hpredicates =>
      subst hdefault
      rcases harms.call_cases hb hcall with hv | hv
      · exact List.mem_append_left _ hv.1
      · rw [hfallback] at hv
        obtain rfl := Fallback.variant.inj hv
        exact List.mem_append_right _ (List.mem_singleton.mpr rfl)

/-- The predicate belongs to the variant: it has its names and holds of the values that
`variant` returns it for. -/
structure IsPredicateOf (items : List Variant) (method : VariantMethod) (width : Nat) (v : Variant)
    (p : VariantPredicate) : Prop where
  name : p.name = v.isSc
  pc : p.pc = v.pc
  holds : ∀ b < 2 ^ width, p.holds items method width b = true ↔ method.call width b = .variant v

/-- **Predicates.**  There is one for each variant. -/
theorem IsReadHalf.arePredicates (h : IsReadHalf width kept default method predicates)
    (hseparate : SeparateVariants width kept default)
    (hnames : ((kept ++ default.toList).map (·.pc)).Nodup) :
    List.Forall₂ (IsPredicateOf (kept ++ default.toList) method width) (kept ++ default.toList)
      predicates := by
  have hmem := fun b hb v hcall => @IsReadHalf.call_mem _ _ _ _ _ h b hb v hcall
  have hdistinct := fun v hv w hw => @SeparateVariants.eq_of_value _ _ _ hseparate v w hv hw
  cases h with
  | allArms harms hfallback hpredicates =>
      rw [hpredicates, List.forall₂_map_right_iff, List.forall₂_same]
      intro v hv
      refine ⟨rfl, rfl, fun b hb => ?_⟩
      rw [holds_of_arm hnames hv (hseparate.fits v hv) hb,
        harms.call_iff hdistinct hv (hfallback v) hb]
  | @defaultLeft d hdefault harms hfallback hpredicates =>
      subst hdefault
      rw [hpredicates]
      refine List.rel_append ?_ (.cons ⟨rfl, rfl, fun b hb => ?_⟩ .nil)
      · rw [List.forall₂_map_right_iff, List.forall₂_same]
        intro v hv
        have hitem : v ∈ kept ++ (some d).toList := List.mem_append_left _ hv
        have hne : method.fallback ≠ .variant v := by
          intro heq
          rw [hfallback] at heq
          obtain rfl := Fallback.variant.inj heq
          exact hseparate.default_not_mem hv
        refine ⟨rfl, rfl, fun b hb => ?_⟩
        rw [holds_of_arm hnames hitem (hseparate.fits v hitem) hb]
        exact (harms.call_iff (fun v hv w hw => hdistinct v (List.mem_append_left _ hv) w
          (List.mem_append_left _ hw)) hv hne hb).symm
      · exact holds_of_default hnames (List.mem_append_right _ (List.mem_singleton.mpr rfl))
          (hmem b hb)

end Calls

/-- **Both halves.**  The variants a program can write are those of the enum it reads, each is
read back from the value its method writes, and each has a predicate that holds exactly where
`variant` returns it.  Both halves are made from the entries that are kept and from the
default at the smallest unlisted value, so that no two variants share a value. -/
theorem readWrite_agree (wf : WellFormedEnum evs width) {items variants : List Variant}
    {method : VariantMethod} {predicates : List VariantPredicate} {safety safety' : Safety}
    (hread : readEnum crates config evs width = .ok (.enum items method predicates))
    (hwrite : writeVariants crates config evs width safety = .ok (variants, safety'))
    (hnames : (items.map (·.pc)).Nodup) :
    variants = items ∧ (∀ v ∈ variants, method.call width v.value = .variant v) ∧
      List.Forall₂ (IsPredicateOf items method width) items predicates := by
  obtain ⟨kept, default, hkept, hdefault, rfl, hhalf⟩ := readEnum_half wf hread
  obtain ⟨kept', default', hkept', hdefault', rfl⟩ := writeVariants_half wf hwrite
  obtain rfl := hkept.unique hkept'
  obtain rfl := Except.ok.inj (hdefault.symm.trans hdefault')
  have hseparate := separateVariants wf hkept hdefault
  exact ⟨rfl, fun v hv => hhalf.call_value hseparate hv, hhalf.arePredicates hseparate hnames⟩

end Halves

/-- Four values, three entries: the default takes what is left. -/
def dialEnum : EnumeratedValues :=
  plainEnum [valuedEntry "Off" 0, valuedEntry "Slow" 1, ⟨"Fast", none, none, true⟩]

def dialVariants : List Variant :=
  match writeVariants asciiCrates defaultConfig dialEnum 2 .unsafe_ with
  | .ok (variants, _) => variants
  | .error _ => []

theorem dialEnum_wellFormed : WellFormedEnum dialEnum 2 where
  distinct := by decide +kernel
  fits := by decide +kernel
  oneDefault := by decide +kernel

theorem readWrite_agree_dial : ∃ items method predicates,
    readEnum asciiCrates defaultConfig dialEnum 2 = .ok (.enum items method predicates) ∧
      dialVariants = items ∧ (∀ v ∈ dialVariants, method.call 2 v.value = .variant v) ∧
        List.Forall₂ (IsPredicateOf items method 2) items predicates := by
  have hread : readEnum asciiCrates defaultConfig dialEnum 2 = .ok (.enum _ _ _) := rfl
  have hwrite : writeVariants asciiCrates defaultConfig dialEnum 2 .unsafe_ =
    .ok (dialVariants, .safe) := rfl
  exact ⟨_, _, _, hread, readWrite_agree dialEnum_wellFormed hread hwrite (by decide +kernel)⟩

/-! ## A variant in a register -/

section Register

variable {crates : Crates} {config : Config} {register : Register} {access : Access}
  {rpath : RegisterPath} {index : Index} {code : RegisterCode} {env : ProxyEnv} {size : Nat}
  {evs : EnumeratedValues}

/-- The enum of a readable field that is not derived. -/
theorem enumReader_of_round {canRead : Bool} {fpath : FieldPath} {nameSnakeCase : String}
    {field : Field} {rwenum : RWEnum} {mask : Nat} {fty : RustTy} {useCast useMask : Bool}
    {derives derives' : Derives} {reader : ReaderCode}
    (hnew : rwenum.readEnum = some (.new evs))
    (h : readerCodeIf crates config canRead fpath nameSnakeCase field rwenum mask fty useCast useMask
      derives = .ok (some reader, derives')) :
    ∃ enumReader, readEnum crates config evs field.info.bitRange.width = .ok enumReader ∧
      reader.enumReader = some enumReader := by
  unfold readerCodeIf at h
  cases canRead with
  | false => cases (Prod.mk.inj (gen_pure_ok.mp h)).1
  | true =>
      obtain ⟨⟨reader', used⟩, hreader, h⟩ := gen_bind_ok.mp h
      obtain ⟨hsome, -⟩ := Prod.mk.inj (gen_pure_ok.mp h)
      obtain rfl := Option.some.inj hsome
      obtain ⟨enumReader, accessors, henum, -, hreader⟩ := readerCode_ok hreader
      obtain ⟨rfl, -⟩ := Prod.mk.inj hreader
      rw [readEnumCode, hnew] at henum
      obtain ⟨read, hread, henum⟩ := gen_bind_ok.mp henum
      exact ⟨read, hread, (gen_pure_ok.mp henum).symm⟩

/-- The variant methods of a writable field. -/
theorem variants_of_round {canWrite : Bool} {fpath : FieldPath} {nameSnakeCase : String}
    {field : Field} {rwenum : RWEnum} {fty : RustTy} {rmwv : Option ModifiedWriteValues}
    {derives derives' : Derives} {writer : WriterCode}
    (hnew : rwenum.writeEnum = some (.new evs))
    (h : writerCodeIf crates config canWrite fpath nameSnakeCase field rwenum fty rmwv derives =
      .ok (some writer, derives')) :
    ∃ variants safety safety',
      writeVariants crates config evs field.info.bitRange.width safety = .ok (variants, safety') ∧
        writer.variants = variants.map fun v => ⟨v.sc, v.pc, v.value⟩ := by
  unfold writerCodeIf at h
  cases canWrite with
  | false => cases (Prod.mk.inj (gen_pure_ok.mp h)).1
  | true =>
      obtain ⟨⟨writer', used⟩, hwriter, h⟩ := gen_bind_ok.mp h
      obtain ⟨hsome, -⟩ := Prod.mk.inj (gen_pure_ok.mp h)
      obtain rfl := Option.some.inj hsome
      obtain ⟨variants, safety, accessors, hvariants, -, hwriter⟩ := writerCode_ok hwriter
      obtain ⟨rfl, -⟩ := Prod.mk.inj hwriter
      rw [writeEnumCode, hnew] at hvariants
      obtain ⟨⟨written, safety'⟩, hwritten, hvariants⟩ := gen_bind_ok.mp hvariants
      obtain ⟨rfl, -⟩ := Prod.mk.inj (gen_pure_ok.mp hvariants)
      exact ⟨written, _, safety', hwritten, rfl⟩

/-- **A variant through a register.**  A variant that a method wrote to a plain field last is
what the readers of the field return after any further read-modify-writes of other fields:
`variant` returns it, its predicate holds and those of the other variants do not.  The writer
leaves the value of the variant, the run keeps it, the reader returns it, and the read arms
have the variant for it. -/
theorem enumRoundTrip (hunion : BitmaskIsUnion crates)
    (hrender : renderRegisterMod crates config register access rpath index = .ok code)
    (hsize : register.info.properties.size = some size) (hwidths : OwnWidths code.code.fields env)
    (hapart : Apart code.rty.bits (Element.cell code.code.fields)
      (IsElement crates code.code.fields))
    {hw : Hardware code.rty.bits}
    (hfollows : FollowsKinds crates register.info.modifiedWriteValues code.code.fields hw)
    {b b' : BitVec code.rty.bits} {events : List (RegEvent code.rty.bits)}
    (hmodifies : OnlyModifies events)
    (h : RegRun env code.code.fields (code.spec code.rty.bits) hw b events b') {e : Element}
    {fc : FieldCode} (hfc : code.code.fields[e.field]? = some fc) {i : Nat}
    (hat : fc.ElementAt crates code.rty i e.offset) (hown : ReadsOwnRun size fc)
    (hkind : fc.field.info.effectiveMwv register.info.modifiedWriteValues = .modify)
    {field : Field} {fdpath : Option FieldPath} {lookup : List (EnumeratedValues × Option EnumPath)}
    {rwenum : RWEnum}
    (hround : IsRound crates config register.info.modifiedWriteValues access rpath index field fc
      fdpath lookup rwenum)
    (hreadEnum : rwenum.readEnum = some (.new evs)) (hwriteEnum : rwenum.writeEnum = some (.new evs))
    (wf : WellFormedEnum evs fc.width) {reader : ReaderCode} (hreader : fc.reader = some reader)
    {items : List Variant} {method : VariantMethod} {predicates : List VariantPredicate}
    (henum : reader.enumReader = some (.enum items method predicates))
    (hnames : (items.map (·.pc)).Nodup) {writer : WriterCode} (hwriter : fc.writer = some writer)
    {written : VariantWriter} (hwritten : written ∈ writer.variants)
    (hlast : lastLeft (Element.cell code.code.fields) e (runChanges env code.code.fields events) =
      some (BitVec.ofNat _ written.value &&& lowMask _ fc.width))
    {path : ReadAccessor × Nat} (hpath : path ∈ readPaths fc.field reader.accessors i) :
    ∃ v ∈ items, v.pc = written.pc ∧ ∃ fty raw,
      path.1.read code.rty b' path.2 = .ok ⟨fty, raw⟩ ∧
        method.call fc.width raw = .variant v ∧
          ∀ p ∈ predicates, p.holds items method fc.width raw = true ↔ p.pc = written.pc := by
  have hfit := hat.2
  obtain ⟨mask, fty, useCast, useMask, derives, derives', hread⟩ := hround.read
  obtain ⟨fty', used, used', hwrite⟩ := hround.written
  rw [hreader] at hread
  rw [hwriter] at hwrite
  obtain ⟨enumReader, hreadHalf, henum'⟩ := enumReader_of_round hreadEnum hread
  obtain rfl := Option.some.inj (henum'.symm.trans henum)
  obtain ⟨variants, safety, safety', hwriteHalf, hvariants⟩ := variants_of_round hwriteEnum hwrite
  have hwidth : fc.field.info.bitRange.width = fc.width := rfl
  rw [hwidth] at hreadHalf hwriteHalf
  obtain ⟨kept, default, hkept, hdefault, rfl, hhalf⟩ := readEnum_half wf hreadHalf
  obtain ⟨kept', default', hkept', hdefault', rfl⟩ := writeVariants_half wf hwriteHalf
  obtain rfl := hkept.unique hkept'
  obtain rfl := Except.ok.inj (hdefault.symm.trans hdefault')
  have hseparate := separateVariants wf hkept hdefault
  rw [hvariants] at hwritten
  obtain ⟨v, hv, rfl⟩ := List.mem_map.mp hwritten
  have hcall := hhalf.call_value hseparate hv
  have hwritable : fc.writer.isSome = true := by rw [hwriter]; rfl
  obtain ⟨ty, -, hvalue⟩ := read_of_lastLeft hunion hrender hsize hwidths hapart hfollows hmodifies
    h hfc hwritable hat hown hreader hpath hkind hlast
  have hsmall : (BitVec.ofNat code.rty.bits v.value &&& lowMask code.rty.bits fc.width).toNat =
      v.value := by
    rw [toNat_and_lowMask (by omega), BitVec.toNat_ofNat,
      Nat.mod_mod_of_dvd _ (Nat.pow_dvd_pow 2 (by omega)), Nat.mod_eq_of_lt (hseparate.fits v hv)]
  rw [hsmall] at hvalue
  refine ⟨v, hv, rfl, ty, v.value, hvalue, hcall, fun p hp => ?_⟩
  obtain ⟨w, hw, hpredicate⟩ := exists_of_forall₂_mem (hhalf.arePredicates hseparate hnames) hp
  rw [hpredicate.holds v.value (hseparate.fits v hv), hcall, hpredicate.pc,
    ReadResult.variant.injEq]
  exact ⟨fun heq => heq ▸ rfl, fun heq => (List.inj_on_of_nodup_map hnames hw hv heq).symm⟩

end Register

/-- The dial and a brake beside it. -/
def dialRegister : RegisterInfo :=
  { plainRegister "DR" 0 8 with
    fields := some [
      .single { bitField "DIAL" 0 2 with enumeratedValues := [dialEnum] },
      .single (bitField "BRAKE" 4 1)] }

def dialCode : RegisterCode := exampleCode dialRegister

theorem dialCode_eq : renderRegisterMod asciiCrates defaultConfig (.single dialRegister)
    .readWrite controlPath levelIndex = .ok dialCode := rfl

theorem dialCode_apart : ElementsApart asciiCrates dialCode.code.fields dialCode.rty.bits := by
  decide +kernel

theorem dialCode_ownWidths : OwnWidths dialCode.code.fields modeEnv := by
  have hall : ∀ fc ∈ dialCode.code.fields, ∀ writer ∈ fc.writer,
      (modeEnv.resolve writer.proxy).width = fc.width := by decide +kernel
  exact hall

def dialField : FieldCode :=
  (dialCode.code.fields[0]?).getD ⟨.single (bitField "" 0 0), none, none⟩

/-- The dial is set to `Fast`, then the brake is set. -/
def dialEvents : List (RegEvent dialCode.rty.bits) :=
  [.modify [.field ⟨0, 0, 0, .bits 2⟩], .modify [.field ⟨1, 0, 0, .method .setBit⟩]]

theorem dialRun : RegRun modeEnv dialCode.code.fields (dialCode.spec dialCode.rty.bits)
    (kindsHardware asciiCrates none dialCode.code.fields dialCode.rty.bits) 0x00 dialEvents
    0x12 := by
  have hfirst : kindsHardware asciiCrates none dialCode.code.fields dialCode.rty.bits 0x00 0x02
      0x02 := by decide +kernel
  have hsecond : kindsHardware asciiCrates none dialCode.code.fields dialCode.rty.bits 0x02 0x12
      0x12 := by decide +kernel
  exact .cons (.of_runClosure rfl hfirst) (.cons (.of_runClosure rfl hsecond) .nil)

theorem dialField_round : IsRound asciiCrates defaultConfig none .readWrite controlPath levelIndex
    dialField.field dialField none [(dialEnum, none)] (.readWriteCommon (.new dialEnum)) where
  resolved := rfl
  looked_up := rfl
  chosen := rfl
  read := ⟨3, .u8, false, true, ⟨[], [], [], [], []⟩, _, rfl⟩
  written := ⟨.u8, ⟨[], [], [], [], []⟩, _, rfl⟩

/-- The default reads back as `Fast`, whatever became of the brake. -/
theorem enumRoundTrip_dial : ∃ reader items method predicates path,
    dialField.reader = some reader ∧ reader.enumReader = some (.enum items method predicates) ∧
      readPaths dialField.field reader.accessors 0 = [path] ∧
        ∃ v ∈ items, v.pc = "Fast" ∧ ∃ fty raw,
          path.1.read dialCode.rty 0x12 path.2 = .ok ⟨fty, raw⟩ ∧
            method.call dialField.width raw = .variant v ∧
              ∀ p ∈ predicates, p.holds items method dialField.width raw = true ↔ p.pc = "Fast" := by
  have hmodifies : OnlyModifies dialEvents := by
    intro ev hev
    simp only [dialEvents, List.mem_cons, List.not_mem_nil, or_false] at hev
    rcases hev with rfl | rfl
    · exact ⟨_, rfl⟩
    · exact ⟨_, rfl⟩
  have hat : dialField.ElementAt asciiCrates dialCode.rty 0 0 := ⟨rfl, by decide +kernel⟩
  have hown : ReadsOwnRun 8 dialField := fun hone => absurd hone.1 (by decide)
  have hfield : dialCode.code.fields[(⟨0, 0⟩ : Element).field]? = some dialField := rfl
  refine ⟨_, _, _, _, _, rfl, rfl, rfl, ?_⟩
  exact enumRoundTrip bitmaskIsUnion_asciiCrates dialCode_eq rfl dialCode_ownWidths
    dialCode_apart.apart kindsHardware_followsKinds hmodifies dialRun hfield hat hown rfl
    dialField_round rfl rfl dialEnum_wellFormed rfl rfl (by decide +kernel) rfl
    (List.mem_cons_of_mem _ (List.mem_cons_of_mem _ List.mem_cons_self) :
      (⟨"fast", "Fast", 2⟩ : VariantWriter) ∈ _) rfl List.mem_cons_self

end Svd2Rust
