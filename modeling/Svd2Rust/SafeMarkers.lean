import Svd2Rust.AsciiCrates
import Svd2Rust.FieldRounds
import Svd2Rust.FieldRoundTrip

/-!
# Safe markers

A field writer marked `Safe` stores any value without a check, and a register marked
`Safe` any word.  `fields` takes the marker of a field from its write constraint and
overrides it by the number of the enumeration's variants and by its default;
`render_register_mod` takes the marker of a register from the constraint of its first
field or from its own.  `safeMarkers_sound_iff` says for which registers a marked
writer lets nothing through that the description does not permit.
-/

namespace Svd2Rust

/-! ## Permitted values -/

/-- A write constraint permits the value; only a range forbids any. -/
def ConstraintPermits (constraint : Option WriteConstraint) (v : Nat) : Prop :=
  ∀ r, constraint = some (.range r) → r.min ≤ v ∧ v ≤ r.max

/-- The enumeration lists the value under a name of that kind. -/
def EnumeratedValues.Lists (evs : EnumeratedValues) (reserved : Bool) (v : Nat) : Prop :=
  ∃ ev ∈ evs.values, ev.value = some v ∧ isReserved ev.name = reserved

/-- An enumeration permits the value: it is listed under a name that is not reserved, or
the default covers it and it is not listed as reserved. -/
def EnumPermits (evs : EnumeratedValues) (v : Nat) : Prop :=
  evs.Lists false v ∨ evs.defaultValue.isSome ∧ ¬ evs.Lists true v

/-- The default stands for a value of the field that is not listed. -/
def HasUnlistedDefault (evs : EnumeratedValues) (width : Nat) : Prop :=
  evs.defaultValue.isSome ∧ ∃ v < 2 ^ width, v ∉ evs.listed

/-- The range of all values of `width` bits. -/
def IsFullRange (constraint : Option WriteConstraint) (width : Nat) : Prop :=
  constraint = some (.range ⟨0, 2 ^ width - 1⟩)

/-- The enumeration makes the writer safe: it has as many variants as the field has
values, or a default for the rest. -/
def MakesSafe (evs : EnumeratedValues) (width : Nat) : Prop :=
  evs.kept.length = 2 ^ width ∨ HasUnlistedDefault evs width

/-- A field of that constraint and enumeration gives its writer the marker. -/
def MarksSafe (constraint : Option WriteConstraint) (evs : Option EnumeratedValues)
    (width : Nat) : Prop :=
  width ≠ 1 ∧ (IsFullRange constraint width ∨ ∃ listed ∈ evs, MakesSafe listed width)

/-- What the constraint and the enumeration of a writer have to add to one another.  An
enumeration that makes the writer safe needs a constraint that excludes no value of the
field.  An enumeration behind a safe writer lists no value of the field as reserved only,
and all of them if it has no default. -/
structure MarkerConditions (evs : EnumeratedValues) (constraint : Option WriteConstraint)
    (width : Nat) : Prop where
  constraint_covers : MakesSafe evs width → ∀ r, constraint = some (.range r) →
    r.min = 0 ∧ 2 ^ width - 1 ≤ r.max
  reserved_named : MakesSafe evs width ∨ IsFullRange constraint width →
    ∀ v < 2 ^ width, evs.Lists true v → evs.Lists false v
  all_listed : MakesSafe evs width ∨ IsFullRange constraint width → evs.defaultValue = none →
    ∀ v < 2 ^ width, v ∈ evs.listed

theorem constraintPermits_all_iff {constraint : Option WriteConstraint} {width : Nat} :
    (∀ v < 2 ^ width, ConstraintPermits constraint v) ↔
      ∀ r, constraint = some (.range r) → r.min = 0 ∧ 2 ^ width - 1 ≤ r.max := by
  have hpos : 0 < 2 ^ width := Nat.two_pow_pos width
  constructor
  · intro hall r hr
    have hfirst := (hall 0 hpos r hr).1
    have hlast := (hall (2 ^ width - 1) (by omega) r hr).2
    exact ⟨by omega, hlast⟩
  · intro hcovers v hv r hr
    obtain ⟨hmin, hmax⟩ := hcovers r hr
    exact ⟨by omega, by omega⟩

theorem mem_listed_iff_lists {evs : EnumeratedValues} {v : Nat} :
    v ∈ evs.listed ↔ evs.Lists true v ∨ evs.Lists false v := by
  rw [EnumeratedValues.mem_listed]
  constructor
  · intro h
    obtain ⟨ev, hev, hvalue⟩ := h
    cases hreserved : isReserved ev.name with
    | true => exact .inl ⟨ev, hev, hvalue, hreserved⟩
    | false => exact .inr ⟨ev, hev, hvalue, hreserved⟩
  · intro hcase
    rcases hcase with ⟨ev, hev, hvalue, -⟩ | ⟨ev, hev, hvalue, -⟩
    · exact ⟨ev, hev, hvalue⟩
    · exact ⟨ev, hev, hvalue⟩

/-- An enumeration permits all values of a field if none is listed as reserved only, and
all are listed or there is a default. -/
theorem enumPermits_all_iff {evs : EnumeratedValues} {width : Nat} :
    (∀ v < 2 ^ width, EnumPermits evs v) ↔
      (∀ v < 2 ^ width, evs.Lists true v → evs.Lists false v) ∧
        (evs.defaultValue = none → ∀ v < 2 ^ width, v ∈ evs.listed) := by
  constructor
  · intro hall
    constructor
    · intro v hv hreserved
      rcases hall v hv with hlisted | ⟨-, hnot⟩
      · exact hlisted
      · exact absurd hreserved hnot
    · intro hnone v hv
      rcases hall v hv with hlisted | ⟨hdefault, -⟩
      · exact mem_listed_iff_lists.mpr (.inr hlisted)
      · rw [hnone] at hdefault
        cases hdefault
  · intro h v hv
    obtain ⟨hreserved, hlisted⟩ := h
    by_cases htrue : evs.Lists true v
    · exact .inl (hreserved v hv htrue)
    · cases hdefault : evs.defaultValue with
      | some entry => exact .inr ⟨by rw [hdefault, Option.isSome_some], htrue⟩
      | none =>
          rcases mem_listed_iff_lists.mp (hlisted hdefault v hv) with h | h
          · exact absurd h htrue
          · exact .inl h

/-- **One writer.**  Whenever the writer is marked, all values of the field are
permitted: these are the conditions. -/
theorem markerConditions_iff {evs : EnumeratedValues} {constraint : Option WriteConstraint}
    {width : Nat} :
    (MakesSafe evs width ∨ IsFullRange constraint width →
      ∀ v < 2 ^ width, ConstraintPermits constraint v ∧ EnumPermits evs v) ↔
      MarkerConditions evs constraint width := by
  constructor
  · intro hsound
    refine ⟨fun hmakes => ?_, fun hmarked => ?_, fun hmarked => ?_⟩
    · exact constraintPermits_all_iff.mp fun v hv => (hsound (.inl hmakes) v hv).1
    · exact (enumPermits_all_iff.mp fun v hv => (hsound hmarked v hv).2).1
    · exact (enumPermits_all_iff.mp fun v hv => (hsound hmarked v hv).2).2
  · intro hcond hmarked
    have hconstraint : ∀ v < 2 ^ width, ConstraintPermits constraint v := by
      refine constraintPermits_all_iff.mpr fun r hr => ?_
      rcases hmarked with hmakes | hfull
      · exact hcond.constraint_covers hmakes r hr
      · obtain rfl := WriteConstraint.range.inj (Option.some.inj (hr.symm.trans hfull))
        exact ⟨rfl, Nat.le_refl _⟩
    have henum := enumPermits_all_iff.mpr
      ⟨hcond.reserved_named hmarked, hcond.all_listed hmarked⟩
    exact fun v hv => ⟨hconstraint v hv, henum v hv⟩

/-! ## Marked writers -/

/-- The writer stores every value without a check. -/
def WriterProxy.IsSafe : WriterProxy → Prop
  | .fieldWriter _ _ .safe => True
  | _ => False

section Writers

variable {crates : Crates} {config : Config}

/-- `Safety::get` finds a field of more than one bit safe if its range is full. -/
theorem safetyGet_eq_safe_iff {constraint : Option WriteConstraint} {width : Nat}
    (hone : width ≠ 1) (hwidth : width ≤ 64) :
    Safety.get constraint width = .safe ↔ IsFullRange constraint width := by
  unfold Safety.get IsFullRange
  cases constraint with
  | none => simp [hone]
  | some constraint =>
      cases constraint with
      | writeAsRead flag => simp
      | useEnumeratedValues flag => simp
      | range r =>
          obtain ⟨min, max⟩ := r
          simp [widthMax_eq hwidth]

theorem writerProxy_isSafe_iff {width : Nat} {mwv : ModifiedWriteValues} {valueTy : String}
    {safety : Safety} :
    (writerProxy width mwv valueTy safety).IsSafe ↔ width ≠ 1 ∧ safety = .safe := by
  unfold writerProxy
  by_cases hone : width = 1
  · simp [hone, WriterProxy.IsSafe]
  · cases safety with
    | safe => simp [hone, WriterProxy.IsSafe, Safety.ident]
    | unsafe_ => simp [hone, WriterProxy.IsSafe]
    | range r => simp [hone, WriterProxy.IsSafe]

/-- The default becomes a variant if it stands for an unlisted value. -/
theorem defaultVariant_isSome_iff {evs : EnumeratedValues} {width : Nat}
    {default : Option Variant} (h : defaultVariant crates config evs width = .ok default) :
    default.isSome ↔ HasUnlistedDefault evs width := by
  unfold defaultVariant at h
  cases hentry : evs.defaultValue with
  | none =>
      rw [hentry] at h
      obtain rfl := gen_pure_ok.mp h
      simp [HasUnlistedDefault, hentry]
  | some entry =>
      rw [hentry] at h
      obtain ⟨hole, hhole, h⟩ := gen_bind_ok.mp h
      obtain rfl := gen_pure_ok.mp h
      obtain ⟨-, hhole⟩ := minimalHole_ok hhole
      simp only [HasUnlistedDefault, hentry, Option.isSome_some, true_and, Option.isSome_map]
      cases hole with
      | none => exact iff_of_false nofun fun ⟨v, hv, hnot⟩ => hnot (hhole v hv)
      | some v => exact iff_of_true rfl ⟨v, hhole⟩

/-- **Variants.**  The enumeration of a writer leaves its safety as it is unless it makes
the writer safe. -/
theorem writeVariants_safe_iff {evs : EnumeratedValues} {width : Nat} {safety safety' : Safety}
    {variants : List Variant}
    (h : writeVariants crates config evs width safety = .ok (variants, safety')) :
    safety' = .safe ↔ MakesSafe evs width ∨ safety = .safe := by
  obtain ⟨kept, hkept, h⟩ := gen_bind_ok.mp h
  obtain ⟨default, hdefault, h⟩ := gen_bind_ok.mp h
  obtain ⟨_, hnew, h⟩ := gen_bind_ok.mp h
  obtain rfl := newDefault_ok hnew
  obtain ⟨full, hfull, h⟩ := gen_bind_ok.mp h
  obtain ⟨-, rfl⟩ := shlOne_ok.mp hfull
  have hlength : evs.kept.length = kept.length :=
    (Variant.fromEnumeratedValues_ok hkept).length_eq
  have hhole := defaultVariant_isSome_iff hdefault
  unfold MakesSafe
  rw [hlength, ← hhole]
  by_cases hcount : kept.length = 2 ^ width
  · rw [if_pos hcount] at h
    obtain ⟨-, rfl⟩ := Prod.mk.inj (gen_pure_ok.mp h)
    simp [hcount]
  · rw [if_neg hcount] at h
    cases default with
    | some v =>
        obtain ⟨-, rfl⟩ := Prod.mk.inj (gen_pure_ok.mp h)
        simp
    | none =>
        obtain ⟨-, rfl⟩ := Prod.mk.inj (gen_pure_ok.mp h)
        simp [hcount]

theorem writerTy_own {rwenum : RWEnum} {width : Nat} {mwv : ModifiedWriteValues} {safety : Safety}
    {ty valueTy : String} {derives : Derives}
    (h : ∀ evs base, rwenum.writeEnum ≠ some (.derived evs base)) :
    (writerTy rwenum width mwv safety ty valueTy derives).1 =
      .own (writerProxy width mwv valueTy safety) := by
  unfold writerTy
  split
  · rename_i evs base hwrite
    exact absurd hwrite (h evs base)
  · rfl

theorem writerTy_reexport {rwenum : RWEnum} {width : Nat} {mwv : ModifiedWriteValues}
    {safety : Safety} {ty valueTy : String} {derives : Derives} {evs : EnumeratedValues}
    {base : EnumPath} (h : rwenum.writeEnum = some (.derived evs base)) :
    ∃ base, (writerTy rwenum width mwv safety ty valueTy derives).1 = .reexport base := by
  simp only [writerTy, h]
  split
  · exact ⟨_, rfl⟩
  · exact ⟨_, rfl⟩

/-- **The writer of a round.**  Its marker comes from the constraint and from the
enumeration used for writing, unless it is re-exported. -/
theorem IsRound.writer_marker {rmwv : Option ModifiedWriteValues} {access : Access}
    {rpath : RegisterPath} {index : Index} {field : Field} {fc : FieldCode}
    {fdpath : Option FieldPath} {lookup : List (EnumeratedValues × Option EnumPath)}
    {rwenum : RWEnum}
    (h : IsRound crates config rmwv access rpath index field fc fdpath lookup rwenum)
    {writer : WriterCode} (hwriter : writer ∈ fc.writer) :
    (∃ base, writer.proxy = .reexport base) ∨
      ∃ valueTy safety, writer.proxy = .own (writerProxy fc.field.info.bitRange.width
          writer.modifiedWriteValues valueTy safety) ∧
        match rwenum.writeEnum.map EV.values with
        | none => safety = Safety.get fc.field.info.writeConstraint fc.field.info.bitRange.width
        | some evs => ∃ variants, writeVariants crates config evs fc.field.info.bitRange.width
            (Safety.get fc.field.info.writeConstraint fc.field.info.bitRange.width) =
              .ok (variants, safety) := by
  obtain ⟨fty, derives, derives', hrun⟩ := h.written
  unfold writerCodeIf at hrun
  cases hcan : fieldCanWrite access fc.field.info with
  | false =>
      rw [hcan] at hrun
      obtain ⟨hnone, -⟩ := Prod.mk.inj (gen_pure_ok.mp hrun)
      rw [← hnone] at hwriter
      cases hwriter
  | true =>
      rw [hcan] at hrun
      obtain ⟨⟨code, used⟩, hcode, hrun⟩ := gen_bind_ok.mp hrun
      obtain ⟨hsome, -⟩ := Prod.mk.inj (gen_pure_ok.mp hrun)
      rw [← hsome] at hwriter
      obtain rfl := Option.some.inj hwriter
      obtain ⟨variants, safety, accessors, henum, -, hcode⟩ := writerCode_ok hcode
      obtain ⟨rfl, -⟩ := Prod.mk.inj hcode
      cases hwrite : rwenum.writeEnum with
      | none =>
          rw [writeEnumCode, hwrite] at henum
          obtain ⟨-, rfl⟩ := Prod.mk.inj (gen_pure_ok.mp henum)
          exact .inr ⟨_, _, writerTy_own (by simp [hwrite]), rfl⟩
      | some ev =>
          cases ev with
          | derived evs base => exact .inl (writerTy_reexport hwrite)
          | new evs =>
              rw [writeEnumCode, hwrite] at henum
              obtain ⟨⟨vs, safety'⟩, hvariants, henum⟩ := gen_bind_ok.mp henum
              obtain ⟨-, rfl⟩ := Prod.mk.inj (gen_pure_ok.mp henum)
              exact .inr ⟨_, _, writerTy_own (by simp [hwrite]), vs, hvariants⟩

/-- **The marker of a field.**  A field writer of its own is marked by the constraint and the
enumeration of its field. -/
theorem IsRound.own_isSafe_iff {rmwv : Option ModifiedWriteValues} {access : Access}
    {rpath : RegisterPath} {index : Index} {field : Field} {fc : FieldCode}
    {fdpath : Option FieldPath} {lookup : List (EnumeratedValues × Option EnumPath)}
    {rwenum : RWEnum}
    (h : IsRound crates config rmwv access rpath index field fc fdpath lookup rwenum)
    {writer : WriterCode} (hwriter : writer ∈ fc.writer)
    (hwidth : fc.field.info.bitRange.width ≤ 64) {proxy : WriterProxy}
    (hproxy : writer.proxy = .own proxy) :
    proxy.IsSafe ↔ MarksSafe fc.field.info.writeConstraint (rwenum.writeEnum.map EV.values)
      fc.field.info.bitRange.width := by
  rcases h.writer_marker hwriter with ⟨base, hbase⟩ | ⟨valueTy, safety, hown, hmarker⟩
  · rw [hproxy] at hbase
    cases hbase
  obtain rfl := WriterTy.own.inj (hproxy.symm.trans hown)
  rw [writerProxy_isSafe_iff]
  refine and_congr_right fun hone => ?_
  cases hwrite : rwenum.writeEnum.map EV.values with
  | none =>
      rw [hwrite] at hmarker
      subst hmarker
      simp [safetyGet_eq_safe_iff hone hwidth]
  | some evs =>
      rw [hwrite] at hmarker
      obtain ⟨variants, hvariants⟩ := hmarker
      rw [writeVariants_safe_iff hvariants, safetyGet_eq_safe_iff hone hwidth, or_comm]
      simp

end Writers

/-! ## Marked registers -/

section Registers

variable (crates : Crates) (config : Config) (env : ProxyEnv) (register : Register)
  (access : Access) (rpath : RegisterPath) (index : Index) (code : RegisterCode)

/-- All values of the field are permitted, by its constraint and by the enumeration used
for writing it. -/
def FieldPermitsAll (fc : FieldCode) (rwenum : RWEnum) : Prop :=
  ∀ v < 2 ^ fc.field.info.bitRange.width, ConstraintPermits fc.field.info.writeConstraint v ∧
    ∀ evs ∈ rwenum.writeEnum.map EV.values, EnumPermits evs v

/-- The constraint of the field excludes none of its values, and the enumeration used for
writing lists none as reserved only, and all of them if it has no default. -/
structure CoversField (fc : FieldCode) (rwenum : RWEnum) : Prop where
  constraint_covers : ∀ r, fc.field.info.writeConstraint = some (.range r) →
    r.min = 0 ∧ 2 ^ fc.field.info.bitRange.width - 1 ≤ r.max
  reserved_named : ∀ evs ∈ rwenum.writeEnum.map EV.values,
    ∀ v < 2 ^ fc.field.info.bitRange.width, evs.Lists true v → evs.Lists false v
  all_listed : ∀ evs ∈ rwenum.writeEnum.map EV.values, evs.defaultValue = none →
    ∀ v < 2 ^ fc.field.info.bitRange.width, v ∈ evs.listed

/-- The field is the only one of the register, covers all its bits, and permits all their
values. -/
def CoversRegister (field : Field) (size : Nat) : Prop :=
  register.info.fields = some [field] ∧ field.info.bitRange = ⟨0, size⟩ ∧
    ∀ v < 2 ^ size, ConstraintPermits field.info.writeConstraint v ∧
      ∀ fc fdpath lookup rwenum, IsRound crates config register.info.modifiedWriteValues access rpath
        index field fc fdpath lookup rwenum →
        ∀ evs ∈ rwenum.writeEnum.map EV.values, EnumPermits evs v

/-- A marked writer of a field lets nothing through that is not permitted, and a marked
register is permitted every word by its own constraint or by its only field. -/
structure SafeMarkersSound : Prop where
  fields : ∀ fc ∈ code.code.fields, ∀ field fdpath lookup rwenum,
    IsRound crates config register.info.modifiedWriteValues access rpath index field fc fdpath lookup
      rwenum →
    ∀ writer ∈ fc.writer, (env.resolve writer.proxy).IsSafe → FieldPermitsAll fc rwenum
  register : code.canWrite = true → code.safety = .safe →
    IsFullRange register.info.writeConstraint code.rty.bits ∨
      ∃ field, ∃ size ∈ register.info.properties.size,
        CoversRegister crates config register access rpath index field size

/-- The constraint of the first field listed. -/
def firstConstraint : Option WriteConstraint :=
  (register.info.fields.getD []).head?.bind (·.info.writeConstraint)

/-- The conditions on the fields and on the register.  A writer that is re-exported brings
the marker of its base field, where `baseWriter_isSafe_iff` has the condition for it; then
this field must permit as much as that marker lets through. -/
structure MarkersPermitted : Prop where
  own : ∀ fc ∈ code.code.fields, ∀ field fdpath lookup rwenum,
    IsRound crates config register.info.modifiedWriteValues access rpath index field fc fdpath lookup
      rwenum →
    ∀ writer ∈ fc.writer, (∀ base, writer.proxy ≠ .reexport base) →
      fc.field.info.bitRange.width ≠ 1 → ∀ evs ∈ rwenum.writeEnum.map EV.values,
        MarkerConditions evs fc.field.info.writeConstraint fc.field.info.bitRange.width
  reexported : ∀ fc ∈ code.code.fields, ∀ field fdpath lookup rwenum,
    IsRound crates config register.info.modifiedWriteValues access rpath index field fc fdpath lookup
      rwenum →
    ∀ writer ∈ fc.writer, ∀ base, writer.proxy = .reexport base → (env.writer base).IsSafe →
      CoversField fc rwenum
  register : access.canWrite = true → IsFullRange (firstConstraint register) code.rty.bits →
    IsFullRange register.info.writeConstraint code.rty.bits ∨
      ∃ field, ∃ size ∈ register.info.properties.size,
        CoversRegister crates config register access rpath index field size

variable {crates config env register access rpath index code}

theorem fieldPermitsAll_iff {fc : FieldCode} {rwenum : RWEnum} :
    FieldPermitsAll fc rwenum ↔ CoversField fc rwenum := by
  constructor
  · intro h
    have henum : ∀ evs ∈ rwenum.writeEnum.map EV.values,
        ∀ v < 2 ^ fc.field.info.bitRange.width, EnumPermits evs v :=
      fun evs hevs v hv => (h v hv).2 evs hevs
    refine ⟨constraintPermits_all_iff.mp fun v hv => (h v hv).1, ?_, ?_⟩
    · exact fun evs hevs => (enumPermits_all_iff.mp (henum evs hevs)).1
    · exact fun evs hevs => (enumPermits_all_iff.mp (henum evs hevs)).2
  · intro h v hv
    refine ⟨constraintPermits_all_iff.mpr h.constraint_covers v hv, fun evs hevs => ?_⟩
    exact enumPermits_all_iff.mpr ⟨h.reserved_named evs hevs, h.all_listed evs hevs⟩ v hv

/-- The marker that a re-export brings is that of the field it names: of a full range or of
an enumeration that makes its writer safe. -/
theorem baseWriter_isSafe_iff {base : EnumPath} {rmwv : Option ModifiedWriteValues}
    {field : Field} {fc : FieldCode} {fdpath : Option FieldPath}
    {lookup : List (EnumeratedValues × Option EnumPath)} {rwenum : RWEnum} {writer : WriterCode}
    (hround : IsRound crates config rmwv access rpath index field fc fdpath lookup rwenum)
    (hwriter : writer ∈ fc.writer) (hwidth : fc.field.info.bitRange.width ≤ 64)
    (hbase : writer.proxy = .own (env.writer base)) :
    (env.writer base).IsSafe ↔ MarksSafe fc.field.info.writeConstraint
      (rwenum.writeEnum.map EV.values) fc.field.info.bitRange.width :=
  hround.own_isSafe_iff hwriter hwidth hbase

/-- A writer of its own is right about its marker under the conditions on the field. -/
theorem ownWriter_sound_iff {field : Field} {fc : FieldCode} {fdpath : Option FieldPath}
    {lookup : List (EnumeratedValues × Option EnumPath)} {rwenum : RWEnum} {writer : WriterCode}
    {proxy : WriterProxy}
    (hround : IsRound crates config register.info.modifiedWriteValues access rpath index field fc
      fdpath lookup rwenum)
    (hwriter : writer ∈ fc.writer) (hwidth : fc.field.info.bitRange.width ≤ 64)
    (hproxy : writer.proxy = .own proxy) :
    (proxy.IsSafe → FieldPermitsAll fc rwenum) ↔
      (fc.field.info.bitRange.width ≠ 1 → ∀ evs ∈ rwenum.writeEnum.map EV.values,
        MarkerConditions evs fc.field.info.writeConstraint fc.field.info.bitRange.width) := by
  rw [hround.own_isSafe_iff hwriter hwidth hproxy, MarksSafe, and_imp]
  refine forall_congr' fun _ => ?_
  cases hwrite : rwenum.writeEnum.map EV.values with
  | none =>
      -- without an enumeration only a full range marks the writer
      refine iff_of_true ?_ (fun evs hevs => by cases hevs)
      rintro (hfull | ⟨evs, hevs, -⟩)
      · refine fieldPermitsAll_iff.mpr ⟨fun r hr => ?_, ?_, ?_⟩
        · obtain rfl := WriteConstraint.range.inj (Option.some.inj (hr.symm.trans hfull))
          exact ⟨rfl, Nat.le_refl _⟩
        · rw [hwrite]
          exact fun evs hevs => by cases hevs
        · rw [hwrite]
          exact fun evs hevs => by cases hevs
      · cases hevs
  | some evs =>
      have hpermits : FieldPermitsAll fc rwenum ↔ ∀ v < 2 ^ fc.field.info.bitRange.width,
          ConstraintPermits fc.field.info.writeConstraint v ∧ EnumPermits evs v := by
        simp [FieldPermitsAll, hwrite]
      rw [hpermits, or_comm]
      simp only [Option.mem_def, Option.some.injEq, exists_eq_left', forall_eq']
      exact markerConditions_iff

/-- The marker of the register. -/
theorem registerSafety_eq_safe_iff {info : RegisterInfo} {rsize : Nat} (hone : rsize ≠ 1)
    (hsize : rsize ≤ 64) : registerSafety info rsize = .safe ↔
      IsFullRange ((info.fields.getD []).head?.bind (·.info.writeConstraint)) rsize ∨
        IsFullRange info.writeConstraint rsize := by
  unfold registerSafety
  by_cases hfirst : Safety.get ((info.fields.getD []).head?.bind (·.info.writeConstraint)) rsize = .safe
  · rw [if_pos hfirst]
    exact iff_of_true rfl (.inl ((safetyGet_eq_safe_iff hone hsize).mp hfirst))
  · rw [if_neg hfirst]
    rw [safetyGet_eq_safe_iff hone hsize] at hfirst
    by_cases hown : Safety.get info.writeConstraint rsize = .safe
    · rw [if_pos hown]
      exact iff_of_true rfl (.inr ((safetyGet_eq_safe_iff hone hsize).mp hown))
    · rw [if_neg hown]
      rw [safetyGet_eq_safe_iff hone hsize] at hown
      exact iff_of_false nofun fun h => h.elim hfirst hown

theorem Safety.ident_eq_safe_iff {safety : Safety} {width : Nat} :
    safety.ident width = .safe ↔ safety = .safe := by
  cases safety with
  | safe => simp [Safety.ident]
  | unsafe_ => simp [Safety.ident]
  | range r =>
      simp only [Safety.ident, reduceCtorEq, iff_false]
      split
      · simp
      · split
        · simp
        · simp

/-- The marker of a rendered register comes from the two constraints. -/
theorem renderRegisterMod_safety
    (h : renderRegisterMod crates config register access rpath index = .ok code) :
    code.canWrite = access.canWrite ∧ (code.safety = .safe ↔
      IsFullRange (firstConstraint register) code.rty.bits ∨
        IsFullRange register.info.writeConstraint code.rty.bits) := by
  obtain ⟨_, -, h⟩ := gen_bind_ok.mp h
  obtain ⟨_, -, h⟩ := gen_bind_ok.mp h
  obtain ⟨size, -, h⟩ := gen_bind_ok.mp h
  obtain ⟨rty, hrty, h⟩ := gen_bind_ok.mp h
  obtain ⟨fieldsCode, -, h⟩ := gen_bind_ok.mp h
  obtain rfl := gen_pure_ok.mp h
  have hbits := toTy_registerSize hrty
  have hone : registerSize size ≠ 1 := by
    rw [← hbits]
    exact fun hbits => registerSize_ne_bool hrty (RustTy.eq_of_bits hbits)
  have hle : registerSize size ≤ 64 := by
    rw [← hbits]
    exact (toTy_ok hrty).2.2
  refine ⟨rfl, ?_⟩
  rw [Safety.ident_eq_safe_iff, registerSafety_eq_safe_iff hone hle, hbits]
  rfl

end Registers

/-- **Safe markers.**  The markers of a rendered register are sound exactly under the
conditions on its fields and on the register.  The marker is decided by the constraint or,
where there is an enumeration, by the number of its variants and its default alone; the
conditions supply what these two tests leave out. -/
theorem safeMarkers_sound_iff {crates : Crates} {config : Config} {register : Register}
    {access : Access} {rpath : RegisterPath} {index : Index} {code : RegisterCode}
    (h : renderRegisterMod crates config register access rpath index = .ok code) (env : ProxyEnv) :
    SafeMarkersSound crates config env register access rpath index code ↔
      MarkersPermitted crates config env register access rpath index code := by
  obtain ⟨hcanWrite, hsafety⟩ := renderRegisterMod_safety h
  have hwidth : ∀ fc ∈ code.code.fields, fc.field.info.bitRange.width ≤ 64 := by
    intro fc hfc
    obtain ⟨fty, useCast, useMask, hcode⟩ := (renderRegisterMod_ok h).1.codes fc hfc
    have hty := toTy_ok hcode.fty_ok
    omega
  constructor
  · intro hsound
    refine ⟨?_, ?_, ?_⟩
    · intro fc hfc field fdpath lookup rwenum hround writer hwriter hown
      have hfield := hsound.fields fc hfc field fdpath lookup rwenum hround writer hwriter
      cases hproxy : writer.proxy with
      | reexport base => exact absurd hproxy (hown base)
      | own proxy =>
          rw [hproxy] at hfield
          exact (ownWriter_sound_iff hround hwriter (hwidth fc hfc) hproxy).mp hfield
    · intro fc hfc field fdpath lookup rwenum hround writer hwriter base hbase hsafe
      refine fieldPermitsAll_iff.mp
        (hsound.fields fc hfc field fdpath lookup rwenum hround writer hwriter ?_)
      rw [hbase]
      exact hsafe
    · intro hcan hfirst
      exact hsound.register (hcanWrite.trans hcan) (hsafety.mpr (.inl hfirst))
  · intro hpermitted
    refine ⟨?_, ?_⟩
    · intro fc hfc field fdpath lookup rwenum hround writer hwriter hsafe
      cases hproxy : writer.proxy with
      | own proxy =>
          have hown : ∀ base, writer.proxy ≠ .reexport base := by simp [hproxy]
          rw [hproxy] at hsafe
          exact (ownWriter_sound_iff hround hwriter (hwidth fc hfc) hproxy).mpr
            (hpermitted.own fc hfc field fdpath lookup rwenum hround writer hwriter hown) hsafe
      | reexport base =>
          rw [hproxy] at hsafe
          exact fieldPermitsAll_iff.mpr (hpermitted.reexported fc hfc field fdpath lookup rwenum
            hround writer hwriter base hproxy hsafe)
    · intro hcan hmarked
      rcases hsafety.mp hmarked with hfirst | hown
      · exact hpermitted.register (hcanWrite.symm.trans hcan) hfirst
      · exact .inl hown

/-- A data register of 8 bits whose only field takes all of them. -/
def dataRegister : Register :=
  .single { plainRegister "DR" 0 8 with
    fields := some [.single { bitField "DATA" 0 8 with
      writeConstraint := some (.range ⟨0, 255⟩) }] }

/-- A prescaler of three bits: only 0 to 3 may be written, and an enumeration names 0 and
has a default. -/
def prescalerRegister : Register :=
  .single { plainRegister "CFGR" 0 32 with
    fields := some [.single { bitField "PRE" 4 3 with
      writeConstraint := some (.range ⟨0, 3⟩)
      enumeratedValues := [⟨some "Pre", none, none,
        [⟨"DIV1", none, some 0, false⟩, ⟨"OTHER", none, none, true⟩]⟩] }] }

/-- The rendering of a register that can be read and written, without an index. -/
def renderAlone (register : Register) : Gen RegisterCode :=
  renderRegisterMod asciiCrates defaultConfig register .readWrite
    ((BlockPath.new "RCC").newRegister register.info.name) ⟨fun _ => none, fun _ => none, fun _ => none⟩

/-- No re-exported writer of these registers is safe. -/
def noSafeProxies : ProxyEnv where
  writer _ := .fieldWriter 8 "u8" .unsafe_

theorem safeMarkers_sound_dataRegister : ∃ code, renderAlone dataRegister = .ok code ∧
    code.safety = .safe ∧
    SafeMarkersSound asciiCrates defaultConfig noSafeProxies dataRegister .readWrite
      ((BlockPath.new "RCC").newRegister "DR") ⟨fun _ => none, fun _ => none, fun _ => none⟩ code := by
  have hrender : renderAlone dataRegister = .ok _ := rfl
  refine ⟨_, hrender, rfl, (safeMarkers_sound_iff hrender noSafeProxies).mpr ⟨?_, ?_, ?_⟩⟩
  · intro fc hfc field fdpath lookup rwenum hround writer hwriter hown hone evs hevs
    obtain rfl := List.mem_singleton.mp hfc
    obtain rfl := Except.ok.inj hround.looked_up
    obtain rfl := Except.ok.inj hround.chosen
    cases hevs
  · intro fc hfc field fdpath lookup rwenum hround writer hwriter base hbase hsafe
    exact hsafe.elim
  · intro _ _
    refine .inr ⟨_, 8, rfl, rfl, rfl, fun v hv => ⟨?_, ?_⟩⟩
    · intro r h
      cases h
      exact ⟨Nat.zero_le _, Nat.le_of_lt_succ hv⟩
    · intro h fdpath lookup rwenum hround evs hevs
      obtain ⟨resolved, reader, writer⟩ := h
      obtain ⟨rfl, rfl⟩ := Prod.mk.inj (Except.ok.inj hround.resolved)
      obtain rfl := Except.ok.inj hround.looked_up
      obtain rfl := Except.ok.inj hround.chosen
      cases hevs

/-- The default makes the writer of the prescaler safe, and 7 can be written. -/
theorem not_safeMarkers_sound_prescaler : ∃ code, renderAlone prescalerRegister = .ok code ∧
    ¬ SafeMarkersSound asciiCrates defaultConfig noSafeProxies prescalerRegister .readWrite
      ((BlockPath.new "RCC").newRegister "CFGR") ⟨fun _ => none, fun _ => none, fun _ => none⟩
      code := by
  have hrender : renderAlone prescalerRegister = .ok _ := rfl
  refine ⟨_, hrender, fun hsound => ?_⟩
  have hfields : fields asciiCrates defaultConfig prescalerRegister.info.renderedFields none .readWrite
    prescalerRegister.info.properties ((BlockPath.new "RCC").newRegister "CFGR")
    ⟨fun _ => none, fun _ => none, fun _ => none⟩ = .ok _ := rfl
  obtain ⟨field, hfield, fdpath, lookup, rwenum, hround⟩ :=
    (exists_round hfields).2 _ List.mem_cons_self
  have hpermits := hsound.fields _ List.mem_cons_self field fdpath lookup rwenum hround _ rfl trivial
  exact absurd (((hpermits 7 (by decide)).1 ⟨0, 3⟩ rfl).2) (by decide)

end Svd2Rust
