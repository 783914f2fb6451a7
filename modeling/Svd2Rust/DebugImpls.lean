import Svd2Rust.AsciiCrates
import Svd2Rust.FieldRounds

/-!
# Debug implementations

A register block derives `Debug`, so every `Reg` in it needs an implementation: through
that of its `R`, which the generic implementation prints, or one of its own.
`render_register_mod_debug` prints the fields it takes for readable by the accessors it
takes for defined; it looks at the fields before `fields` derives them.
`debugImpls_complete_iff` says for which registers there is one implementation and all
its accessors exist.
-/

namespace Svd2Rust

/-- An `impl Debug`: for `R`, with the accessors it calls or with the bits, or for the
`Reg` itself. -/
inductive DebugImpl where
  | fields (name : String) (accessors : List String)
  | bits
  | notReadable
deriving DecidableEq, Repr

/-- The accessors an implementation calls. -/
def DebugImpl.calls : DebugImpl → List String
  | .fields _ accessors => accessors
  | _ => []

/-- Whether `Reg` gets `Debug` from the implementation: from that of `R` if it can be
read. -/
def DebugImpl.applies (canRead : Bool) : DebugImpl → Bool
  | .fields _ _ | .bits => canRead
  | .notReadable => true

section Render

variable (crates : Crates) (config : Config)

/-- The accessors `render_register_mod_debug` calls for a field. -/
def printedNames (access : Access) (f : Field) : List String :=
  let fieldAccess := f.info.access.getD access
  if fieldAccess.canRead && f.info.readAction.isNone then
    match f with
    | .array info dim => (crates.indexes dim).map fun suffix =>
        fieldAccessorText crates config (expandDim info.name suffix)
    | .single info => [fieldAccessorText crates config (removeDim info.name)]
  else []

/-- `render_register_mod_debug`. -/
def renderRegisterModDebug (register : Register) (access : Access) (curFields : List Field) :
    List DebugImpl :=
  if access.canRead && register.info.readAction.isNone then
    [.fields (nameOf register config.ignoreGroups)
      (curFields.flatMap (printedNames crates config access))]
  else if !access.canRead || register.info.readAction.isSome then [.notReadable]
  else []

/-- `r_debug_impl` in `render_register_mod`. -/
def registerDebug (implDebug : Bool) (register : Register) (access : Access) : List DebugImpl :=
  match register.info.fields with
  | some _ =>
      let curFields := register.info.renderedFields
      if !curFields.isEmpty && implDebug then
        renderRegisterModDebug crates config register access curFields
      else []
  | none =>
      if !access.canRead || register.info.readAction.isSome then [.notReadable] else [.bits]

/-- The names of the accessors without arguments of a field. -/
def accessorNames (field : Field) : List String :=
  match field with
  | .array info dim =>
      (crates.fieldExpand info dim).map fun element =>
        fieldAccessorText crates config element.name
  | .single info => [fieldAccessorText crates config (removeDim info.name)]

/-- `impl R` of the register has an accessor of that name, without arguments. -/
def RegisterCode.Defines (code : RegisterCode) (name : String) : Prop :=
  ∃ fc ∈ code.code.fields, ∃ reader ∈ fc.reader, ∃ value, .named name value ∈ reader.accessors

/-- One implementation applies, and what it calls is defined. -/
structure DebugComplete (register : Register) (access : Access) (code : RegisterCode) : Prop where
  one : ((registerDebug crates config true register access).filter
    (·.applies access.canRead)).length = 1
  defined : ∀ impl ∈ registerDebug crates config true register access, ∀ name ∈ impl.calls,
    code.Defines name

/-- The conditions: a list of fields has one that is rendered, and for each accessor that is
printed there is a field that can still be read after its derivation and defines it. -/
structure FieldsPrintable (register : Register) (access : Access) (rpath : RegisterPath)
    (index : Index) : Prop where
  rendered : register.info.fields.isSome = true → register.info.renderedFields ≠ []
  readable : access.canRead = true → register.info.readAction = none →
    ∀ f ∈ register.info.renderedFields, ∀ name ∈ printedNames crates config access f,
      ∃ g ∈ register.info.renderedFields, ∃ resolved fdpath,
        resolveField crates g rpath index = .ok (resolved, fdpath) ∧
          fieldCanRead access resolved.info = true ∧ name ∈ accessorNames crates config resolved

end Render

section Complete

variable {crates : Crates} {config : Config} {access : Access} {rpath : RegisterPath}
  {index : Index}

/-- The accessors without arguments of a reader are those of its field. -/
theorem readAccessors_named_iff {field : Field} {mask : Nat} {fty : RustTy}
    {useCast useMask : Bool} {accessors : List ReadAccessor}
    (h : readAccessors crates config field (fieldAccessorText crates config (accessorName field))
      mask fty useCast useMask = .ok accessors) {name : String} :
    (∃ value, .named name value ∈ accessors) ↔ name ∈ accessorNames crates config field := by
  cases field with
  | single info =>
      obtain rfl := gen_pure_ok.mp h
      simp [accessorNames, accessorName]
  | array info dim =>
      obtain rfl := readAccessors_array h
      simp only [accessorNames, List.mem_cons, reduceCtorEq, false_or, List.mem_map,
        ReadAccessor.named.injEq]
      constructor
      · intro h
        obtain ⟨value, element, helement, hname, -⟩ := h
        exact ⟨element, helement, hname⟩
      · intro h
        obtain ⟨element, helement, hname⟩ := h
        exact ⟨_, element, helement, hname, rfl⟩

/-- A round defines the accessors of its field if that can be read. -/
theorem IsRound.defines_iff {rmwv : Option ModifiedWriteValues} {field : Field} {fc : FieldCode}
    {fdpath : Option FieldPath} {lookup : List (EnumeratedValues × Option EnumPath)}
    {rwenum : RWEnum}
    (h : IsRound crates config rmwv access rpath index field fc fdpath lookup rwenum)
    {name : String} :
    (∃ reader ∈ fc.reader, ∃ value, .named name value ∈ reader.accessors) ↔
      fieldCanRead access fc.field.info = true ∧ name ∈ accessorNames crates config fc.field := by
  obtain ⟨mask, fty, useCast, useMask, derives, derives', hread⟩ := h.read
  unfold readerCodeIf at hread
  cases hcan : fieldCanRead access fc.field.info with
  | false =>
      rw [hcan] at hread
      obtain ⟨hnone, -⟩ := Prod.mk.inj (gen_pure_ok.mp hread)
      simp [← hnone]
  | true =>
      rw [hcan] at hread
      obtain ⟨⟨code, used⟩, hcode, hread⟩ := gen_bind_ok.mp hread
      obtain ⟨hsome, -⟩ := Prod.mk.inj (gen_pure_ok.mp hread)
      obtain ⟨enumReader, accessors, -, haccessors, hcode⟩ := readerCode_ok hcode
      obtain ⟨rfl, -⟩ := Prod.mk.inj hcode
      rw [← hsome]
      simpa using readAccessors_named_iff haccessors

/-- **Definitions.**  `impl R` has the accessors of the rendered fields that can be read after
their derivation.  A derived field brings the access of its base with it, which decides
whether there is a reader. -/
theorem defines_iff {register : Register} {code : RegisterCode}
    (h : renderRegisterMod crates config register access rpath index = .ok code) {name : String} :
    code.Defines name ↔ ∃ g ∈ register.info.renderedFields, ∃ resolved fdpath,
      resolveField crates g rpath index = .ok (resolved, fdpath) ∧
        fieldCanRead access resolved.info = true ∧ name ∈ accessorNames crates config resolved := by
  obtain ⟨_, -, h⟩ := gen_bind_ok.mp h
  obtain ⟨_, -, h⟩ := gen_bind_ok.mp h
  obtain ⟨size, -, h⟩ := gen_bind_ok.mp h
  obtain ⟨rty, -, h⟩ := gen_bind_ok.mp h
  obtain ⟨fieldsCode, hfields, h⟩ := gen_bind_ok.mp h
  obtain rfl := gen_pure_ok.mp h
  unfold renderedFieldsCode at hfields
  split at hfields
  · rename_i hempty
    obtain rfl := gen_pure_ok.mp hfields
    have hnone : register.info.renderedFields = [] := List.isEmpty_iff.mp hempty
    simp [RegisterCode.Defines, hnone]
  · obtain ⟨hforth, hback⟩ := exists_round hfields
    constructor
    · intro h
      obtain ⟨fc, hfc, hdefines⟩ := h
      obtain ⟨g, hg, fdpath, lookup, rwenum, hround⟩ := hback fc hfc
      exact ⟨g, hg, fc.field, fdpath, hround.resolved, hround.defines_iff.mp hdefines⟩
    · intro h
      obtain ⟨g, hg, resolved, fdpath, hresolved, hdefines⟩ := h
      obtain ⟨fc, hfc, fdpath', lookup, rwenum, hround⟩ := hforth g hg
      obtain ⟨rfl, -⟩ := Prod.mk.inj (Except.ok.inj (hresolved.symm.trans hround.resolved))
      exact ⟨fc, hfc, hround.defines_iff.mpr hdefines⟩

/-- The three-way split is exhaustive. -/
theorem renderRegisterModDebug_eq {register : Register} {curFields : List Field} :
    renderRegisterModDebug crates config register access curFields =
      if access.canRead && register.info.readAction.isNone then
        [.fields (nameOf register config.ignoreGroups)
          (curFields.flatMap (printedNames crates config access))]
      else [.notReadable] := by
  unfold renderRegisterModDebug
  cases access.canRead <;> cases register.info.readAction <;> rfl

/-- **One implementation.**  Only a list of fields without a rendered one has none. -/
theorem registerDebug_one_iff {register : Register} :
    ((registerDebug crates config true register access).filter
        (·.applies access.canRead)).length = 1 ↔
      (register.info.fields.isSome = true → register.info.renderedFields ≠ []) := by
  unfold registerDebug
  cases hfields : register.info.fields with
  | none =>
      refine iff_of_true ?_ nofun
      cases hcan : access.canRead <;> cases register.info.readAction <;> rfl
  | some fieldList =>
      by_cases hempty : register.info.renderedFields = []
      · simp [hempty]
      · refine iff_of_true ?_ fun _ => hempty
        have hsome : register.info.renderedFields.isEmpty = false :=
          Bool.eq_false_iff.mpr fun h => hempty (List.isEmpty_iff.mp h)
        simp only [hsome, renderRegisterModDebug_eq]
        cases hcan : access.canRead <;> cases register.info.readAction <;> rfl

/-- What is called is printed for a field of a register that can be read. -/
theorem mem_calls_iff {register : Register} {name : String} :
    (∃ impl ∈ registerDebug crates config true register access, name ∈ impl.calls) ↔
      (access.canRead = true ∧ register.info.readAction = none) ∧
        ∃ f ∈ register.info.renderedFields, name ∈ printedNames crates config access f := by
  unfold registerDebug
  cases hfields : register.info.fields with
  | none =>
      have hnone : register.info.renderedFields = [] := by
        simp [RegisterInfo.renderedFields, hfields]
      cases access.canRead <;> cases register.info.readAction <;>
        simp [hnone, DebugImpl.calls]
  | some fieldList =>
      by_cases hempty : register.info.renderedFields = []
      · simp [hempty]
      · have hsome : register.info.renderedFields.isEmpty = false :=
          Bool.eq_false_iff.mpr fun h => hempty (List.isEmpty_iff.mp h)
        simp only [hsome, renderRegisterModDebug_eq]
        cases access.canRead <;> cases register.info.readAction <;>
          simp [DebugImpl.calls, List.mem_flatMap]

/-- **Debug implementations.**  There is one and its accessors exist exactly when a list of
fields has a rendered one and everything printed is defined after derivation.  What is printed
is chosen from the fields as the description lists them, what is defined from the fields after
derivation and by the access of the register. -/
theorem debugImpls_complete_iff {register : Register} {code : RegisterCode}
    (h : renderRegisterMod crates config register access rpath index = .ok code) :
    DebugComplete crates config register access code ↔
      FieldsPrintable crates config register access rpath index := by
  constructor
  · intro hcomplete
    refine ⟨registerDebug_one_iff.mp hcomplete.one, fun hcan haction f hf name hname => ?_⟩
    obtain ⟨impl, himpl, hcall⟩ := mem_calls_iff.mpr ⟨⟨hcan, haction⟩, f, hf, hname⟩
    exact (defines_iff h).mp (hcomplete.defined impl himpl name hcall)
  · intro hprintable
    refine ⟨registerDebug_one_iff.mpr hprintable.rendered, fun impl himpl name hname => ?_⟩
    obtain ⟨⟨hcan, haction⟩, f, hf, hprinted⟩ := mem_calls_iff.mp ⟨impl, himpl, hname⟩
    exact (defines_iff h).mpr (hprintable.readable hcan haction f hf name hprinted)

end Complete

/-- The other crates, with fields derived from a field of the same register: what the field
leaves open comes from the base. -/
def fieldDerivingCrates : Crates :=
  { asciiCrates with
    deriveField := fun field dpath rpath index => do
      let reg ← okOr ("register " ++ rpath.name ++ " not found") (index.registers rpath)
      let base ← okOr ("field " ++ dpath ++ " not found")
        ((reg.info.fields.getD []).find? (·.info.name = dpath))
      return (field.mapInfo fun info => { info with
          access := info.access.or base.info.access
          readAction := info.readAction.or base.info.readAction },
        some (rpath.newField dpath)) }

/-- A control register with the given fields. -/
def controlRegister (fieldList : List Field) : Register :=
  .single { plainRegister "CR" 0 32 with fields := some fieldList }

/-- The index of a device with this register. -/
def controlIndex (fieldList : List Field) : Index where
  registers _ := some (controlRegister fieldList)
  clusters _ := none
  evs _ := none

/-- Two enable bits and a write-only key. -/
def enableFields : List Field :=
  [.array (bitField "EN%s" 0 1) (countedDim 2 1),
    .single { bitField "KEY" 8 8 with access := some .writeOnly }]

theorem debugImpls_complete_enable :
    ∃ code, renderRegisterMod fieldDerivingCrates defaultConfig (controlRegister enableFields)
        .readWrite ⟨.new "WDG", "CR"⟩ (controlIndex enableFields) = .ok code ∧
      DebugComplete fieldDerivingCrates defaultConfig (controlRegister enableFields) .readWrite
        code := by
  refine ⟨_, rfl, (@debugImpls_complete_iff fieldDerivingCrates defaultConfig .readWrite
    ⟨.new "WDG", "CR"⟩ (controlIndex enableFields) (controlRegister enableFields) _ rfl).mpr
      ⟨by decide, fun _ _ f hf name hname => ?_⟩⟩
  refine ⟨enableFields[0], by decide, _, _, rfl, rfl, ?_⟩
  rcases hf with _ | ⟨_, _ | ⟨_, ⟨⟩⟩⟩
  · exact hname
  · cases hname

/-- A key that must not be read, and a lock bit derived from it. -/
def lockFields : List Field :=
  [.single { bitField "KEY" 0 1 with access := some .writeOnly },
    .single { bitField "LOCK" 1 1 with derivedFrom := some "KEY" }]

/-- The lock inherits that it cannot be read, and is printed. -/
theorem not_debugImpls_complete_lock :
    ∃ code, renderRegisterMod fieldDerivingCrates defaultConfig (controlRegister lockFields)
        .readWrite ⟨.new "WDG", "CR"⟩ (controlIndex lockFields) = .ok code ∧
      ¬ DebugComplete fieldDerivingCrates defaultConfig (controlRegister lockFields) .readWrite
        code := by
  refine ⟨_, rfl, fun hcomplete => ?_⟩
  obtain ⟨fc, hfc, reader, hreader, -⟩ :=
    hcomplete.defined _ List.mem_cons_self "lock" (by decide)
  rcases hfc with _ | ⟨_, _ | ⟨_, ⟨⟩⟩⟩
  · cases hreader
  · cases hreader

end Svd2Rust
