import Svd2Rust.NeutralModify
import Svd2Rust.RegisterTypes

/-!
# What a register's module mentions is in it

`registerTypes_resolve` says that every type the accessors and the proxies mention is there,
with the variants the methods refer to.  `typeNames_nodup_iff` says what the sets of names are
good for: two types of one name are never re-exports of one kind.
-/

namespace Svd2Rust

open FallibleRuns

/-! ## Scope -/

/-- Some type of the module has the name. -/
def Defines (items : List TypeItem) (name : String) : Prop := name ∈ items.map (·.name)

/-- A type of the name has all the variants. -/
def HasVariants (items : List TypeItem) (name : String) (pcs : List String) : Prop :=
  ∃ variants, .type name variants ∈ items ∧ ∀ pc ∈ pcs, pc ∈ variants

/-- What the code of a field mentions is among the types: the proxies its accessors return,
what these read and write, and the variants in its methods. -/
structure FieldCode.Scoped (items : List TypeItem) (fc : FieldCode) : Prop where
  reader : ∀ reader ∈ fc.reader, Defines items reader.ty
  reads : ∀ reader ∈ fc.reader, ∀ valueTy, reader.proxy = .bitReader valueTy ∨
    reader.proxy = .fieldReader valueTy → isPrimitive valueTy = true ∨ Defines items valueTy
  variant : ∀ reader ∈ fc.reader, ∀ enumItems method predicates,
    reader.enumReader = some (.enum enumItems method predicates) →
      HasVariants items reader.valueTy (method.arms.map (·.2.pc) ++ predicates.map (·.pc))
  writer : ∀ writer ∈ fc.writer, Defines items writer.ty
  writes : ∀ writer ∈ fc.writer, ∀ proxy, writer.proxy = .own proxy →
    isPrimitive proxy.valueTy = true ∨ Defines items proxy.valueTy
  variants : ∀ writer ∈ fc.writer, writer.variants ≠ [] →
    HasVariants items writer.valueTy (writer.variants.map (·.pc))

theorem Defines.mono {items later : List TypeItem} (hsub : items ⊆ later) {name : String}
    (h : Defines items name) : Defines later name := List.map_subset _ hsub h

theorem HasVariants.mono {items later : List TypeItem} (hsub : items ⊆ later) {name : String}
    {pcs : List String} (h : HasVariants items name pcs) : HasVariants later name pcs := by
  obtain ⟨variants, hmem, hall⟩ := h
  exact ⟨variants, hsub hmem, hall⟩

/-- Whatever is put into the sets is a type of the module. -/
theorem Extends.defines {items : List TypeItem} {derives : Derives}
    (h : Extends noDerives items derives) (set : DeriveSet) (name : String)
    (hname : name ∈ derives.names set) : Defines items name := by
  rcases h.known set name hname with hold | hnew
  · cases set <;> cases hold
  · exact hnew

theorem FieldCode.Scoped.mono {items later : List TypeItem} (hsub : items ⊆ later) {fc : FieldCode}
    (h : fc.Scoped items) : fc.Scoped later where
  reader r hr := (h.reader r hr).mono hsub
  reads r hr ty hty := (h.reads r hr ty hty).imp_right (·.mono hsub)
  variant r hr enumItems method predicates henum :=
    (h.variant r hr enumItems method predicates henum).mono hsub
  writer w hw := (h.writer w hw).mono hsub
  writes w hw proxy hproxy := (h.writes w hw proxy hproxy).imp_right (·.mono hsub)
  variants w hw hne := (h.variants w hw hne).mono hsub

section Rounds

variable {crates : Crates} {config : Config} {rmwv : Option ModifiedWriteValues}
  {access : Access} {properties : RegisterProperties} {rpath : RegisterPath} {index : Index}
  {fpath : FieldPath} {nameSnakeCase : String}

/-- The half of a field that can be read. -/
theorem readerCodeIf_items {rwenum : RWEnum} {derives used : Derives} {canRead : Bool}
    {field : Field} {mask : Nat} {fty : RustTy} {useCast useMask : Bool} {code : Option ReaderCode}
    (h : readerCodeIf crates config canRead fpath nameSnakeCase field rwenum mask fty useCast useMask
      derives = .ok (code, used)) :
    Extends derives (code.toList.flatMap (·.typeItems rwenum derives)) used ∧
      used.names .writers = derives.names .writers ∧ code.isSome = canRead ∧
      ∀ reader ∈ code, ReaderItems rwenum derives reader used ∧
        readerCode crates config fpath nameSnakeCase field rwenum mask fty useCast useMask derives =
          .ok (reader, used) := by
  unfold readerCodeIf at h
  cases canRead with
  | false =>
      obtain ⟨rfl, rfl⟩ := Prod.mk.inj (gen_pure_ok.mp h)
      exact ⟨.refl derives, rfl, rfl, fun reader hreader => by cases hreader⟩
  | true =>
      obtain ⟨⟨reader, used'⟩, hreader, h⟩ := gen_bind_ok.mp h
      obtain ⟨rfl, rfl⟩ := Prod.mk.inj (gen_pure_ok.mp h)
      have hitems := readerCode_items hreader
      refine ⟨?_, hitems.writers, rfl, fun reader' hreader' => ?_⟩
      · rw [Option.toList_some, List.flatMap_singleton]
        exact hitems.grows
      · obtain rfl := Option.some.inj hreader'
        exact ⟨hitems, hreader⟩

/-- The half that can be written. -/
theorem writerCodeIf_items {rwenum : RWEnum} {used derives' : Derives} {canWrite : Bool}
    {field : Field} {fty : RustTy} {code : Option WriterCode}
    (h : writerCodeIf crates config canWrite fpath nameSnakeCase field rwenum fty rmwv used =
      .ok (code, derives'))
    (hshared : ∀ writer, writerCode crates config fpath nameSnakeCase field rwenum fty rmwv used =
      .ok (writer, derives') → rwenum.generateWriteEnum = false → rwenum.writeEnum.isSome = true →
        writer.valueTy ∈ used.names rwenum.writeSet) :
    Extends used (code.toList.flatMap (·.typeItems rwenum used)) derives' ∧
      ∀ writer ∈ code, WriterItems rwenum used writer derives' ∧
        writerCode crates config fpath nameSnakeCase field rwenum fty rmwv used =
          .ok (writer, derives') := by
  unfold writerCodeIf at h
  cases canWrite with
  | false =>
      obtain ⟨rfl, rfl⟩ := Prod.mk.inj (gen_pure_ok.mp h)
      exact ⟨.refl used, fun writer hwriter => by cases hwriter⟩
  | true =>
      obtain ⟨⟨writer, used'⟩, hwriter, h⟩ := gen_bind_ok.mp h
      obtain ⟨rfl, rfl⟩ := Prod.mk.inj (gen_pure_ok.mp h)
      have hitems := writerCode_items hwriter (hshared writer hwriter)
      refine ⟨?_, fun writer' hwriter' => ?_⟩
      · rw [Option.toList_some, List.flatMap_singleton]
        exact hitems.grows
      · obtain rfl := Option.some.inj hwriter'
        exact ⟨hitems, hwriter⟩

theorem WriterCode.typeItems_congr {rwenum : RWEnum} {derives used : Derives} (writer : WriterCode)
    (h : used.names .writers = derives.names .writers) :
    writer.typeItems rwenum used = writer.typeItems rwenum derives := by
  rw [WriterCode.typeItems, WriterTy.typeItems_congr _ _ h, WriterCode.typeItems]

/-- A round of the loop in halves. -/
theorem fieldCode_halves {derives derives' : Derives} {field : Field} {fc : FieldCode}
    (h : fieldCode crates config rmwv access properties rpath index derives field =
      .ok (fc, derives')) :
    ∃ fpath nameSnakeCase rwenum lookup mask fty useCast useMask used,
      fieldEnums crates access rpath index field = .ok rwenum ∧
      RWEnum.choose (fieldCanRead access fc.field.info) (fieldCanWrite access fc.field.info) lookup
        (rpath.newField fc.field.info.name) = .ok rwenum ∧
      readerCodeIf crates config (fieldCanRead access fc.field.info) fpath nameSnakeCase fc.field
        rwenum mask fty useCast useMask derives = .ok (fc.reader, used) ∧
      writerCodeIf crates config (fieldCanWrite access fc.field.info) fpath nameSnakeCase fc.field
        rwenum fty rmwv used = .ok (fc.writer, derives') := by
  obtain ⟨⟨resolved, fdpath⟩, hresolved, h⟩ := gen_bind_ok.mp h
  simp only at h
  split at h
  · simp at h
  obtain ⟨nameSnakeCase, -, h⟩ := gen_bind_ok.mp h
  obtain ⟨mask, -, h⟩ := gen_bind_ok.mp h
  obtain ⟨reset, -, h⟩ := gen_bind_ok.mp h
  obtain ⟨fty, -, h⟩ := gen_bind_ok.mp h
  obtain ⟨⟨useCast, useMask⟩, -, h⟩ := gen_bind_ok.mp h
  obtain ⟨lookup, hlookup, h⟩ := gen_bind_ok.mp h
  obtain ⟨chosen, hchosen, h⟩ := gen_bind_ok.mp h
  obtain ⟨⟨reader, used⟩, hreader, h⟩ := gen_bind_ok.mp h
  obtain ⟨⟨writer, used'⟩, hwriter, h⟩ := gen_bind_ok.mp h
  obtain ⟨rfl, rfl⟩ := Prod.mk.inj (gen_pure_ok.mp h)
  refine ⟨_, nameSnakeCase, chosen, lookup, mask, fty, useCast, useMask, used, ?_, hchosen, hreader,
    hwriter⟩
  exact gen_bind_ok.mpr ⟨_, hresolved, gen_bind_ok.mpr ⟨lookup, hlookup, hchosen⟩⟩

/-- The enum of a reader is that of the field. -/
theorem readerCode_enum {rwenum : RWEnum} {derives used : Derives} {field : Field} {mask : Nat}
    {fty : RustTy} {useCast useMask : Bool} {reader : ReaderCode}
    (h : readerCode crates config fpath nameSnakeCase field rwenum mask fty useCast useMask derives =
      .ok (reader, used)) {enum : EnumReader} (henum : reader.enumReader = some enum) :
    ∃ evs, rwenum.readEnum = some (.new evs) ∧
      readEnum crates config evs field.info.bitRange.width = .ok enum := by
  obtain ⟨enumReader, accessors, hcode, -, h⟩ := readerCode_ok h
  obtain ⟨rfl, -⟩ := Prod.mk.inj h
  obtain rfl : enumReader = some enum := henum
  unfold readEnumCode at hcode
  cases hread : rwenum.readEnum with
  | none =>
      rw [hread] at hcode
      cases gen_pure_ok.mp hcode
  | some ev =>
      rw [hread] at hcode
      cases ev with
      | derived values base => cases gen_pure_ok.mp hcode
      | new values =>
          obtain ⟨built, hbuilt, hcode⟩ := gen_bind_ok.mp hcode
          obtain rfl := Option.some.inj (gen_pure_ok.mp hcode)
          exact ⟨values, rfl, hbuilt⟩

/-- A new enumeration is read through an enum. -/
theorem readerCode_new {rwenum : RWEnum} {derives used : Derives} {field : Field} {mask : Nat}
    {fty : RustTy} {useCast useMask : Bool} {reader : ReaderCode}
    (h : readerCode crates config fpath nameSnakeCase field rwenum mask fty useCast useMask derives =
      .ok (reader, used)) {evs : EnumeratedValues} (hnew : rwenum.readEnum = some (.new evs)) :
    ∃ enum, readEnum crates config evs field.info.bitRange.width = .ok enum ∧
      reader.enumReader = some enum := by
  obtain ⟨enumReader, accessors, hcode, -, h⟩ := readerCode_ok h
  obtain ⟨rfl, -⟩ := Prod.mk.inj h
  rw [readEnumCode, hnew] at hcode
  obtain ⟨enum, hbuilt, hcode⟩ := gen_bind_ok.mp hcode
  exact ⟨enum, hbuilt, (gen_pure_ok.mp hcode).symm⟩

/-- The variant methods of a writer are those of the field. -/
theorem writerCode_variants {rwenum : RWEnum} {derives used : Derives} {field : Field}
    {fty : RustTy} {writer : WriterCode}
    (h : writerCode crates config fpath nameSnakeCase field rwenum fty rmwv derives =
      .ok (writer, used))
    (hne : writer.variants ≠ []) :
    ∃ evs variants safety safety', rwenum.writeEnum = some (.new evs) ∧
      writeVariants crates config evs field.info.bitRange.width safety = .ok (variants, safety') ∧
      writer.variants.map (·.pc) = variants.map (·.pc) := by
  obtain ⟨variants, safety, accessors, hcode, -, h⟩ := writerCode_ok h
  obtain ⟨rfl, -⟩ := Prod.mk.inj h
  simp only at hne ⊢
  unfold writeEnumCode at hcode
  cases hwrite : rwenum.writeEnum with
  | none =>
      rw [hwrite] at hcode
      exact absurd (Prod.mk.inj (gen_pure_ok.mp hcode)).1.symm hne
  | some ev =>
      rw [hwrite] at hcode
      cases ev with
      | derived values base => exact absurd (Prod.mk.inj (gen_pure_ok.mp hcode)).1.symm hne
      | new values =>
          obtain ⟨⟨written, safety'⟩, hwritten, hcode⟩ := gen_bind_ok.mp hcode
          obtain ⟨rfl, -⟩ := Prod.mk.inj (gen_pure_ok.mp hcode)
          exact ⟨values, written, _, safety', rfl, hwritten, by simp [Function.comp_def]⟩

theorem typeItems_enum {rwenum : RWEnum} {derives : Derives} {reader : ReaderCode} {enum : EnumReader}
    (h : reader.enumReader = some enum) :
    .type reader.valueTy enum.pcs ∈ reader.typeItems rwenum derives := by
  simp [ReaderCode.typeItems, h]

/-- The variants a reader mentions. -/
theorem readerCode_hasVariants {rwenum : RWEnum} {derives used : Derives} {field : Field} {mask : Nat}
    {fty : RustTy} {useCast useMask : Bool} {reader : ReaderCode} {items : List TypeItem}
    (h : readerCode crates config fpath nameSnakeCase field rwenum mask fty useCast useMask derives =
      .ok (reader, used)) (hsub : reader.typeItems rwenum derives ⊆ items)
    {enumItems : List Variant} {method : VariantMethod} {predicates : List VariantPredicate}
    (henum : reader.enumReader = some (.enum enumItems method predicates)) :
    HasVariants items reader.valueTy (method.arms.map (·.2.pc) ++ predicates.map (·.pc)) := by
  obtain ⟨evs, -, hbuilt⟩ := readerCode_enum h henum
  obtain ⟨harms, -, hpredicates⟩ := readEnum_pcs hbuilt
  refine ⟨_, hsub (typeItems_enum henum), fun pc hpc => ?_⟩
  rcases List.mem_append.mp hpc with hpc | hpc
  · obtain ⟨arm, harm, rfl⟩ := List.mem_map.mp hpc
    exact List.mem_map_of_mem (harms arm harm)
  · obtain ⟨p, hp, rfl⟩ := List.mem_map.mp hpc
    obtain ⟨v, hv, hpc⟩ := hpredicates p hp
    rw [hpc]
    exact List.mem_map_of_mem hv

/-- The variants of a writer that takes the enum of the reader. -/
theorem sharedCode_hasVariants {evs : EnumeratedValues} {derives used derives' : Derives}
    {field : Field} {mask : Nat} {fty : RustTy} {useCast useMask : Bool} {reader : ReaderCode}
    {writer : WriterCode} {items : List TypeItem}
    (hreader : readerCode crates config fpath nameSnakeCase field (.readWriteCommon (.new evs)) mask
      fty useCast useMask derives = .ok (reader, used))
    (hwriter : writerCode crates config fpath nameSnakeCase field (.readWriteCommon (.new evs)) fty
      rmwv used = .ok (writer, derives'))
    (hsub : reader.typeItems (.readWriteCommon (.new evs)) derives ⊆ items)
    (hne : writer.variants ≠ []) :
    HasVariants items writer.valueTy (writer.variants.map (·.pc)) := by
  obtain ⟨evs', variants, safety, safety', hwrite, hwritten, hpcs⟩ := writerCode_variants hwriter hne
  obtain rfl := EV.new.inj (Option.some.inj hwrite)
  obtain ⟨enum, hbuilt, henum⟩ := readerCode_new hreader rfl
  have hsame : writer.valueTy = reader.valueTy :=
    (writerCode_valueTy hwriter rfl).trans (readerCode_valueTy hreader rfl).symm
  rw [hsame, hpcs]
  refine ⟨_, hsub (typeItems_enum henum), fun pc hpc => ?_⟩
  obtain ⟨v, hv, rfl⟩ := List.mem_map.mp hpc
  exact written_pcs hbuilt hwritten v hv

/-- The variants of a writer with an enum of its own. -/
theorem ownCode_hasVariants {rwenum : RWEnum} {derives used : Derives} {field : Field} {fty : RustTy}
    {writer : WriterCode} {items : List TypeItem}
    (h : writerCode crates config fpath nameSnakeCase field rwenum fty rmwv derives =
      .ok (writer, used))
    (hgenerate : rwenum.generateWriteEnum = true)
    (hsub : writer.typeItems rwenum derives ⊆ items) (hne : writer.variants ≠ []) :
    HasVariants items writer.valueTy (writer.variants.map (·.pc)) := by
  obtain ⟨evs, variants, safety, safety', hwrite, -, -⟩ := writerCode_variants h hne
  refine ⟨_, hsub ?_, fun pc hpc => hpc⟩
  simp [WriterCode.typeItems, RWEnum.ownsWriteEnum, hgenerate, hwrite]

/-- **One field.**  The sets grow with its types, and where all names in the sets are defined
the field is in scope. -/
theorem fieldCode_typeItems {derives derives' : Derives} {field : Field} {fc : FieldCode}
    (h : fieldCode crates config rmwv access properties rpath index derives field =
      .ok (fc, derives')) :
    ∃ rwenum, fieldEnums crates access rpath index field = .ok rwenum ∧
      Extends derives (fc.typeItems rwenum derives) derives' ∧
      ∀ items, fc.typeItems rwenum derives ⊆ items →
        (∀ set, ∀ name ∈ derives'.names set, Defines items name) → fc.Scoped items := by
  obtain ⟨fpath, nameSnakeCase, rwenum, lookup, mask, fty, useCast, useMask, used, henums, hchosen,
    hreader, hwriter⟩ := fieldCode_halves h
  obtain ⟨hreads, hwriters, hsome, hreaders⟩ := readerCodeIf_items hreader
  -- a writer that takes the enum of the reader comes with a reader
  have hcommon : rwenum.generateWriteEnum = false → rwenum.writeEnum.isSome = true →
      ∃ ev, rwenum = .readWriteCommon ev ∧ ∃ reader, reader ∈ fc.reader := by
    intro hgenerate hwrite
    obtain ⟨ev, rfl⟩ := eq_common_of_shared hgenerate hwrite
    rw [canRead_of_common hchosen] at hsome
    exact ⟨ev, rfl, Option.isSome_iff_exists.mp hsome⟩
  have hshared : ∀ writer, writerCode crates config fpath nameSnakeCase fc.field rwenum fty rmwv
      used = .ok (writer, derives') → rwenum.generateWriteEnum = false → rwenum.writeEnum.isSome = true →
        writer.valueTy ∈ used.names rwenum.writeSet := by
    intro writer hcode hgenerate hwrite
    obtain ⟨ev, rfl, reader, hmem⟩ := hcommon hgenerate hwrite
    obtain ⟨hitems, hcode'⟩ := hreaders reader hmem
    have hvalue := hitems.value rfl
    rw [readerCode_valueTy hcode' rfl] at hvalue
    rw [writerCode_valueTy hcode rfl]
    exact hvalue
  obtain ⟨hwrites, hwritersItems⟩ := writerCodeIf_items hwriter hshared
  have hitems : fc.typeItems rwenum derives =
      fc.reader.toList.flatMap (·.typeItems rwenum derives) ++
        fc.writer.toList.flatMap (·.typeItems rwenum used) := by
    simp only [FieldCode.typeItems, WriterCode.typeItems_congr _ hwriters]
  refine ⟨rwenum, henums, ?_⟩
  rw [hitems]
  refine ⟨hreads.append hwrites, fun items hsub hknown => ?_⟩
  have hused : ∀ set, ∀ name ∈ used.names set, Defines items name :=
    fun set name hname => hknown set name (hwrites.keeps set name hname)
  have hreaderItems : ∀ reader ∈ fc.reader, reader.typeItems rwenum derives ⊆ items := by
    intro reader hmem item hitem
    refine hsub (List.mem_append_left _ (List.mem_flatMap.mpr ⟨reader, ?_, hitem⟩))
    exact Option.mem_toList.mpr hmem
  have hwriterItems : ∀ writer ∈ fc.writer, writer.typeItems rwenum used ⊆ items := by
    intro writer hmem item hitem
    refine hsub (List.mem_append_right _ (List.mem_flatMap.mpr ⟨writer, ?_, hitem⟩))
    exact Option.mem_toList.mpr hmem
  exact {
    reader := by
      intro reader hmem
      rcases (hreaders reader hmem).1.ty with hty | hty
      · exact hused _ _ hty
      · exact List.map_subset _ (hreaderItems reader hmem) hty
    reads := by
      intro reader hmem valueTy hvalue
      exact ((hreaders reader hmem).1.takes valueTy hvalue).imp_right
        fun hty => List.map_subset _ (hreaderItems reader hmem) hty
    variant := by
      intro reader hmem enumItems method predicates henum
      exact readerCode_hasVariants (hreaders reader hmem).2 (hreaderItems reader hmem) henum
    writer := by
      intro writer hmem
      rcases (hwritersItems writer hmem).1.ty with hty | hty
      · exact hknown _ _ hty
      · exact List.map_subset _ (hwriterItems writer hmem) hty
    writes := by
      intro writer hmem proxy hproxy
      exact ((hwritersItems writer hmem).1.takes proxy hproxy).imp_right
        fun hty => hknown _ _ hty
    variants := by
      intro writer hmem hne
      have hcode := (hwritersItems writer hmem).2
      cases hgenerate : rwenum.generateWriteEnum with
      | true => exact ownCode_hasVariants hcode hgenerate (hwriterItems writer hmem) hne
      | false =>
          obtain ⟨evs, variants, safety, safety', hwrite, -, -⟩ := writerCode_variants hcode hne
          obtain ⟨ev, rfl, reader, hread⟩ := hcommon hgenerate (by rw [hwrite]; rfl)
          obtain rfl := Option.some.inj hwrite
          exact sharedCode_hasVariants (hreaders reader hread).2 hcode (hreaderItems reader hread)
            hne }

/-- The invariant of the loop. -/
structure ItemsState.Sound (state : ItemsState) : Prop where
  grows : Extends noDerives state.items state.derives
  inScope : ∀ fc ∈ state.codes, fc.Scoped state.items

theorem ItemsState.sound_start : ItemsState.Sound ⟨[], noDerives, []⟩ :=
  ⟨.refl noDerives, fun fc hfc => by cases hfc⟩

/-- **One round.**  What it adds is in scope for its own accessors, and the names it skips are
those of items added before. -/
theorem typeItemsStep_sound {state state' : ItemsState} {field : Field} (h : state.Sound)
    (hstep : typeItemsStep crates config rmwv access properties rpath index state field =
      .ok state') : state'.Sound := by
  obtain ⟨⟨fc, derives⟩, hcode, hstep⟩ := gen_bind_ok.mp hstep
  obtain ⟨rwenum, henums, hstep⟩ := gen_bind_ok.mp hstep
  obtain rfl := gen_pure_ok.mp hstep
  obtain ⟨rwenum', henums', hround, hscoped⟩ := fieldCode_typeItems hcode
  obtain rfl := Except.ok.inj (henums.symm.trans henums')
  have hgrows : Extends noDerives (state.items ++ fc.typeItems rwenum state.derives) derives :=
    h.grows.append hround
  have hinScope : ∀ fc' ∈ state.codes ++ [fc],
      fc'.Scoped (state.items ++ fc.typeItems rwenum state.derives) := by
    intro fc' hfc'
    rcases List.mem_append.mp hfc' with hold | hnew
    · exact (h.inScope fc' hold).mono (List.subset_append_left _ _)
    · obtain rfl := List.mem_singleton.mp hnew
      exact hscoped _ (List.subset_append_right _ _) hgrows.defines
  exact ⟨hgrows, hinScope⟩

/-- **All rounds.**  The invariant speaks of the items so far and of the five sets, and each
round keeps it. -/
theorem fieldsTypeItems_sound {fs : List Field} {state : ItemsState}
    (h : fieldsTypeItems crates config rmwv access properties rpath index fs = .ok state) :
    state.Sound := by
  exact @invariant_of_safeRun _ _ _ _ (fun _ _ => True) (fun _ state => state.Sound)
    (fun hinv _ hstep => typeItemsStep_sound hinv hstep) [] _ _ _ ItemsState.sound_start
    (safeRun_true _ _) h

/-- The loop with the types over the fields read so far, in the state of that without. -/
def RunsWithTypes (crates : Crates) (config : Config) (rmwv : Option ModifiedWriteValues)
    (access : Access) (properties : RegisterProperties) (rpath : RegisterPath) (index : Index)
    (before : List Field) (state : FieldsCode × Derives) : Prop :=
  ∃ items, before.foldlM (typeItemsStep crates config rmwv access properties rpath index)
    ⟨[], noDerives, []⟩ = .ok ⟨state.1.fields, state.2, items⟩

/-- The loop with the types runs in lock step with the loop without them. -/
theorem fieldsTypeItems_of_fields {fs : List Field} {code : FieldsCode}
    (h : fields crates config fs rmwv access properties rpath index = .ok code) :
    ∃ state, fieldsTypeItems crates config rmwv access properties rpath index fs = .ok state ∧
      state.codes = code.fields := by
  obtain ⟨⟨last, derives⟩, hrun, h⟩ := gen_bind_ok.mp h
  obtain rfl := gen_pure_ok.mp h
  have hround : ∀ {before : List Field} {s : FieldsCode × Derives} {field : Field}
      {t : FieldsCode × Derives},
      RunsWithTypes crates config rmwv access properties rpath index before s → True →
      fieldsStep crates config rmwv access properties rpath index s field = .ok t →
      RunsWithTypes crates config rmwv access properties rpath index (before ++ [field]) t := by
    intro before s field t hbefore _ hstep
    obtain ⟨items, hbefore⟩ := hbefore
    obtain ⟨⟨fc, derives'⟩, hcode, hstep⟩ := gen_bind_ok.mp hstep
    obtain rfl := gen_pure_ok.mp hstep
    obtain ⟨rwenum, henums, -, -⟩ := fieldCode_typeItems hcode
    refine ⟨items ++ fc.typeItems rwenum s.2, foldlM_concat_ok.mpr ⟨_, hbefore, ?_⟩⟩
    exact gen_bind_ok.mpr ⟨_, hcode, gen_bind_ok.mpr ⟨rwenum, henums, rfl⟩⟩
  have hstart : RunsWithTypes crates config rmwv access properties rpath index []
      (⟨[], 0, 0⟩, noDerives) := ⟨[], rfl⟩
  obtain ⟨items, hitems⟩ := invariant_of_safeRun hround hstart (safeRun_true _ _) hrun
  exact ⟨_, hitems, rfl⟩

end Rounds

/-! ## The module -/

section Module

variable (crates : Crates) (config : Config)

/-- The types of the rendered fields, if there are any. -/
def renderedTypeItems (info : RegisterInfo) (access : Access) (rpath : RegisterPath)
    (index : Index) : Gen ItemsState :=
  if info.renderedFields.isEmpty then return ⟨[], noDerives, []⟩
  else fieldsTypeItems crates config info.modifiedWriteValues access info.properties rpath index
    info.renderedFields

/-- The types of the module: `R` and `W`, those of the fields, and the specification. -/
def moduleTypeItems (register : Register) (access : Access) (rpath : RegisterPath)
    (index : Index) : Gen (List TypeItem) := do
  let regspecTy := identText crates config (nameOf register config.ignoreGroups) .registerSpec
  let state ← renderedTypeItems crates config register.info access rpath index
  return (if access.canRead then [.alias "R" regspecTy] else []) ++
    (if access.canWrite then [.alias "W" regspecTy] else []) ++ state.items ++
      [.type regspecTy []]

end Module

section Module

variable {crates : Crates} {config : Config} {register : Register} {access : Access}
  {rpath : RegisterPath} {index : Index} {items : List TypeItem}

theorem renderedTypeItems_sound {info : RegisterInfo} {state : ItemsState}
    (h : renderedTypeItems crates config info access rpath index = .ok state) : state.Sound := by
  unfold renderedTypeItems at h
  split at h
  · obtain rfl := gen_pure_ok.mp h
    exact ItemsState.sound_start
  · exact fieldsTypeItems_sound h

theorem renderedTypeItems_of_code {info : RegisterInfo} {code : FieldsCode}
    (h : renderedFieldsCode crates config info access rpath index = .ok code) :
    ∃ state, renderedTypeItems crates config info access rpath index = .ok state ∧
      state.codes = code.fields := by
  unfold renderedFieldsCode at h
  unfold renderedTypeItems
  split at h
  · rename_i hempty
    obtain rfl := gen_pure_ok.mp h
    rw [if_pos hempty]
    exact ⟨_, rfl, rfl⟩
  · rename_i hsome
    rw [if_neg hsome]
    exact fieldsTypeItems_of_fields h

/-- **Scope.**  The module of a rendered register has the types that the accessors of its
fields mention.  A type is left out only if its name is in the set of those defined before; so
each round finds the types it mentions among its own or those of an earlier round, and later
rounds remove none. -/
theorem registerTypes_resolve {code : RegisterCode}
    (h : renderRegisterMod crates config register access rpath index = .ok code) :
    ∃ items, moduleTypeItems crates config register access rpath index = .ok items ∧
      (code.canRead = true → Defines items "R") ∧ (code.canWrite = true → Defines items "W") ∧
      Defines items (identText crates config (nameOf register config.ignoreGroups) .registerSpec) ∧
      ∀ fc ∈ code.code.fields, fc.Scoped items := by
  obtain ⟨_, -, h⟩ := gen_bind_ok.mp h
  obtain ⟨_, -, h⟩ := gen_bind_ok.mp h
  obtain ⟨size, -, h⟩ := gen_bind_ok.mp h
  obtain ⟨rty, -, h⟩ := gen_bind_ok.mp h
  obtain ⟨fieldsCode, hfields, h⟩ := gen_bind_ok.mp h
  obtain rfl := gen_pure_ok.mp h
  obtain ⟨state, hstate, hcodes⟩ := renderedTypeItems_of_code hfields
  have hsound := renderedTypeItems_sound hstate
  refine ⟨_, gen_bind_ok.mpr ⟨state, hstate, rfl⟩, ?_, ?_, ?_, ?_⟩
  · intro hread
    simp [Defines, TypeItem.name, show access.canRead = true from hread]
  · intro hwrite
    simp [Defines, TypeItem.name, show access.canWrite = true from hwrite]
  · simp [Defines, TypeItem.name]
  · intro fc hfc
    have hin := hsound.inScope fc (hcodes ▸ hfc)
    exact hin.mono fun item hitem =>
      List.mem_append_left _ (List.mem_append_right _ hitem)

/-- SEL takes its enumeration from MODE. -/
theorem registerTypes_resolve_sel : ∃ code items,
    renderRegisterMod asciiCrates defaultConfig (.single sharedEnumRegister) .readWrite
      controlPath levelIndex = .ok code ∧
    moduleTypeItems asciiCrates defaultConfig (.single sharedEnumRegister) .readWrite
      controlPath levelIndex = .ok items ∧ code.code.fields.length = 3 ∧
    ∀ fc ∈ code.code.fields, fc.Scoped items := by
  have hrender : renderRegisterMod asciiCrates defaultConfig (.single sharedEnumRegister)
    .readWrite controlPath levelIndex = .ok _ := rfl
  obtain ⟨items, hitems, -, -, -, hscoped⟩ := registerTypes_resolve hrender
  exact ⟨_, items, hrender, hitems, rfl, hscoped⟩

/-- **One set.**  Whatever is re-exported through one set is re-exported once: a name is looked
up there before it is put in. -/
theorem reexports_nodup
    (h : moduleTypeItems crates config register access rpath index = .ok items)
    (set : DeriveSet) : (reexported set items).Nodup := by
  obtain ⟨state, hstate, h⟩ := gen_bind_ok.mp h
  obtain rfl := gen_pure_ok.mp h
  have honce := (renderedTypeItems_sound hstate).grows.once set
  unfold reexported at honce ⊢
  cases hread : access.canRead <;> cases hwrite : access.canWrite <;>
    simpa [TypeItem.set] using honce

/-- **Distinct names.**  Nothing is re-exported twice through one set, as a name is looked up in
its set before it is put there.  So the names of the module's types are distinct exactly when
those of its own types are, and no two types of different kinds share one: a name is never
looked up in the other sets. -/
theorem typeNames_nodup_iff
    (h : moduleTypeItems crates config register access rpath index = .ok items) :
    (∀ set, (reexported set items).Nodup) ∧
    ((items.map (·.name)).Nodup ↔
      ((items.filter fun item => item.set = none).map (·.name)).Nodup ∧
        ∀ a ∈ items, ∀ b ∈ items, a.set ≠ b.set → a.name ≠ b.name) := by
  have hreexports := reexports_nodup h
  refine ⟨hreexports, ?_⟩
  rw [nodup_map_iff_classes (k := TypeItem.set)]
  refine and_congr_left fun _ => ⟨fun hall => hall none, fun hown set => ?_⟩
  cases set with
  | none => exact hown
  | some set => exact hreexports set

/-- An enumeration that is only read. -/
def readLevelEnum : EnumeratedValues := { levelEnum with usage := some .read }

/-- An index that knows it as that of the field MODE. -/
def readLevelIndex : Index where
  registers _ := none
  clusters _ := none
  evs path :=
    if path = (controlPath.newField "MODE").newEnum "Level" then some readLevelEnum else none

/-- SEL reads the enumeration of MODE and has another one for writing. -/
def targetRegister : RegisterInfo :=
  { plainRegister "CR" 0 8 with
    fields := some [
      .single { bitField "MODE" 0 4 with enumeratedValues := [readLevelEnum] },
      .single { bitField "SEL" 4 4 with
        enumeratedValues := [{ readLevelEnum with derivedFrom := some "MODE.Level" },
          { levelEnum with name := some "Target", usage := some .write }] }] }

/-- An enumeration that is there for MODE is re-exported beside it for SEL, as the names for
reading are in another set. -/
theorem typeNames_nodup_sel :
    (∃ items, moduleTypeItems asciiCrates defaultConfig (.single sharedEnumRegister) .readWrite
      controlPath levelIndex = .ok items ∧ (items.map (·.name)).Nodup) ∧
    ∃ items, moduleTypeItems asciiCrates defaultConfig (.single targetRegister) .readWrite
      controlPath readLevelIndex = .ok items ∧ ¬ (items.map (·.name)).Nodup := by
  have hshared : moduleTypeItems asciiCrates defaultConfig (.single sharedEnumRegister)
    .readWrite controlPath levelIndex = .ok _ := rfl
  have htarget : moduleTypeItems asciiCrates defaultConfig (.single targetRegister)
    .readWrite controlPath readLevelIndex = .ok _ := rfl
  refine ⟨⟨_, hshared, (typeNames_nodup_iff hshared).2.mpr (by decide +kernel)⟩, _, htarget, ?_⟩
  intro hnodup
  have hnot := (typeNames_nodup_iff htarget).2.mp hnodup
  revert hnot
  decide +kernel

end Module

end Svd2Rust
