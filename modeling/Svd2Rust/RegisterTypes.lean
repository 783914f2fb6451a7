import Svd2Rust.EnumRoundTrip
import Svd2Rust.EnumUsage

/-!
# The types of a register's module

`fields` puts the types of the accessors into the module of the register: the enumerations,
a proxy for each direction of a field, and re-exports where an enumeration is derived from
another field.  It keeps five sets of names, so that nothing is re-exported twice.

`Extends` says how the sets grow while types are added.  The two halves of a field's code,
for reading and for writing, are shown to add the types they mention or to find them in the
sets.
-/

namespace Svd2Rust

/-! ## Items -/

/-- The sets of names: `enum_derives`, `read_enum_derives`, `write_enum_derives`,
`reader_derives` and `writer_derives`. -/
inductive DeriveSet where
  | enums
  | readEnums
  | writeEnums
  | readers
  | writers
deriving DecidableEq, Repr

/-- A type of the module: an `enum` or `struct` with its variants, an alias of a type that
takes another one, or a re-export. -/
inductive TypeItem where
  | type (name : String) (variants : List String)
  | alias (name of : String)
  | reexport (set : DeriveSet) (base : EnumPath) (name : String)
deriving DecidableEq, Repr

def TypeItem.name : TypeItem → String
  | .type name _ => name
  | .alias name _ => name
  | .reexport _ _ name => name

/-- The set a re-export belongs to. -/
def TypeItem.set : TypeItem → Option DeriveSet
  | .reexport set _ _ => some set
  | _ => none

/-- The names in the set. -/
def Derives.names (derives : Derives) : DeriveSet → List String
  | .enums => derives.enums
  | .readEnums => derives.readEnums
  | .writeEnums => derives.writeEnums
  | .readers => derives.readers.map (·.1)
  | .writers => derives.writers.map (·.1)

/-- The set of the enumerations that are read, and of those that are written. -/
def RWEnum.readSet (rwenum : RWEnum) : DeriveSet :=
  if rwenum.differentEnums then .readEnums else .enums

def RWEnum.writeSet (rwenum : RWEnum) : DeriveSet :=
  if rwenum.differentEnums then .writeEnums else .enums

/-- The variants of the enum of a reader; one without any is a `struct`. -/
def EnumReader.pcs : EnumReader → List String
  | .newtype => []
  | .enum items _ _ => items.map (·.pc)

/-- The type of a read proxy: an alias, or a re-export that is not there yet. -/
def ReaderTy.typeItems (ty : String) (derives : Derives) : ReaderTy → List TypeItem
  | .bitReader valueTy | .fieldReader valueTy => [.alias ty valueTy]
  | .reexport base => if ty ∈ derives.names .readers then [] else [.reexport .readers base ty]

/-- The types for reading a field, where `derives` are the names used before. -/
def ReaderCode.typeItems (rwenum : RWEnum) (derives : Derives) (reader : ReaderCode) :
    List TypeItem :=
  (reader.enumReader.map fun enum => .type reader.valueTy enum.pcs).toList ++
    (reader.valueReexport.map fun base => .reexport rwenum.readSet base reader.valueTy).toList ++
    reader.proxy.typeItems reader.ty derives

/-- The type a writer of `generic.rs` takes. -/
def WriterProxy.valueTy : WriterProxy → String
  | .bitWriter _ valueTy => valueTy
  | .fieldWriter _ valueTy _ => valueTy

/-- The type of a write proxy. -/
def WriterTy.typeItems (ty : String) (derives : Derives) : WriterTy → List TypeItem
  | .own proxy => [.alias ty proxy.valueTy]
  | .reexport base => if ty ∈ derives.names .writers then [] else [.reexport .writers base ty]

/-- The enum for writing, when it is not that for reading. -/
def RWEnum.ownsWriteEnum (rwenum : RWEnum) : Bool :=
  rwenum.generateWriteEnum && match rwenum.writeEnum with
    | some (.new _) => true
    | _ => false

/-- The types for writing a field. -/
def WriterCode.typeItems (rwenum : RWEnum) (derives : Derives) (writer : WriterCode) :
    List TypeItem :=
  (if rwenum.ownsWriteEnum then [.type writer.valueTy (writer.variants.map (·.pc))] else []) ++
    (writer.valueReexport.map fun base => .reexport rwenum.writeSet base writer.valueTy).toList ++
    writer.proxy.typeItems writer.ty derives

def FieldCode.typeItems (rwenum : RWEnum) (derives : Derives) (fc : FieldCode) : List TypeItem :=
  fc.reader.toList.flatMap (·.typeItems rwenum derives) ++
    fc.writer.toList.flatMap (·.typeItems rwenum derives)

section Loop

variable (crates : Crates) (config : Config) (rmwv : Option ModifiedWriteValues)
  (access : Access) (properties : RegisterProperties) (rpath : RegisterPath) (index : Index)

/-- The enumerations of a field, as the round for it picks them. -/
def fieldEnums (field : Field) : Gen RWEnum := do
  let (field, fdpath) ← resolveField crates field rpath index
  let fpath := rpath.newField field.info.name
  let lookup ← lookupResults crates field.info fdpath fpath index
  RWEnum.choose (fieldCanRead access field.info) (fieldCanWrite access field.info) lookup fpath

/-- The sets before the first field. -/
def noDerives : Derives := ⟨[], [], [], [], []⟩

/-- The loop of `fields` with the types in `mod_items`. -/
structure ItemsState where
  codes : List FieldCode
  derives : Derives
  items : List TypeItem

def typeItemsStep (state : ItemsState) (field : Field) : Gen ItemsState := do
  let (fc, derives) ← fieldCode crates config rmwv access properties rpath index state.derives field
  let rwenum ← fieldEnums crates access rpath index field
  return ⟨state.codes ++ [fc], derives, state.items ++ fc.typeItems rwenum state.derives⟩

/-- All types of the fields, and the code they are for. -/
def fieldsTypeItems (fields : List Field) : Gen ItemsState :=
  (fields.insertionSort fun a b => a.info.bitRange.offset ≤ b.info.bitRange.offset).foldlM
    (typeItemsStep crates config rmwv access properties rpath index) ⟨[], noDerives, []⟩

end Loop

/-! ## The sets -/

/-- The images of a list are distinct if they are within each class and across the classes. -/
theorem nodup_map_iff_classes {α β κ : Type} [DecidableEq κ] {f : α → β} {k : α → κ} {l : List α} :
    (l.map f).Nodup ↔ (∀ c, ((l.filter fun a => k a = c).map f).Nodup) ∧
      ∀ a ∈ l, ∀ b ∈ l, k a ≠ k b → f a ≠ f b := by
  constructor
  · intro h
    refine ⟨fun c => h.sublist (List.filter_sublist.map f), fun a ha b hb hclass heq => ?_⟩
    exact hclass (congrArg k (List.inj_on_of_nodup_map h ha hb heq))
  · intro h
    obtain ⟨hwithin, hacross⟩ := h
    refine List.pairwise_map.mpr (List.pairwise_iff_get.mpr fun i j hlt => ?_)
    by_cases hclass : k (l.get i) = k (l.get j)
    · have hpair := List.pairwise_filter.mp (List.pairwise_map.mp (hwithin (k (l.get i))))
      exact List.pairwise_iff_get.mp hpair i j hlt (by simp) (by simpa using hclass.symm)
    · exact hacross _ (List.get_mem l i) _ (List.get_mem l j) hclass

/-- The names that are re-exported from the set. -/
def reexported (set : DeriveSet) (items : List TypeItem) : List String :=
  (items.filter fun item => item.set = some set).map (·.name)

@[simp] theorem reexported_append (set : DeriveSet) (items later : List TypeItem) :
    reexported set (items ++ later) = reexported set items ++ reexported set later := by
  simp [reexported]

/-- How the sets grow while items are added: by names of the items, and by those that are
re-exported from them, once each. -/
structure Extends (derives : Derives) (items : List TypeItem) (derives' : Derives) : Prop where
  keeps : ∀ set, ∀ name ∈ derives.names set, name ∈ derives'.names set
  known : ∀ set, ∀ name ∈ derives'.names set,
    name ∈ derives.names set ∨ name ∈ items.map (·.name)
  once : ∀ set, (reexported set items).Nodup
  fresh : ∀ set, ∀ name ∈ reexported set items,
    name ∉ derives.names set ∧ name ∈ derives'.names set

/-- One name is put into one set. -/
structure AddsName (set : DeriveSet) (name : String) (derives derives' : Derives) : Prop where
  own : derives'.names set = name :: derives.names set
  other : ∀ set', set' ≠ set → derives'.names set' = derives.names set'

section Sets

variable {derives derives' derives'' : Derives} {set : DeriveSet} {item : TypeItem} {name : String}

theorem AddsName.mem_iff (h : AddsName set name derives derives') {set' : DeriveSet} {name' : String} :
    name' ∈ derives'.names set' ↔ (set' = set ∧ name' = name) ∨ name' ∈ derives.names set' := by
  by_cases hset : set' = set
  · subst hset
    simp [h.own]
  · simp [h.other set' hset, hset]

/-- Nothing happens. -/
theorem Extends.refl (derives : Derives) : Extends derives [] derives where
  keeps _ _ h := h
  known _ _ h := .inl h
  once _ := List.nodup_nil
  fresh _ _ h := by cases h

/-- A type of the module's own. -/
theorem Extends.own (hitem : item.set = none) : Extends derives [item] derives where
  keeps _ _ h := h
  known _ _ h := .inl h
  once _ := by simp [reexported, hitem]
  fresh _ _ h := by simp [reexported, hitem] at h

/-- A name that is put into a set for the second time. -/
theorem Extends.seen (h : AddsName set name derives derives') (hseen : name ∈ derives.names set) :
    Extends derives [] derives' where
  keeps _ _ hname := h.mem_iff.mpr (.inr hname)
  known set' name' hname := by
    rcases h.mem_iff.mp hname with hnew | hold
    · obtain ⟨rfl, rfl⟩ := hnew
      exact .inl hseen
    · exact .inl hold
  once _ := List.nodup_nil
  fresh _ _ h := by cases h

/-- A type whose name is put into a set, where it is new if the type is a re-export. -/
theorem Extends.adds (h : AddsName set item.name derives derives')
    (hitem : ∀ set', item.set = some set' → set' = set ∧ item.name ∉ derives.names set) :
    Extends derives [item] derives' where
  keeps _ _ hname := h.mem_iff.mpr (.inr hname)
  known set' name' hname := by
    rcases h.mem_iff.mp hname with hnew | hold
    · obtain ⟨rfl, rfl⟩ := hnew
      exact .inr List.mem_cons_self
    · exact .inl hold
  once set' := by
    unfold reexported
    by_cases hset : item.set = some set' <;> simp [hset]
  fresh set' name' hname := by
    unfold reexported at hname
    by_cases hset : item.set = some set'
    · obtain ⟨rfl, hnew⟩ := hitem set' hset
      obtain rfl : name' = item.name := by simpa [hset] using hname
      exact ⟨hnew, h.mem_iff.mpr (.inl ⟨rfl, rfl⟩)⟩
    · simp [hset] at hname

/-- **Composition.**  A name that the first part has put into a set is skipped by the second. -/
theorem Extends.append {items later : List TypeItem} (h : Extends derives items derives')
    (hlater : Extends derives' later derives'') : Extends derives (items ++ later) derives'' where
  keeps set name hname := hlater.keeps set name (h.keeps set name hname)
  known set name hname := by
    rw [List.map_append, List.mem_append]
    rcases hlater.known set name hname with hold | hnew
    · rcases h.known set name hold with hold | hnew
      · exact .inl hold
      · exact .inr (.inl hnew)
    · exact .inr (.inr hnew)
  once set := by
    rw [reexported_append, List.nodup_append]
    refine ⟨h.once set, hlater.once set, fun name hname name' hname' heq => ?_⟩
    subst heq
    exact (hlater.fresh set name hname').1 (h.fresh set name hname).2
  fresh set name hname := by
    rw [reexported_append, List.mem_append] at hname
    rcases hname with hname | hname
    · obtain ⟨hnew, hmem⟩ := h.fresh set name hname
      exact ⟨hnew, hlater.keeps set name hmem⟩
    · obtain ⟨hnew, hmem⟩ := hlater.fresh set name hname
      exact ⟨fun hold => hnew (h.keeps set name hold), hmem⟩

end Sets

/-! ## One field -/

section Field

variable {crates : Crates} {config : Config} {derives derives' : Derives} {rwenum : RWEnum}

theorem seen_read (rwenum : RWEnum) (derives : Derives) :
    readEnumSeen rwenum derives = derives.names rwenum.readSet := by
  unfold readEnumSeen RWEnum.readSet
  cases rwenum.differentEnums <;> rfl

theorem seen_write (rwenum : RWEnum) (derives : Derives) :
    writeEnumSeen rwenum derives = derives.names rwenum.writeSet := by
  unfold writeEnumSeen RWEnum.writeSet
  cases rwenum.differentEnums <;> rfl

theorem addsName_read (rwenum : RWEnum) (derives : Derives) (name : String) :
    AddsName rwenum.readSet name derives
      (if rwenum.differentEnums then { derives with readEnums := name :: derives.names rwenum.readSet }
        else { derives with enums := name :: derives.names rwenum.readSet }) := by
  unfold RWEnum.readSet
  cases rwenum.differentEnums with
  | false => exact ⟨rfl, fun set hset => by cases set <;> first | rfl | exact absurd rfl hset⟩
  | true => exact ⟨rfl, fun set hset => by cases set <;> first | rfl | exact absurd rfl hset⟩

theorem addsName_write (rwenum : RWEnum) (derives : Derives) (name : String) :
    AddsName rwenum.writeSet name derives
      (if rwenum.differentEnums then { derives with writeEnums := name :: derives.names rwenum.writeSet }
        else { derives with enums := name :: derives.names rwenum.writeSet }) := by
  unfold RWEnum.writeSet
  cases rwenum.differentEnums with
  | false => exact ⟨rfl, fun set hset => by cases set <;> first | rfl | exact absurd rfl hset⟩
  | true => exact ⟨rfl, fun set hset => by cases set <;> first | rfl | exact absurd rfl hset⟩

theorem mem_names_readers {ty : String} :
    ty ∈ derives.names .readers ↔ (derives.readers.lookup ty).isSome = true := by
  rw [List.lookup_isSome_iff, Derives.names, List.mem_map]
  exact exists_congr fun entry => and_congr_right fun _ => by rw [beq_iff_eq, eq_comm]

theorem mem_names_writers {ty : String} :
    ty ∈ derives.names .writers ↔ (derives.writers.lookup ty).isSome = true := by
  rw [List.lookup_isSome_iff, Derives.names, List.mem_map]
  exact exists_congr fun entry => and_congr_right fun _ => by rw [beq_iff_eq, eq_comm]

theorem addsName_readers (ty : String) (base : EnumPath) (derives : Derives) :
    AddsName .readers ty derives { derives with readers := (ty, base) :: derives.readers } :=
  ⟨rfl, fun set hset => by cases set <;> first | rfl | exact absurd rfl hset⟩

theorem addsName_writers (ty : String) (base : EnumPath) (derives : Derives) :
    AddsName .writers ty derives { derives with writers := (ty, base) :: derives.writers } :=
  ⟨rfl, fun set hset => by cases set <;> first | rfl | exact absurd rfl hset⟩

/-- The proxy of a reader. -/
theorem readerTy_extends (rwenum : RWEnum) (width : Nat) (ty valueTy : String) (derives : Derives) :
    Extends derives ((readerTy rwenum width ty valueTy derives).1.typeItems ty derives)
      (readerTy rwenum width ty valueTy derives).2 := by
  have hown : Extends derives ((readerProxy width valueTy).typeItems ty derives) derives := by
    unfold readerProxy
    split
    · exact .own rfl
    · exact .own rfl
  unfold readerTy
  cases hread : rwenum.readEnum with
  | none => exact hown
  | some ev =>
      cases ev with
      | new values => exact hown
      | derived values base =>
          simp only
          cases hfirst : derives.readers.lookup ty with
          | some first =>
              have hseen : ty ∈ derives.names .readers := mem_names_readers.mpr (by rw [hfirst]; rfl)
              simp only [ReaderTy.typeItems, if_pos hseen]
              exact .refl derives
          | none =>
              have hnew : ty ∉ derives.names .readers := by simp [mem_names_readers, hfirst]
              simp only [ReaderTy.typeItems, if_neg hnew]
              exact .adds (addsName_readers ty base derives) fun set hset =>
                ⟨(Option.some.inj hset).symm, hnew⟩

/-- The proxy of a writer. -/
theorem writerTy_extends (rwenum : RWEnum) (width : Nat) (mwv : ModifiedWriteValues)
    (safety : Safety) (ty valueTy : String) (derives : Derives) :
    Extends derives ((writerTy rwenum width mwv safety ty valueTy derives).1.typeItems ty derives)
      (writerTy rwenum width mwv safety ty valueTy derives).2 := by
  have hown : Extends derives
      ((WriterTy.own (writerProxy width mwv valueTy safety)).typeItems ty derives) derives := .own rfl
  unfold writerTy
  cases hwrite : rwenum.writeEnum with
  | none => exact hown
  | some ev =>
      cases ev with
      | new values => exact hown
      | derived values base =>
          simp only
          cases hfirst : derives.writers.lookup ty with
          | some first =>
              have hseen : ty ∈ derives.names .writers := mem_names_writers.mpr (by rw [hfirst]; rfl)
              simp only [WriterTy.typeItems, if_pos hseen]
              exact .refl derives
          | none =>
              have hnew : ty ∉ derives.names .writers := by simp [mem_names_writers, hfirst]
              simp only [WriterTy.typeItems, if_neg hnew]
              exact .adds (addsName_writers ty base derives) fun set hset =>
                ⟨(Option.some.inj hset).symm, hnew⟩

theorem ReaderTy.typeItems_congr (proxy : ReaderTy) (ty : String)
    (h : derives'.names .readers = derives.names .readers) :
    proxy.typeItems ty derives' = proxy.typeItems ty derives := by
  cases proxy <;> simp only [ReaderTy.typeItems, h]

theorem WriterTy.typeItems_congr (proxy : WriterTy) (ty : String)
    (h : derives'.names .writers = derives.names .writers) :
    proxy.typeItems ty derives' = proxy.typeItems ty derives := by
  cases proxy <;> simp only [WriterTy.typeItems, h]

theorem readerTy_writers (rwenum : RWEnum) (width : Nat) (ty valueTy : String) (derives : Derives) :
    (readerTy rwenum width ty valueTy derives).2.names .writers = derives.names .writers := by
  unfold readerTy
  cases rwenum.readEnum with
  | none => rfl
  | some ev =>
      cases ev with
      | new values => rfl
      | derived values base => cases derives.readers.lookup ty <;> rfl

/-- A proxy behind the enumeration it is for. -/
theorem extends_readerTy {rwenum : RWEnum} {width : Nat} {ty valueTy : String} {derives used : Derives}
    {items : List TypeItem} (h : Extends derives items used)
    (hreaders : used.names .readers = derives.names .readers) :
    Extends derives (items ++ (readerTy rwenum width ty valueTy used).1.typeItems ty derives)
      (readerTy rwenum width ty valueTy used).2 := by
  rw [← ReaderTy.typeItems_congr _ _ hreaders]
  exact h.append (readerTy_extends rwenum width ty valueTy used)

theorem extends_writerTy {rwenum : RWEnum} {width : Nat} {mwv : ModifiedWriteValues}
    {safety : Safety} {ty valueTy : String} {derives used : Derives} {items : List TypeItem}
    (h : Extends derives items used) (hwriters : used.names .writers = derives.names .writers) :
    Extends derives (items ++ (writerTy rwenum width mwv safety ty valueTy used).1.typeItems ty derives)
      (writerTy rwenum width mwv safety ty valueTy used).2 := by
  rw [← WriterTy.typeItems_congr _ _ hwriters]
  exact h.append (writerTy_extends rwenum width mwv safety ty valueTy used)

/-- The types that are not those of some module. -/
def isPrimitive (ty : String) : Bool := ty ∈ ["bool", "u8", "u16", "u32", "u64"]

theorem RustTy.isPrimitive (ty : RustTy) : Svd2Rust.isPrimitive ty.text = true := by
  cases ty <;> decide

/-- What the items of a reader are good for. -/
structure ReaderItems (rwenum : RWEnum) (derives : Derives) (reader : ReaderCode)
    (derives' : Derives) : Prop where
  grows : Extends derives (reader.typeItems rwenum derives) derives'
  writers : derives'.names .writers = derives.names .writers
  value : rwenum.readEnum.isSome = true → reader.valueTy ∈ derives'.names rwenum.readSet
  ty : reader.ty ∈ derives'.names .readers ∨
    reader.ty ∈ (reader.typeItems rwenum derives).map (·.name)
  takes : ∀ valueTy, reader.proxy = .bitReader valueTy ∨ reader.proxy = .fieldReader valueTy →
    isPrimitive valueTy = true ∨ valueTy ∈ (reader.typeItems rwenum derives).map (·.name)

theorem readerTy_derived {values : EnumeratedValues} {base : EnumPath}
    (h : rwenum.readEnum = some (.derived values base)) (width : Nat) (ty valueTy : String)
    (derives : Derives) :
    (∃ first, (readerTy rwenum width ty valueTy derives).1 = .reexport first) ∧
      ty ∈ (readerTy rwenum width ty valueTy derives).2.names .readers := by
  unfold readerTy
  simp only [h]
  cases hfirst : derives.readers.lookup ty with
  | some first => exact ⟨⟨_, rfl⟩, mem_names_readers.mpr (by rw [hfirst]; rfl)⟩
  | none => exact ⟨⟨_, rfl⟩, List.mem_cons_self⟩

theorem readerProxy_typeItems (width : Nat) (ty valueTy : String) (derives : Derives) :
    (readerProxy width valueTy).typeItems ty derives = [.alias ty valueTy] := by
  unfold readerProxy
  split <;> rfl

theorem readerProxy_takes {width : Nat} {valueTy valueTy' : String}
    (h : readerProxy width valueTy = .bitReader valueTy' ∨
      readerProxy width valueTy = .fieldReader valueTy') : valueTy' = valueTy := by
  unfold readerProxy at h
  split at h <;> simpa [eq_comm] using h

theorem readerTy_eq_proxy (h : ∀ values base, rwenum.readEnum ≠ some (.derived values base)) (width : Nat)
    (ty valueTy : String) (derives : Derives) :
    readerTy rwenum width ty valueTy derives = (readerProxy width valueTy, derives) := by
  unfold readerTy
  cases hread : rwenum.readEnum with
  | none => rfl
  | some ev =>
      cases ev with
      | new values => rfl
      | derived values base => exact absurd hread (h values base)

theorem readSet_ne (rwenum : RWEnum) :
    DeriveSet.readers ≠ rwenum.readSet ∧ DeriveSet.writers ≠ rwenum.readSet := by
  unfold RWEnum.readSet
  cases rwenum.differentEnums <;> decide

section Reader

variable {reader : ReaderCode} {width : Nat} {used : Derives}

/-- A reader without an enumeration. -/
theorem ReaderItems.raw (hread : rwenum.readEnum = none)
    (henum : reader.enumReader = none) (hreexport : reader.valueReexport = none)
    (hprimitive : isPrimitive reader.valueTy = true)
    (hproxy : reader.proxy = (readerTy rwenum width reader.ty reader.valueTy derives).1) :
    ReaderItems rwenum derives reader
      (readerTy rwenum width reader.ty reader.valueTy derives).2 := by
  have hnot : ∀ values base, rwenum.readEnum ≠ some (.derived values base) := by simp [hread]
  have hown := readerTy_eq_proxy hnot width reader.ty reader.valueTy derives
  have hitems : reader.typeItems rwenum derives = [.alias reader.ty reader.valueTy] := by
    simp [ReaderCode.typeItems, henum, hreexport, hproxy, hown, readerProxy_typeItems]
  rw [hown] at hproxy ⊢
  exact {
    grows := hitems ▸ .own rfl
    writers := rfl
    value := by simp [hread]
    ty := .inr (by rw [hitems]; exact List.mem_cons_self)
    takes := by
      intro valueTy hvalue
      rw [hproxy] at hvalue
      exact .inl (readerProxy_takes hvalue ▸ hprimitive) }

/-- A reader with an enumeration of its own. -/
theorem ReaderItems.new {values : EnumeratedValues} {enum : EnumReader}
    (hread : rwenum.readEnum = some (.new values))
    (hadds : AddsName rwenum.readSet reader.valueTy derives used)
    (henum : reader.enumReader = some enum) (hreexport : reader.valueReexport = none)
    (hproxy : reader.proxy = (readerTy rwenum width reader.ty reader.valueTy used).1) :
    ReaderItems rwenum derives reader (readerTy rwenum width reader.ty reader.valueTy used).2 := by
  have hnot : ∀ values base, rwenum.readEnum ≠ some (.derived values base) := by simp [hread]
  have hown := readerTy_eq_proxy hnot width reader.ty reader.valueTy used
  have hitems : reader.typeItems rwenum derives =
      [.type reader.valueTy enum.pcs, .alias reader.ty reader.valueTy] := by
    simp [ReaderCode.typeItems, henum, hreexport, hproxy, hown, readerProxy_typeItems]
  rw [hown] at hproxy ⊢
  have hvalue : Extends derives [.type reader.valueTy enum.pcs] used :=
    .adds hadds fun set hset => by cases hset
  exact {
    grows := hitems ▸ hvalue.append (.own rfl)
    writers := hadds.other _ (readSet_ne rwenum).2
    value := fun _ => hadds.mem_iff.mpr (.inl ⟨rfl, rfl⟩)
    ty := .inr (by rw [hitems]; exact List.mem_cons_of_mem _ List.mem_cons_self)
    takes := by
      intro valueTy hvalue
      rw [hproxy] at hvalue
      rw [hitems, readerProxy_takes hvalue]
      exact .inr List.mem_cons_self }

/-- A reader with an enumeration of another field. -/
theorem ReaderItems.derived {values : EnumeratedValues} {base : EnumPath}
    (hread : rwenum.readEnum = some (.derived values base))
    (hadds : AddsName rwenum.readSet reader.valueTy derives used)
    (henum : reader.enumReader = none)
    (hreexport : reader.valueReexport =
      if reader.valueTy ∈ derives.names rwenum.readSet then none else some base)
    (hproxy : reader.proxy = (readerTy rwenum width reader.ty reader.valueTy used).1) :
    ReaderItems rwenum derives reader (readerTy rwenum width reader.ty reader.valueTy used).2 := by
  obtain ⟨⟨first, hfirst⟩, hty⟩ := readerTy_derived hread width reader.ty reader.valueTy used
  have hgrows := readerTy_extends rwenum width reader.ty reader.valueTy used
  have hvalue : Extends derives
      (reader.valueReexport.map fun base => .reexport rwenum.readSet base reader.valueTy).toList
      used := by
    rw [hreexport]
    by_cases hseen : reader.valueTy ∈ derives.names rwenum.readSet
    · rw [if_pos hseen]
      exact .seen hadds hseen
    · rw [if_neg hseen]
      exact .adds hadds fun set hset => ⟨(Option.some.inj hset).symm, hseen⟩
  exact {
    grows := by
      rw [ReaderCode.typeItems, henum, hproxy]
      exact extends_readerTy hvalue (hadds.other _ (readSet_ne rwenum).1)
    writers := (readerTy_writers _ _ _ _ _).trans (hadds.other _ (readSet_ne rwenum).2)
    value := fun _ => hgrows.keeps _ _ (hadds.mem_iff.mpr (.inl ⟨rfl, rfl⟩))
    ty := .inl hty
    takes := by
      intro valueTy hvalue
      rw [hproxy, hfirst] at hvalue
      simp at hvalue }

end Reader

/-- The types of a reader. -/
theorem readerCode_items {fpath : FieldPath} {nameSnakeCase : String} {field : Field} {mask : Nat}
    {fty : RustTy} {useCast useMask : Bool} {reader : ReaderCode}
    (h : readerCode crates config fpath nameSnakeCase field rwenum mask fty useCast useMask derives =
      .ok (reader, derives')) : ReaderItems rwenum derives reader derives' := by
  obtain ⟨enumReader, accessors, henum, -, h⟩ := readerCode_ok h
  obtain ⟨rfl, rfl⟩ := Prod.mk.inj h
  simp only [seen_read]
  unfold readEnumCode at henum
  cases hread : rwenum.readEnum with
  | none =>
      rw [hread] at henum
      obtain rfl := gen_pure_ok.mp henum
      exact .raw hread rfl rfl fty.isPrimitive rfl
  | some ev =>
      cases ev with
      | new values =>
          rw [hread] at henum
          obtain ⟨enum, -, henum⟩ := gen_bind_ok.mp henum
          obtain rfl := gen_pure_ok.mp henum
          exact .new hread (addsName_read rwenum derives _) rfl rfl rfl
      | derived values base =>
          rw [hread] at henum
          obtain rfl := gen_pure_ok.mp henum
          exact .derived hread (addsName_read rwenum derives _) rfl rfl rfl

/-- What the items of a writer are good for. -/
structure WriterItems (rwenum : RWEnum) (derives : Derives) (writer : WriterCode)
    (derives' : Derives) : Prop where
  grows : Extends derives (writer.typeItems rwenum derives) derives'
  ty : writer.ty ∈ derives'.names .writers ∨
    writer.ty ∈ (writer.typeItems rwenum derives).map (·.name)
  takes : ∀ proxy, writer.proxy = .own proxy →
    isPrimitive proxy.valueTy = true ∨ proxy.valueTy ∈ derives'.names rwenum.writeSet

theorem writerTy_eq_proxy (h : ∀ values base, rwenum.writeEnum ≠ some (.derived values base))
    (width : Nat) (mwv : ModifiedWriteValues) (safety : Safety) (ty valueTy : String)
    (derives : Derives) :
    writerTy rwenum width mwv safety ty valueTy derives =
      (.own (writerProxy width mwv valueTy safety), derives) := by
  unfold writerTy
  cases hwrite : rwenum.writeEnum with
  | none => rfl
  | some ev =>
      cases ev with
      | new values => rfl
      | derived values base => exact absurd hwrite (h values base)

theorem writerTy_derived {values : EnumeratedValues} {base : EnumPath}
    (h : rwenum.writeEnum = some (.derived values base)) (width : Nat) (mwv : ModifiedWriteValues)
    (safety : Safety) (ty valueTy : String) (derives : Derives) :
    (∃ first, (writerTy rwenum width mwv safety ty valueTy derives).1 = .reexport first) ∧
      ty ∈ (writerTy rwenum width mwv safety ty valueTy derives).2.names .writers := by
  unfold writerTy
  simp only [h]
  cases hfirst : derives.writers.lookup ty with
  | some first => exact ⟨⟨_, rfl⟩, mem_names_writers.mpr (by rw [hfirst]; rfl)⟩
  | none => exact ⟨⟨_, rfl⟩, List.mem_cons_self⟩

theorem writerProxy_valueTy (width : Nat) (mwv : ModifiedWriteValues) (valueTy : String)
    (safety : Safety) : (writerProxy width mwv valueTy safety).valueTy = valueTy := by
  unfold writerProxy
  split
  · rfl
  · split <;> rfl

theorem writeSet_ne (rwenum : RWEnum) : DeriveSet.writers ≠ rwenum.writeSet := by
  unfold RWEnum.writeSet
  cases rwenum.differentEnums <;> decide

section Writer

variable {writer : WriterCode} {width : Nat} {mwv : ModifiedWriteValues} {safety : Safety}
  {used : Derives}

/-- A writer without an enumeration. -/
theorem WriterItems.raw (hwrite : rwenum.writeEnum = none) (hreexport : writer.valueReexport = none)
    (hprimitive : isPrimitive writer.valueTy = true)
    (hproxy : writer.proxy =
      (writerTy rwenum width mwv safety writer.ty writer.valueTy derives).1) :
    WriterItems rwenum derives writer
      (writerTy rwenum width mwv safety writer.ty writer.valueTy derives).2 := by
  have hnot : ∀ values base, rwenum.writeEnum ≠ some (.derived values base) := by simp [hwrite]
  have hown := writerTy_eq_proxy hnot width mwv safety writer.ty writer.valueTy derives
  have hitems : writer.typeItems rwenum derives = [.alias writer.ty writer.valueTy] := by
    simp [WriterCode.typeItems, RWEnum.ownsWriteEnum, hwrite, hreexport, hproxy, hown,
      WriterTy.typeItems, writerProxy_valueTy]
  rw [hown] at hproxy ⊢
  exact {
    grows := hitems ▸ .own rfl
    ty := .inr (by rw [hitems]; exact List.mem_cons_self)
    takes := by
      intro proxy hvalue
      rw [hproxy] at hvalue
      obtain rfl := WriterTy.own.inj hvalue
      exact .inl (by rw [writerProxy_valueTy]; exact hprimitive) }

/-- A writer with an enumeration that is not derived; the enum is its own, or that of the
reader. -/
theorem WriterItems.new {values : EnumeratedValues}
    (hwrite : rwenum.writeEnum = some (.new values))
    (hadds : AddsName rwenum.writeSet writer.valueTy derives used)
    (hshared : rwenum.generateWriteEnum = false → writer.valueTy ∈ derives.names rwenum.writeSet)
    (hreexport : writer.valueReexport = none)
    (hproxy : writer.proxy = (writerTy rwenum width mwv safety writer.ty writer.valueTy used).1) :
    WriterItems rwenum derives writer
      (writerTy rwenum width mwv safety writer.ty writer.valueTy used).2 := by
  have hnot : ∀ values base, rwenum.writeEnum ≠ some (.derived values base) := by simp [hwrite]
  have hown := writerTy_eq_proxy hnot width mwv safety writer.ty writer.valueTy used
  have hvalue : Extends derives (if rwenum.ownsWriteEnum then
      [.type writer.valueTy (writer.variants.map (·.pc))] else []) used := by
    cases hgenerate : rwenum.generateWriteEnum with
    | false =>
        simp only [RWEnum.ownsWriteEnum, hgenerate, Bool.false_and, Bool.false_eq_true, if_false]
        exact .seen hadds (hshared hgenerate)
    | true =>
        simp only [RWEnum.ownsWriteEnum, hgenerate, hwrite, Bool.and_self, if_true]
        exact .adds hadds fun set hset => by cases hset
  have halias : Extends used [.alias writer.ty writer.valueTy] used := .own rfl
  have hitems : writer.typeItems rwenum derives = (if rwenum.ownsWriteEnum then
      [.type writer.valueTy (writer.variants.map (·.pc))] else []) ++
        [.alias writer.ty writer.valueTy] := by
    simp [WriterCode.typeItems, hreexport, hproxy, hown, WriterTy.typeItems, writerProxy_valueTy]
  rw [hown] at hproxy ⊢
  exact {
    grows := hitems ▸ hvalue.append halias
    ty := .inr (by
      rw [hitems]
      exact List.mem_map_of_mem (List.mem_append_right _ List.mem_cons_self))
    takes := by
      intro proxy hvalue
      rw [hproxy] at hvalue
      obtain rfl := WriterTy.own.inj hvalue
      exact .inr (by rw [writerProxy_valueTy]; exact hadds.mem_iff.mpr (.inl ⟨rfl, rfl⟩)) }

/-- A writer with an enumeration of another field. -/
theorem WriterItems.derived {values : EnumeratedValues} {base : EnumPath}
    (hwrite : rwenum.writeEnum = some (.derived values base))
    (hadds : AddsName rwenum.writeSet writer.valueTy derives used)
    (hshared : rwenum.generateWriteEnum = false → writer.valueTy ∈ derives.names rwenum.writeSet)
    (hreexport : writer.valueReexport =
      if rwenum.generateWriteEnum && writer.valueTy ∉ derives.names rwenum.writeSet then some base
      else none)
    (hproxy : writer.proxy = (writerTy rwenum width mwv safety writer.ty writer.valueTy used).1) :
    WriterItems rwenum derives writer
      (writerTy rwenum width mwv safety writer.ty writer.valueTy used).2 := by
  obtain ⟨⟨first, hfirst⟩, hty⟩ :=
    writerTy_derived hwrite width mwv safety writer.ty writer.valueTy used
  have hvalue : Extends derives
      (writer.valueReexport.map fun base => .reexport rwenum.writeSet base writer.valueTy).toList
      used := by
    rw [hreexport]
    by_cases hseen : writer.valueTy ∈ derives.names rwenum.writeSet
    · simp only [hseen, not_true_eq_false, decide_false, Bool.and_false, Bool.false_eq_true, if_false]
      exact .seen hadds hseen
    · have hgenerate : rwenum.generateWriteEnum = true := by
        rw [← Bool.not_eq_false]
        exact fun hnot => hseen (hshared hnot)
      simp only [hgenerate, hseen, not_false_eq_true, decide_true, Bool.and_self, if_true]
      exact .adds hadds fun set hset => ⟨(Option.some.inj hset).symm, hseen⟩
  exact {
    grows := by
      have hnone : rwenum.ownsWriteEnum = false := by simp [RWEnum.ownsWriteEnum, hwrite]
      rw [WriterCode.typeItems, hnone, hproxy]
      exact extends_writerTy hvalue (hadds.other _ (writeSet_ne rwenum))
    ty := .inl hty
    takes := by
      intro proxy hvalue
      rw [hproxy, hfirst] at hvalue
      cases hvalue }

end Writer

/-- The types of a writer. -/
theorem writerCode_items {fpath : FieldPath} {nameSnakeCase : String} {field : Field}
    {fty : RustTy} {rmwv : Option ModifiedWriteValues} {writer : WriterCode}
    (h : writerCode crates config fpath nameSnakeCase field rwenum fty rmwv derives =
      .ok (writer, derives'))
    (hshared : rwenum.generateWriteEnum = false → rwenum.writeEnum.isSome = true →
      writer.valueTy ∈ derives.names rwenum.writeSet) :
    WriterItems rwenum derives writer derives' := by
  obtain ⟨variants, safety, accessors, -, -, h⟩ := writerCode_ok h
  obtain ⟨rfl, rfl⟩ := Prod.mk.inj h
  simp only [seen_write] at hshared ⊢
  cases hwrite : rwenum.writeEnum with
  | none => exact .raw hwrite rfl fty.isPrimitive rfl
  | some ev =>
      simp only [hwrite, Option.isSome_some, forall_const] at hshared
      cases ev with
      | new values => exact .new hwrite (addsName_write rwenum derives _) hshared rfl rfl
      | derived values base =>
          exact .derived hwrite (addsName_write rwenum derives _) hshared rfl rfl

/-- The type a reader reads. -/
theorem readerCode_valueTy {fpath : FieldPath} {nameSnakeCase : String} {field : Field} {mask : Nat}
    {fty : RustTy} {useCast useMask : Bool} {reader : ReaderCode}
    (h : readerCode crates config fpath nameSnakeCase field rwenum mask fty useCast useMask derives =
      .ok (reader, derives')) {ev : EV} (hread : rwenum.readEnum = some ev) :
    reader.valueTy = enumTypeName crates config (removeDim field.info.name) ev
      (readEnumKind rwenum) := by
  obtain ⟨enumReader, accessors, -, -, h⟩ := readerCode_ok h
  obtain ⟨rfl, -⟩ := Prod.mk.inj h
  simp only [hread, valueTyName]

theorem writerCode_valueTy {fpath : FieldPath} {nameSnakeCase : String} {field : Field}
    {fty : RustTy} {rmwv : Option ModifiedWriteValues} {writer : WriterCode}
    (h : writerCode crates config fpath nameSnakeCase field rwenum fty rmwv derives =
      .ok (writer, derives')) {ev : EV} (hwrite : rwenum.writeEnum = some ev) :
    writer.valueTy = enumTypeName crates config (removeDim field.info.name) ev
      (writeEnumKind rwenum) := by
  obtain ⟨variants, safety, accessors, -, -, h⟩ := writerCode_ok h
  obtain ⟨rfl, -⟩ := Prod.mk.inj h
  simp only [hwrite, valueTyName]

/-- An enum for writing is generated, unless the field has one for both. -/
theorem eq_common_of_shared (hgenerate : rwenum.generateWriteEnum = false)
    (hwrite : rwenum.writeEnum.isSome = true) : ∃ ev, rwenum = .readWriteCommon ev := by
  cases rwenum with
  | readWriteCommon ev => exact ⟨ev, rfl⟩
  | readWrite read write => cases read <;> cases write <;> simp_all [RWEnum.generateWriteEnum, RWEnum.writeEnum]
  | read read => cases read <;> simp_all [RWEnum.writeEnum]
  | write write => cases write <;> simp_all [RWEnum.generateWriteEnum, RWEnum.writeEnum]

/-- Such a field can be read. -/
theorem canRead_of_common {canRead canWrite : Bool} {ev : EV}
    {lookup : List (EnumeratedValues × Option EnumPath)} {fpath : FieldPath}
    (h : RWEnum.choose canRead canWrite lookup fpath = .ok (.readWriteCommon ev)) :
    canRead = true := by
  have hread := (choose_ok h).1
  cases canRead with
  | true => rfl
  | false => cases hread

/-- The variants of an enum, with the default that is settled. -/
theorem settleDefault_items (kept : List Variant) (hole : Option Variant) (full : Nat) :
    (settleDefault kept hole full).1 ++ (settleDefault kept hole full).2.toList =
      if kept.length = full then kept else kept ++ hole.toList := by
  unfold settleDefault
  by_cases hfull : kept.length = full
  · simp [hfull]
  · rw [if_neg hfull, if_neg hfull]
    split
    · exact List.append_nil _
    · rfl

/-- **One enum.**  The variants that are written are those that are read. -/
theorem written_pcs {evs : EnumeratedValues} {width : Nat} {enum : EnumReader}
    {variants : List Variant} {safety safety' : Safety}
    (hread : readEnum crates config evs width = .ok enum)
    (hwrite : writeVariants crates config evs width safety = .ok (variants, safety')) :
    ∀ v ∈ variants, v.pc ∈ enum.pcs := by
  obtain ⟨kept, hkept, hread⟩ := gen_bind_ok.mp hread
  obtain ⟨hole, hhole, hread⟩ := gen_bind_ok.mp hread
  obtain ⟨_, hnew, hread⟩ := gen_bind_ok.mp hread
  obtain rfl := newDefault_ok hnew
  obtain ⟨full, hfull, hread⟩ := gen_bind_ok.mp hread
  have hvariants : variants = if kept.length = full then kept else kept ++ hole.toList := by
    obtain ⟨kept', hkept', hwrite⟩ := gen_bind_ok.mp hwrite
    obtain rfl := Except.ok.inj (hkept'.symm.trans hkept)
    obtain ⟨hole', hhole', hwrite⟩ := gen_bind_ok.mp hwrite
    obtain ⟨_, hnew', hwrite⟩ := gen_bind_ok.mp hwrite
    obtain rfl := newDefault_ok hnew'
    obtain rfl := Except.ok.inj (hhole'.symm.trans hhole)
    obtain ⟨full', hfull', hwrite⟩ := gen_bind_ok.mp hwrite
    obtain rfl := Except.ok.inj (hfull'.symm.trans hfull)
    by_cases hsame : kept'.length = full'
    · rw [if_pos hsame] at hwrite ⊢
      exact ((Prod.mk.inj (gen_pure_ok.mp hwrite)).1).symm
    · rw [if_neg hsame] at hwrite ⊢
      cases hole' with
      | none =>
          obtain ⟨rfl, -⟩ := Prod.mk.inj (gen_pure_ok.mp hwrite)
          exact (List.append_nil _).symm
      | some v => exact ((Prod.mk.inj (gen_pure_ok.mp hwrite)).1).symm
  rw [← settleDefault_items] at hvariants
  simp only at hread
  split at hread
  · rename_i hempty
    simp only [Bool.and_eq_true, List.isEmpty_iff, Option.isNone_iff_eq_none] at hempty
    simp [hvariants, hempty.1, hempty.2]
  · obtain ⟨fallback, -, hread⟩ := gen_bind_ok.mp hread
    obtain rfl := gen_pure_ok.mp hread
    rw [hvariants]
    exact fun v hv => List.mem_map_of_mem hv

/-- The arms and the predicates are about variants of the enum. -/
theorem readEnum_pcs {evs : EnumeratedValues} {width : Nat} {items : List Variant}
    {method : VariantMethod} {predicates : List VariantPredicate}
    (h : readEnum crates config evs width = .ok (.enum items method predicates)) :
    (∀ arm ∈ method.arms, arm.2 ∈ items) ∧ (∀ v, method.fallback = .variant v → v ∈ items) ∧
      ∀ p ∈ predicates, ∃ v ∈ items, p.pc = v.pc := by
  obtain ⟨kept, -, h⟩ := gen_bind_ok.mp h
  obtain ⟨hole, -, h⟩ := gen_bind_ok.mp h
  obtain ⟨_, -, h⟩ := gen_bind_ok.mp h
  obtain ⟨full, -, h⟩ := gen_bind_ok.mp h
  simp only at h
  split at h
  · cases gen_pure_ok.mp h
  · obtain ⟨fallback, hfallback, h⟩ := gen_bind_ok.mp h
    have henum := gen_pure_ok.mp h
    injection henum with hitems hmethod hpredicates
    subst hitems hmethod hpredicates
    refine ⟨?_, ?_, ?_⟩
    · intro arm harm
      obtain ⟨v, hv, rfl⟩ := List.mem_map.mp harm
      exact List.mem_append_left _ hv
    · intro v hv
      obtain rfl : fallback = .variant v := hv
      unfold fallbackArm at hfallback
      split at hfallback
      · cases gen_pure_ok.mp hfallback
      · cases hdefault : (settleDefault kept _ full).2 with
        | none =>
            rw [hdefault] at hfallback
            obtain ⟨tyWidth, -, hfallback⟩ := gen_bind_ok.mp hfallback
            obtain ⟨representable, -, hfallback⟩ := gen_bind_ok.mp hfallback
            have heq := gen_pure_ok.mp hfallback
            split at heq <;> cases heq
        | some d =>
            rw [hdefault] at hfallback
            cases gen_pure_ok.mp hfallback
            exact List.mem_append_right _ (by simp)
    · intro p hp
      rcases List.mem_append.mp hp with hp | hp
      · obtain ⟨v, hv, rfl⟩ := List.mem_map.mp hp
        exact ⟨v, List.mem_append_left _ hv, rfl⟩
      · obtain ⟨v, hv, rfl⟩ := List.mem_map.mp hp
        exact ⟨v, List.mem_append_right _ hv, rfl⟩

end Field

end Svd2Rust
