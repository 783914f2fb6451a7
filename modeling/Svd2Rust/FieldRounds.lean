import Svd2Rust.FieldAccess

/-!
# The rounds of `register::fields`

What the loop of `fields` works out for one field on the way to its code: the field
after its derivation, its enumerations with their paths, and the enumerations picked
for reads and writes.  `fields_rounds` gives every field of a run its round.
-/

namespace Svd2Rust

open FallibleRuns

section Rounds

variable (crates : Crates) (config : Config) (rmwv : Option ModifiedWriteValues)
  (access : Access) (properties : RegisterProperties) (rpath : RegisterPath) (index : Index)

/-- The round that turns `field` into the code `fc`. -/
structure IsRound (field : Field) (fc : FieldCode) (fdpath : Option FieldPath)
    (lookup : List (EnumeratedValues × Option EnumPath)) (rwenum : RWEnum) : Prop where
  resolved : resolveField crates field rpath index = .ok (fc.field, fdpath)
  looked_up : lookupResults crates fc.field.info fdpath (rpath.newField fc.field.info.name) index =
    .ok lookup
  chosen : RWEnum.choose (fieldCanRead access fc.field.info) (fieldCanWrite access fc.field.info)
    lookup (rpath.newField fc.field.info.name) = .ok rwenum
  read : ∃ mask fty useCast useMask derives derives',
    readerCodeIf crates config (fieldCanRead access fc.field.info)
      (rpath.newField fc.field.info.name) (fieldAccessorText crates config (accessorName fc.field))
      fc.field rwenum mask fty useCast useMask derives = .ok (fc.reader, derives')
  written : ∃ fty derives derives',
    writerCodeIf crates config (fieldCanWrite access fc.field.info)
      (rpath.newField fc.field.info.name) (fieldAccessorText crates config (accessorName fc.field))
      fc.field rwenum fty rmwv derives = .ok (fc.writer, derives')

/-- A field goes through some round. -/
def HasRound (field : Field) (fc : FieldCode) : Prop :=
  ∃ fdpath lookup rwenum, IsRound crates config rmwv access rpath index field fc fdpath lookup rwenum

variable {crates config rmwv access properties rpath index}

theorem fieldCode_round {derives derives' : Derives} {field : Field} {fc : FieldCode}
    (h : fieldCode crates config rmwv access properties rpath index derives field =
      .ok (fc, derives')) : HasRound crates config rmwv access rpath index field fc := by
  obtain ⟨⟨resolved, fdpath⟩, hresolved, h⟩ := gen_bind_ok.mp h
  simp only at h
  split at h
  · simp at h
  obtain ⟨nameSnakeCase, hname, h⟩ := gen_bind_ok.mp h
  obtain rfl := (newIdent_ok.mp hname).2
  obtain ⟨mask, -, h⟩ := gen_bind_ok.mp h
  obtain ⟨reset, -, h⟩ := gen_bind_ok.mp h
  obtain ⟨fty, -, h⟩ := gen_bind_ok.mp h
  obtain ⟨⟨useCast, useMask⟩, -, h⟩ := gen_bind_ok.mp h
  obtain ⟨lookup, hlookup, h⟩ := gen_bind_ok.mp h
  obtain ⟨rwenum, hchosen, h⟩ := gen_bind_ok.mp h
  obtain ⟨⟨reader, used⟩, hreader, h⟩ := gen_bind_ok.mp h
  obtain ⟨⟨writer, used'⟩, hwriter, h⟩ := gen_bind_ok.mp h
  obtain ⟨rfl, -⟩ := Prod.mk.inj (gen_pure_ok.mp h)
  exact ⟨fdpath, lookup, rwenum, hresolved, hlookup, hchosen,
    ⟨mask, fty, useCast, useMask, derives, used, hreader⟩, ⟨fty, used, used', hwriter⟩⟩

/-- **Rounds.**  The fields of a run, in the order of their offsets, each have a round. -/
theorem fields_rounds {fieldList : List Field} {code : FieldsCode}
    (h : fields crates config fieldList rmwv access properties rpath index = .ok code) :
    List.Forall₂ (HasRound crates config rmwv access rpath index)
      (fieldList.insertionSort fun a b => a.info.bitRange.offset ≤ b.info.bitRange.offset)
      code.fields := by
  obtain ⟨⟨last, derives⟩, hrun, h⟩ := gen_bind_ok.mp h
  obtain rfl := gen_pure_ok.mp h
  -- the invariant: the fields read so far have had their rounds
  exact @invariant_of_safeRun _ _ _ _ (fun _ _ => True)
    (fun before s => List.Forall₂ (HasRound crates config rmwv access rpath index) before s.1.fields)
    (by
      intro before s field t hinv _ hround
      obtain ⟨⟨fc, used⟩, hfc, hround⟩ := gen_bind_ok.mp hround
      obtain rfl := gen_pure_ok.mp hround
      exact List.rel_append hinv (.cons (fieldCode_round hfc) .nil))
    [] _ _ _ .nil (safeRun_true _ _) hrun

/-- Every field has a round, and every code comes from one. -/
theorem exists_round {fieldList : List Field} {code : FieldsCode}
    (h : fields crates config fieldList rmwv access properties rpath index = .ok code) :
    (∀ field ∈ fieldList, ∃ fc ∈ code.fields,
      HasRound crates config rmwv access rpath index field fc) ∧
    ∀ fc ∈ code.fields, ∃ field ∈ fieldList,
      HasRound crates config rmwv access rpath index field fc := by
  have hrounds := fields_rounds h
  constructor
  · intro field hfield
    have hflip := exists_of_forall₂_mem hrounds.flip ((List.mem_insertionSort _).mpr hfield)
    exact hflip
  · intro fc hfc
    obtain ⟨field, hfield, hround⟩ := exists_of_forall₂_mem hrounds hfc
    exact ⟨field, (List.mem_insertionSort _).mp hfield, hround⟩

end Rounds

end Svd2Rust
