import Svd2Rust.ClusterRendering

/-!
# The access of a register without one of its own

`access_of` takes the access of a register from its fields by four tests on the
whole list.  On a list with a field in it the tests compute the join: the register
can be read, or written, exactly if a field needs it.  A list without fields passes
the first test, so it does not get the access of a register without a list.
-/

namespace Svd2Rust

/-- The field can be read, or says nothing about its access. -/
def FieldInfo.needsReader (info : FieldInfo) : Bool := info.access.all Access.canRead

/-- The field can be written, or says nothing about its access. -/
def FieldInfo.needsWriter (info : FieldInfo) : Bool := info.access.all Access.canWrite

/-- The access allows what the fields need and no more; without fields it allows
everything. -/
structure AccessCovers (access : Access) (fields : Option (List Field)) : Prop where
  readable : ∀ fs, fields = some fs → fs ≠ [] →
    (access.canRead = true ↔ ∃ f ∈ fs, f.info.needsReader = true)
  writable : ∀ fs, fields = some fs → fs ≠ [] →
    (access.canWrite = true ↔ ∃ f ∈ fs, f.info.needsWriter = true)
  fieldless : fields = none ∨ fields = some [] → access = .readWrite

/-- Only a field of one of the two write accesses needs no reader. -/
theorem needsReader_false_iff {info : FieldInfo} :
    info.needsReader = false ↔ info.access = some .writeOnly ∨ info.access = some .writeOnce := by
  unfold FieldInfo.needsReader
  rcases info.access with _ | access
  · simp
  · cases access <;> simp [Access.canRead]

/-- Only a read-only field needs no writer. -/
theorem needsWriter_false_iff {info : FieldInfo} :
    info.needsWriter = false ↔ info.access = some .readOnly := by
  unfold FieldInfo.needsWriter
  rcases info.access with _ | access
  · simp
  · cases access <;> simp [Access.canWrite]

section Inferred

variable {properties : RegisterProperties} (hnone : properties.access = none)

include hnone

theorem accessOf_none : accessOf properties none = .readWrite := by
  simp [accessOf, hnone]

theorem accessOf_nil : accessOf properties (some []) = .readOnly := by
  simp [accessOf, hnone]

/-- The access of the fields cannot be read exactly if no field needs a reader. -/
theorem accessOf_canRead_false {fs : List Field} (hfs : fs ≠ []) :
    (accessOf properties (some fs)).canRead = false ↔
      ∀ f ∈ fs, f.info.needsReader = false := by
  obtain ⟨f, hf⟩ := List.exists_mem_of_ne_nil fs hfs
  simp only [accessOf, hnone, Option.getD_none, List.all_eq_true, decide_eq_true_eq,
    Bool.or_eq_true]
  split_ifs with hread honce hreadOnce hwrite
  · have hone := hread f hf
    refine iff_of_false (by decide) fun hall => ?_
    have hnot := needsReader_false_iff.mp (hall f hf)
    simp [hone] at hnot
  · exact iff_of_true rfl fun g hg => needsReader_false_iff.mpr (.inr (honce g hg))
  · have hone := hreadOnce f hf
    refine iff_of_false (by decide) fun hall => ?_
    have hnot := needsReader_false_iff.mp (hall f hf)
    simp [hone] at hnot
  · exact iff_of_true rfl fun g hg => needsReader_false_iff.mpr (hwrite g hg)
  · refine iff_of_false (by decide) fun hall => hwrite fun g hg => ?_
    exact needsReader_false_iff.mp (hall g hg)

/-- It cannot be written exactly if no field needs a writer. -/
theorem accessOf_canWrite_false {fs : List Field} (hfs : fs ≠ []) :
    (accessOf properties (some fs)).canWrite = false ↔
      ∀ f ∈ fs, f.info.needsWriter = false := by
  obtain ⟨f, hf⟩ := List.exists_mem_of_ne_nil fs hfs
  simp only [accessOf, hnone, Option.getD_none, List.all_eq_true, decide_eq_true_eq,
    Bool.or_eq_true]
  by_cases hread : ∀ g ∈ fs, g.info.access = some .readOnly
  · rw [if_pos hread]
    exact iff_of_true rfl fun g hg => needsWriter_false_iff.mpr (hread g hg)
  · rw [if_neg hread]
    refine iff_of_false ?_ fun hall => hread fun g hg => needsWriter_false_iff.mp (hall g hg)
    -- every later test ends in an access with a writer
    split_ifs <;> decide

/-- The access can be read exactly if a field needs a reader. -/
theorem accessOf_canRead {fs : List Field} (hfs : fs ≠ []) :
    (accessOf properties (some fs)).canRead = true ↔ ∃ f ∈ fs, f.info.needsReader = true := by
  have hiff := not_congr (accessOf_canRead_false hnone hfs)
  push Not at hiff
  simpa using hiff

/-- It can be written exactly if a field needs a writer. -/
theorem accessOf_canWrite {fs : List Field} (hfs : fs ≠ []) :
    (accessOf properties (some fs)).canWrite = true ↔ ∃ f ∈ fs, f.info.needsWriter = true := by
  have hiff := not_congr (accessOf_canWrite_false hnone hfs)
  push Not at hiff
  simpa using hiff

/-- A field in the list keeps the reader and the writer it asks for. -/
theorem accessOf_keeps_field {fs : List Field} {f : Field} (hf : f ∈ fs) :
    fieldCanRead (accessOf properties (some fs)) f.info = f.info.needsReader ∧
      fieldCanWrite (accessOf properties (some fs)) f.info = f.info.needsWriter := by
  have hfs : fs ≠ [] := List.ne_nil_of_mem hf
  constructor
  · cases hneeds : f.info.needsReader with
    | false =>
        rcases needsReader_false_iff.mp hneeds with h | h
        · simp [fieldCanRead, h]
        · simp [fieldCanRead, h]
    | true =>
        have hcan := (accessOf_canRead hnone hfs).mpr ⟨f, hf, hneeds⟩
        have hother : ¬ (f.info.access = some .writeOnly ∨ f.info.access = some .writeOnce) := by
          rw [← needsReader_false_iff, hneeds]
          decide
        push Not at hother
        simp [fieldCanRead, hcan, hother]
  · cases hneeds : f.info.needsWriter with
    | false => simp [fieldCanWrite, needsWriter_false_iff.mp hneeds]
    | true =>
        have hcan := (accessOf_canWrite hnone hfs).mpr ⟨f, hf, hneeds⟩
        have hother : f.info.access ≠ some .readOnly := by
          rw [ne_eq, ← needsWriter_false_iff, hneeds]
          decide
        simp [fieldCanWrite, hcan, hother]

/-- The inferred access covers the fields exactly if there is no empty list of them.  The four
tests ask whether all fields are of one kind of access, which an empty list passes; on a list
with a field they compute the join. -/
theorem accessOf_covers_iff (fields : Option (List Field)) :
    AccessCovers (accessOf properties fields) fields ↔ fields ≠ some [] := by
  constructor
  · intro hcovers heq
    obtain rfl := heq
    have haccess := hcovers.fieldless (.inr rfl)
    rw [accessOf_nil hnone] at haccess
    cases haccess
  · intro hne
    refine ⟨?_, ?_, ?_⟩
    · intro fs heq hfs
      obtain rfl := heq
      exact accessOf_canRead hnone hfs
    · intro fs heq hfs
      obtain rfl := heq
      exact accessOf_canWrite hnone hfs
    · intro hcase
      rcases hcase with rfl | rfl
      · exact accessOf_none hnone
      · exact absurd rfl hne

end Inferred

/-- Fields that can only be read and fields that can only be written, once or always. -/
def mixedFields : List Field :=
  [.single { bitField "BUSY" 0 1 with access := some .readOnly },
    .single { bitField "START" 1 1 with access := some .writeOnly },
    .single { bitField "LOCK" 2 1 with access := some .writeOnce }]

/-- None of them can be both read and written, the register can. -/
theorem accessOf_covers_mixedFields :
    accessOf (plainRegister "CTRL" 0 32).properties (some mixedFields) = .readWrite ∧
      AccessCovers (accessOf (plainRegister "CTRL" 0 32).properties (some mixedFields))
        (some mixedFields) :=
  ⟨rfl, (accessOf_covers_iff rfl _).mpr (by simp [mixedFields])⟩

/-- A register that lists no fields, `<fields></fields>`, between two without a list. -/
def fieldlessRegister : RegisterInfo := { plainRegister "DATA" 4 32 with fields := some [] }

/-- A register with an empty list of fields cannot be written, one without the list can. -/
theorem accessOf_fieldlessRegister :
    accessOf fieldlessRegister.properties fieldlessRegister.fields = .readOnly ∧
      accessOf fieldlessRegister.properties none = .readWrite ∧
      ¬ AccessCovers (accessOf fieldlessRegister.properties fieldlessRegister.fields)
        fieldlessRegister.fields := by
  refine ⟨rfl, rfl, fun hcovers => ?_⟩
  cases hcovers.fieldless (.inr rfl)

end Svd2Rust
