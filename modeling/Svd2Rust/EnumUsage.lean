import Svd2Rust.AsciiCrates
import Svd2Rust.FieldRounds

/-!
# The usage of enumerations

An enumeration is for reads, for writes or for both.  `lookup_filter` takes the first
one whose usage is the direction itself and falls back to the first one in the list,
whatever its usage.  `enumUsage_respected_iff` says for which lists that goes well: a
list has to begin with an enumeration for the direction, or have one whose usage is
just that direction.
-/

namespace Svd2Rust

section Usage

/-- The enumeration is not for the direction whose opposite is `wrong`. -/
def EnumeratedValues.NotFor (wrong : Usage) (evs : EnumeratedValues) : Prop :=
  evs.usage = some wrong

/-- What the enumeration picked for a direction has to be: one for the direction if
there is one, none if there is none. -/
structure PickRespects (wrong : Usage) (lookup : List (EnumeratedValues × Option EnumPath))
    (picked : Option EnumeratedValues) : Prop where
  applies : ∀ evs ∈ picked, ¬ evs.NotFor wrong
  raw_iff : picked = none ↔ ∀ e ∈ lookup, e.1.NotFor wrong

/-- The enumerations of a field go by their usage, in the directions it has. -/
structure UsageRespected (canRead canWrite : Bool)
    (lookup : List (EnumeratedValues × Option EnumPath)) (rwenum : RWEnum) : Prop where
  reads : canRead = true → PickRespects .write lookup (rwenum.readEnum.map EV.values)
  writes : canWrite = true → PickRespects .read lookup (rwenum.writeEnum.map EV.values)

/-- The list begins with an enumeration for the direction, or one is just for it. -/
def FirstApplies (usage wrong : Usage) (lookup : List (EnumeratedValues × Option EnumPath)) : Prop :=
  ∀ first ∈ lookup.head?, first.1.usage = some wrong → ∃ e ∈ lookup, e.1.usage = some usage

theorem ofLookup_values (e : EnumeratedValues × Option EnumPath) : (EV.ofLookup e).values = e.1 := by
  obtain ⟨evs, path⟩ := e
  cases path with
  | none => rfl
  | some base => rfl

theorem lookupFilter_of_found {lookup : List (EnumeratedValues × Option EnumPath)} {usage : Usage}
    (h : ∃ e ∈ lookup, e.1.usage = some usage) :
    ∃ e ∈ lookup, e.1.usage = some usage ∧ lookupFilter lookup usage = some e := by
  cases hfind : lookup.find? (fun e => e.1.usage = some usage) with
  | none =>
      obtain ⟨e, he, husage⟩ := h
      have hnot := List.find?_eq_none.mp hfind e he
      simp [husage] at hnot
  | some e =>
      refine ⟨e, List.mem_of_find?_eq_some hfind, ?_, ?_⟩
      · simpa using List.find?_some hfind
      · rw [lookupFilter, hfind, Option.some_or]

theorem lookupFilter_of_not_found {lookup : List (EnumeratedValues × Option EnumPath)}
    {usage : Usage} (h : ¬ ∃ e ∈ lookup, e.1.usage = some usage) :
    lookupFilter lookup usage = lookup.head? := by
  have hfind : lookup.find? (fun e => e.1.usage = some usage) = none := by
    refine List.find?_eq_none.mpr fun e he => ?_
    have hne : e.1.usage ≠ some usage := fun husage => h ⟨e, he, husage⟩
    simpa using hne
  rw [lookupFilter, hfind, Option.none_or]

/-- **One direction.**  The pick is right exactly when the list begins with an
enumeration for the direction or has one just for it. -/
theorem lookupFilter_respects_iff {usage wrong : Usage} (hne : usage ≠ wrong)
    (lookup : List (EnumeratedValues × Option EnumPath)) :
    PickRespects wrong lookup ((lookupFilter lookup usage).map Prod.fst) ↔
      FirstApplies usage wrong lookup := by
  by_cases hfound : ∃ e ∈ lookup, e.1.usage = some usage
  · refine iff_of_true ?_ fun _ _ _ => hfound
    obtain ⟨e, he, husage, hpick⟩ := lookupFilter_of_found hfound
    have happlies : ¬ e.1.NotFor wrong := fun hwrong =>
      hne (Option.some.inj (husage.symm.trans hwrong))
    rw [hpick]
    constructor
    · intro evs h
      cases h
      exact happlies
    · exact iff_of_false nofun fun hall => happlies (hall e he)
  · rw [lookupFilter_of_not_found hfound]
    cases lookup with
    | nil => exact iff_of_true ⟨nofun, iff_of_true rfl nofun⟩ nofun
    | cons first rest =>
        constructor
        · intro hrespects _ h hwrong
          cases h
          exact absurd hwrong (hrespects.applies first.1 rfl)
        · intro hfirst
          have happlies : ¬ first.1.NotFor wrong := fun hwrong => hfound (hfirst first rfl hwrong)
          constructor
          · intro evs h
            cases h
            exact happlies
          · exact iff_of_false nofun fun hall => happlies (hall first List.mem_cons_self)

/-- What the `match` on the access and the picks makes of them: the picks, in the
directions the field has. -/
theorem choose_ok {canRead canWrite : Bool} {lookup : List (EnumeratedValues × Option EnumPath)}
    {fpath : FieldPath} {rwenum : RWEnum}
    (h : RWEnum.choose canRead canWrite lookup fpath = .ok rwenum) :
    rwenum.readEnum.map EV.values =
        (if canRead then (lookupFilter lookup .read).map Prod.fst else none) ∧
      rwenum.writeEnum.map EV.values =
        (if canWrite then (lookupFilter lookup .write).map Prod.fst else none) := by
  unfold RWEnum.choose at h
  cases canRead <;> cases canWrite <;> cases hread : lookupFilter lookup .read <;>
    cases hwrite : lookupFilter lookup .write <;> simp only [hread, hwrite] at h
  case true.true.some.some e1 e2 =>
    by_cases hsame : e1.1 = e2.1
    · rw [if_pos hsame] at h
      obtain rfl := gen_pure_ok.mp h
      simp [RWEnum.readEnum, RWEnum.writeEnum, ofLookup_values, hsame]
    · rw [if_neg hsame] at h
      obtain rfl := gen_pure_ok.mp h
      simp [RWEnum.readEnum, RWEnum.writeEnum, ofLookup_values]
  all_goals
    first
    | exact (bail_ok.mp h).elim
    | (obtain rfl := gen_pure_ok.mp h
       simp [RWEnum.readEnum, RWEnum.writeEnum, ofLookup_values])

/-- The condition on the list of a field, in the directions the field has. -/
def UsagesOrdered (canRead canWrite : Bool) (lookup : List (EnumeratedValues × Option EnumPath)) :
    Prop :=
  (canRead = true → FirstApplies .read .write lookup) ∧
    (canWrite = true → FirstApplies .write .read lookup)

/-- **One field.**  In each direction the field has, the choice is one look-up in the list,
whose result is compared with the usage. -/
theorem choose_respects_iff {canRead canWrite : Bool}
    {lookup : List (EnumeratedValues × Option EnumPath)} {fpath : FieldPath} {rwenum : RWEnum}
    (h : RWEnum.choose canRead canWrite lookup fpath = .ok rwenum) :
    UsageRespected canRead canWrite lookup rwenum ↔ UsagesOrdered canRead canWrite lookup := by
  obtain ⟨hread, hwrite⟩ := choose_ok h
  have hreads : canRead = true → (PickRespects .write lookup (rwenum.readEnum.map EV.values) ↔
      FirstApplies .read .write lookup) := by
    intro hcan
    rw [hread, if_pos hcan]
    exact lookupFilter_respects_iff (by decide) lookup
  have hwrites : canWrite = true → (PickRespects .read lookup (rwenum.writeEnum.map EV.values) ↔
      FirstApplies .write .read lookup) := by
    intro hcan
    rw [hwrite, if_pos hcan]
    exact lookupFilter_respects_iff (by decide) lookup
  constructor
  · intro hrespected
    exact ⟨fun hcan => (hreads hcan).mp (hrespected.reads hcan),
      fun hcan => (hwrites hcan).mp (hrespected.writes hcan)⟩
  · intro hordered
    exact ⟨fun hcan => (hreads hcan).mpr (hordered.1 hcan),
      fun hcan => (hwrites hcan).mpr (hordered.2 hcan)⟩

end Usage

/-- **Usage of enumerations.**  Every field of a run of `fields` has a round, and the
enumerations picked in it go by their usage exactly when in each direction the field has the
list begins with an enumeration for the direction or has one just for it.  `lookup_filter`
takes the first enumeration of the direction or the first without one, and falls back on the
head of the list if there is neither. -/
theorem enumUsage_respected_iff {crates : Crates} {config : Config} {fieldList : List Field}
    {rmwv : Option ModifiedWriteValues} {access : Access} {properties : RegisterProperties}
    {rpath : RegisterPath} {index : Index} {code : FieldsCode}
    (h : fields crates config fieldList rmwv access properties rpath index = .ok code) :
    ∀ field ∈ fieldList, ∃ fc ∈ code.fields, ∃ fdpath lookup rwenum,
      IsRound crates config rmwv access rpath index field fc fdpath lookup rwenum ∧
      (UsageRespected (fieldCanRead access fc.field.info) (fieldCanWrite access fc.field.info) lookup
          rwenum ↔
        UsagesOrdered (fieldCanRead access fc.field.info) (fieldCanWrite access fc.field.info)
          lookup) := by
  intro field hfield
  obtain ⟨fc, hfc, fdpath, lookup, rwenum, hround⟩ := (exists_round h).1 field hfield
  exact ⟨fc, hfc, fdpath, lookup, rwenum, hround, choose_respects_iff hround.chosen⟩

/-- The enumeration of the usage `usage` with the one value `ON`. -/
def switchEnum (usage : Option Usage) : EnumeratedValues :=
  ⟨some "Switch", usage, none, [⟨"ON", none, some 1, false⟩]⟩

/-- A one-bit field with the enumerations of these usages. -/
def switchField (usages : List (Option Usage)) : Field :=
  .single { bitField "EN" 0 1 with enumeratedValues := usages.map switchEnum }

/-- The rendering of the field in a control register of 32 bits. -/
def switchFields (usages : List (Option Usage)) : Gen FieldsCode :=
  fields asciiCrates defaultConfig [switchField usages] none .readWrite ⟨some 32, none, none, none, none⟩
    ((BlockPath.new "TIM").newRegister "CR1") ⟨fun _ => none, fun _ => none, fun _ => none⟩

/-- Write, then read: both are found. -/
theorem enumUsage_respected_bothUsages : ∃ code, switchFields [some .write, some .read] = .ok code ∧
    ∃ fc ∈ code.fields, ∃ fdpath lookup rwenum,
      IsRound asciiCrates defaultConfig none .readWrite ((BlockPath.new "TIM").newRegister "CR1")
        ⟨fun _ => none, fun _ => none, fun _ => none⟩ (switchField [some .write, some .read]) fc
        fdpath lookup rwenum ∧
      UsageRespected true true lookup rwenum := by
  have hrun : switchFields [some .write, some .read] = .ok _ := rfl
  obtain ⟨fc, hfc, fdpath, lookup, rwenum, hround, hiff⟩ :=
    enumUsage_respected_iff hrun _ List.mem_cons_self
  obtain rfl := List.mem_singleton.mp hfc
  obtain rfl := Except.ok.inj hround.looked_up
  refine ⟨_, hrun, _, hfc, _, _, _, hround, hiff.mpr ⟨fun _ => ?_, fun _ => ?_⟩⟩
  · intro _ _ _
    exact ⟨_, List.mem_cons_of_mem _ List.mem_cons_self, rfl⟩
  · intro _ _ _
    exact ⟨_, List.mem_cons_self, rfl⟩

/-- The only enumeration is for writes, and reads are decoded by it. -/
theorem not_enumUsage_respected_writeOnly : ∃ code, switchFields [some .write] = .ok code ∧
    ∃ fc ∈ code.fields, ∃ fdpath lookup rwenum,
      IsRound asciiCrates defaultConfig none .readWrite ((BlockPath.new "TIM").newRegister "CR1")
        ⟨fun _ => none, fun _ => none, fun _ => none⟩ (switchField [some .write]) fc
        fdpath lookup rwenum ∧
      rwenum.readEnum = some (.new (switchEnum (some .write))) ∧
      ¬ UsageRespected true true lookup rwenum := by
  have hrun : switchFields [some .write] = .ok _ := rfl
  obtain ⟨fc, hfc, fdpath, lookup, rwenum, hround⟩ :=
    (exists_round hrun).1 _ List.mem_cons_self
  obtain rfl := List.mem_singleton.mp hfc
  obtain rfl : none = fdpath := (Prod.mk.inj (Except.ok.inj hround.resolved)).2
  obtain rfl := Except.ok.inj hround.looked_up
  obtain rfl := Except.ok.inj hround.chosen
  refine ⟨_, hrun, _, hfc, _, _, _, hround, rfl, fun hrespected => ?_⟩
  exact (hrespected.reads rfl).applies _ rfl rfl

end Svd2Rust
