import Svd2Rust.AsciiCrates
import Svd2Rust.PeripheralRendering

/-!
# The fields of the `Peripherals` struct

`device::render` puts the field of an instance behind features it reads off the device
file, and piles the features of the elements of an array up; `peripheral::render` puts
the type of the instance behind the features of the peripheral it resolved.  The field
and the type are there for the same enabled features exactly when, for every instance,
both name the same features (`fieldsMatchAliases_iff`).
-/

namespace Svd2Rust

open CfgAttributes

/-- The types of the instances. -/
def PeripheralOutput.aliases (o : PeripheralOutput) : List (GatedItem PeripheralItem) :=
  o.items.filter (·.item.isAlias)

/-- An item stands at place `i` for the enabled features. -/
def PresentAt {Item : Type} (F : String → Bool) (items : List (GatedItem Item)) (i : Nat) : Prop :=
  ∃ g ∈ items[i]?, g.present F = true

/-- For all enabled features the struct has a field for an instance exactly when the
type of the instance is there. -/
def PeripheralOutput.FieldsMatchAliases (o : PeripheralOutput) : Prop :=
  ∀ F i, PresentAt F o.fields i ↔ PresentAt F o.aliases i

section Gates

variable (crates : DeviceCrates) (config : DeviceConfig)

/-- The features of the elements before place `i`. -/
def featuresBefore (p : Peripheral) (i : Nat) : List String :=
  ((instanceNames crates p).take i).flatMap (peripheralFeatures crates.toCrates config)

/-- What the field of a peripheral and the types of the peripheral it resolves to
agree in. -/
structure GatesMatch (p q : Peripheral) (path : Option BlockPath) : Prop where
  emitted : p.info.derivedFrom ≠ none → isEmitted q path = false → instanceNames crates p = []
  group : isEmitted q path = true → ∀ i < (instanceNames crates p).length,
    groupFeatures crates.toCrates config q.info.groupName ⊆
      groupFeatures crates.toCrates config p.info.groupName ++ featuresBefore crates config p (i + 1)
  earlier : isEmitted q path = true → ∀ i name, (instanceNames crates p)[i]? = some name →
    featuresBefore crates config p i ⊆ instanceFeatures crates config q name

end Gates

section Matching

variable {crates : DeviceCrates} {config : DeviceConfig}

theorem presentAt_iff {Item : Type} {F : String → Bool} {items : List (GatedItem Item)} {i : Nat} :
    PresentAt F items i ↔ ∃ cfg ∈ (items.map (·.cfg))[i]?, cfg.all (·.holds F) = true := by
  simp [PresentAt, Gated.present]

/-- The field at a place: its features are those of all elements up to there. -/
theorem elementFields_cfg (fs names : List String) (i : Nat) :
    ((elementFields crates config fs names).map (·.cfg))[i]? = names[i]?.map fun _ =>
      features (fs ++ (names.take (i + 1)).flatMap (peripheralFeatures crates.toCrates config)) := by
  induction names generalizing fs i with
  | nil => rfl
  | cons name rest ih =>
      cases i with
      | zero => simp [elementFields]
      | succ i => simp [elementFields, ih, List.append_assoc]

theorem structFields_eq (p : Peripheral) : structFields crates config p =
    elementFields crates config (groupFeatures crates.toCrates config p.info.groupName)
      (instanceNames crates p) := by
  cases p with
  | single info => rfl
  | array info dim => rfl

/-- A field is there when the features of its group and of all elements up to it are. -/
theorem structFields_presentAt {F : String → Bool} {p : Peripheral} {i : Nat} :
    PresentAt F (structFields crates config p) i ↔ i < (instanceNames crates p).length ∧
      (groupFeatures crates.toCrates config p.info.groupName ++
        featuresBefore crates config p (i + 1)).all F = true := by
  rw [presentAt_iff, structFields_eq, elementFields_cfg]
  rcases Nat.lt_or_ge i (instanceNames crates p).length with hi | hi
  · simp only [List.getElem?_eq_getElem hi, Option.map_some, Option.mem_some_iff, exists_eq_left',
      all_features, hi, true_and, featuresBefore]
  · simp [Nat.not_lt.mpr hi]

/-- A type is there when the features of its instance are. -/
theorem aliases_presentAt {F : String → Bool} {q : Peripheral} {path : Option BlockPath}
    {items : List (GatedItem PeripheralItem)} (h : Rendered crates config q path items) {i : Nat} :
    PresentAt F (items.filter (·.item.isAlias)) i ↔ isEmitted q path = true ∧
      ∃ name, (instanceNames crates q)[i]? = some name ∧
        (instanceFeatures crates config q name).all F = true := by
  rw [presentAt_iff, h.aliases_cfg]
  cases isEmitted q path with
  | false => simp
  | true =>
      simp only [if_true, List.getElem?_map, Option.mem_def, Option.map_eq_some_iff, true_and]
      constructor
      · intro h
        obtain ⟨cfg, ⟨name, hname, rfl⟩, hall⟩ := h
        exact ⟨name, hname, by rwa [all_features] at hall⟩
      · intro h
        obtain ⟨name, hname, hall⟩ := h
        exact ⟨_, ⟨name, hname, rfl⟩, by rwa [all_features]⟩

theorem featuresBefore_succ {p : Peripheral} {i : Nat} {name : String}
    (hname : (instanceNames crates p)[i]? = some name) :
    featuresBefore crates config p (i + 1) =
      featuresBefore crates config p i ++ peripheralFeatures crates.toCrates config name := by
  simp [featuresBefore, List.take_add_one, hname]

/-- Without a block, a peripheral that is not derived has no items either. -/
theorem isEmitted_of_not_derived {index : DeviceIndex} {p q : Peripheral} {path : Option BlockPath}
    (h : takeDerivedPeripheral crates index p = .ok (q, path)) (hderived : p.info.derivedFrom = none) :
    isEmitted q path = !hasNoBlock p := by
  rw [takeDerivedPeripheral, hderived] at h
  obtain ⟨rfl, rfl⟩ := Prod.mk.inj (gen_pure_ok.mp h)
  simp [isEmitted, hasNoBlock, hderived]

/-- The field and the type of one instance are there for the same features exactly when
the type's group is one of the field's and the elements before cost the type nothing. -/
theorem sameFeatures_iff {p q : Peripheral} {i : Nat} {name : String}
    (hname : (instanceNames crates p)[i]? = some name)
    (hgroup : groupFeatures crates.toCrates config p.info.groupName ⊆
      groupFeatures crates.toCrates config q.info.groupName) :
    (∀ F : String → Bool, (groupFeatures crates.toCrates config p.info.groupName ++
        featuresBefore crates config p (i + 1)).all F = true ↔
      (instanceFeatures crates config q name).all F = true) ↔
      groupFeatures crates.toCrates config q.info.groupName ⊆
          groupFeatures crates.toCrates config p.info.groupName ++
            featuresBefore crates config p (i + 1) ∧
        featuresBefore crates config p i ⊆ instanceFeatures crates config q name := by
  rw [forall_all_iff_iff_subset]
  constructor
  · intro h
    obtain ⟨halias, hfield⟩ := h
    refine ⟨List.Subset.trans (List.subset_append_left _ _) halias, ?_⟩
    rw [featuresBefore_succ hname, ← List.append_assoc] at hfield
    exact List.Subset.trans (List.subset_append_right _ _)
      (List.Subset.trans (List.subset_append_left _ _) hfield)
  · intro h
    obtain ⟨halias, hearlier⟩ := h
    constructor
    · refine List.append_subset.mpr ⟨halias, ?_⟩
      rw [featuresBefore_succ hname, ← List.append_assoc]
      exact List.subset_append_right _ _
    · rw [featuresBefore_succ hname]
      exact List.append_subset.mpr ⟨List.Subset.trans hgroup (List.subset_append_left _ _),
        List.append_subset.mpr ⟨hearlier, List.subset_append_right _ _⟩⟩

/-- Where the types are emitted, every instance has to match. -/
theorem fieldsMatch_iff_of_emitted {p q : Peripheral} {path : Option BlockPath}
    (hemitted : isEmitted q path = true)
    (hgroup : groupFeatures crates.toCrates config p.info.groupName ⊆
      groupFeatures crates.toCrates config q.info.groupName) :
    (∀ (F : String → Bool) i, (i < (instanceNames crates p).length ∧
        (groupFeatures crates.toCrates config p.info.groupName ++
          featuresBefore crates config p (i + 1)).all F = true) ↔
      ∃ name, (instanceNames crates p)[i]? = some name ∧
        (instanceFeatures crates config q name).all F = true) ↔
      GatesMatch crates config p q path := by
  constructor
  · intro hmatch
    have hsame : ∀ i name, (instanceNames crates p)[i]? = some name → _ :=
      fun i name hname => (sameFeatures_iff hname hgroup).mp fun F => by
        obtain ⟨hi, -⟩ := List.getElem?_eq_some_iff.mp hname
        simpa only [hi, hname, true_and, Option.some.injEq, exists_eq_left'] using hmatch F i
    exact ⟨by simp [hemitted], fun _ i hi => (hsame i _ (List.getElem?_eq_getElem hi)).1,
      fun _ i name hname => (hsame i name hname).2⟩
  · intro hgates F i
    cases hname : (instanceNames crates p)[i]? with
    | none =>
        have hi := Nat.not_lt.mpr (List.getElem?_eq_none_iff.mp hname)
        simp [hi]
    | some name =>
        obtain ⟨hi, -⟩ := List.getElem?_eq_some_iff.mp hname
        have hsame := (sameFeatures_iff hname hgroup).mpr
          ⟨hgates.group hemitted i hi, hgates.earlier hemitted i name hname⟩ F
        simpa only [hi, true_and, Option.some.injEq, exists_eq_left'] using hsame

/-- **One peripheral.**  Its fields and types match exactly when their features do.  Two
fields of the struct differ in their features only through the group and the name of the
instance. -/
theorem renderOutput_matches {index : DeviceIndex} {fuel : Nat} {p q : Peripheral}
    {path : Option BlockPath} {o : PeripheralOutput} (hrendered : isRendered config p = true)
    (h : renderOutput crates config index fuel p = .ok o)
    (hderived : takeDerivedPeripheral crates index p = .ok (q, path)) :
    o.FieldsMatchAliases ↔ GatesMatch crates config p q path := by
  have hfields := (renderOutput_ok hrendered h).1
  have hcode := renderOutput_rendered hrendered h hderived
  have hnames := instanceNames_derived hderived
  unfold PeripheralOutput.FieldsMatchAliases PeripheralOutput.aliases
  simp only [aliases_presentAt hcode, hnames, hfields]
  by_cases hblock : hasNoBlock p = true
  · -- no field and no type
    have hunderived : p.info.derivedFrom = none := by
      simp only [hasNoBlock, Bool.and_eq_true, Option.isNone_iff_eq_none] at hblock
      exact hblock.2
    have hemitted := isEmitted_of_not_derived hderived hunderived
    rw [hblock, Bool.not_true] at hemitted
    refine iff_of_true (fun F i => ?_) ⟨fun h => absurd hunderived h, ?_, ?_⟩
    · simp [hblock, PresentAt, hemitted]
    · simp [hemitted]
    · simp [hemitted]
  simp only [hblock, Bool.false_eq_true, if_false, structFields_presentAt]
  cases hemitted : isEmitted q path with
  | false =>
      have hderives : p.info.derivedFrom ≠ none := by
        intro hunderived
        have hagain := isEmitted_of_not_derived hderived hunderived
        rw [hemitted] at hagain
        exact hblock (by simpa using hagain.symm)
      constructor
      · intro hmatch
        refine ⟨fun _ _ => ?_, by simp [hemitted], by simp [hemitted]⟩
        by_contra hne
        have hall : ∀ fs : List String, (fs.all fun _ => true) = true := by simp
        have hfirst := (hmatch (fun _ => true) 0).mp
          ⟨List.length_pos_iff.mpr hne, hall _⟩
        cases hfirst.1
      · intro hgates F i
        simp [hgates.emitted hderives hemitted]
  | true =>
      simp only [true_and]
      exact fieldsMatch_iff_of_emitted hemitted (groupFeatures_derived hderived)

/-- **Members of the struct.**  For every rendered peripheral and all enabled features the
struct has a field for an instance exactly when the type of the instance is there, if and only
if the features on both sides match.  A field and an alias are each there under a conjunction
of features, and two conjunctions agree for all enabled features only if they have the same
members. -/
theorem fieldsMatchAliases_iff {fuel : Nat} {d : Device} {outputs : List PeripheralOutput}
    (hrun : renderPeripherals crates config fuel d = .ok outputs) :
    (∀ o ∈ outputs, isRendered config o.source = true → o.FieldsMatchAliases) ↔
      ∀ p ∈ renderedPeripherals crates config d, ∀ q path,
        takeDerivedPeripheral crates (crates.indexCreate d.peripherals) p = .ok (q, path) →
        GatesMatch crates config p q path := by
  have hrel := gen_mapM_ok.mp hrun
  constructor
  · intro hmatch p hp q path hderived
    obtain ⟨hp, hrendered⟩ := List.mem_filter.mp hp
    obtain ⟨o, ho, hround⟩ := exists_of_forall₂_mem hrel.flip hp
    refine (renderOutput_matches hrendered hround hderived).mp (hmatch o ho ?_)
    rw [renderOutput_source hround]
    exact hrendered
  · intro hgates o ho hrendered
    obtain ⟨p, hp, hround⟩ := exists_of_forall₂_mem hrel ho
    rw [renderOutput_source hround] at hrendered
    obtain ⟨-, q, path, hderived, -⟩ := renderOutput_ok hrendered hround
    exact (renderOutput_matches hrendered hround hderived).mpr
      (hgates p (List.mem_filter.mpr ⟨hp, hrendered⟩) q path hderived)

end Matching

/-- Two ports of one group, the second derived from the first. -/
def derivedPort : Device where
  cpu := none
  peripherals :=
    [.single { plainPeripheral "GPIOA" with
      groupName := some "GPIO"
      registers := some [.register (.single (plainRegister "ODR" 0 32))] },
    .single { plainPeripheral "GPIOB" with
      groupName := some "GPIO"
      derivedFrom := some "GPIOA" }]

theorem fieldsMatchAliases_derivedPort :
    ∃ outputs, renderPeripherals asciiDeviceCrates featureConfig 8 derivedPort = .ok outputs ∧
      outputs.length = 2 ∧
      ∀ o ∈ outputs, isRendered featureConfig o.source = true → o.FieldsMatchAliases := by
  refine ⟨_, rfl, rfl,
    (@fieldsMatchAliases_iff asciiDeviceCrates featureConfig 8 derivedPort _ rfl).mpr ?_⟩
  intro p hp q path hderived
  have hcases : p = derivedPort.peripherals[0] ∨ p = derivedPort.peripherals[1] := by
    have hmem := (List.mem_filter.mp (List.mem_filter.mp hp).1).1
    simpa [derivedPort] using hmem
  rcases hcases with rfl | rfl
  · cases hderived
    refine ⟨fun h => absurd rfl h, fun _ => by decide, fun _ i name hname => ?_⟩
    cases i with
    | zero => exact List.nil_subset _
    | succ i => cases hname
  · cases hderived
    refine ⟨fun _ h => (nomatch h), fun _ => by decide, fun _ i name hname => ?_⟩
    cases i with
    | zero => exact List.nil_subset _
    | succ i => cases hname

/-- A pair of serial ports. -/
def serialPorts : Device where
  cpu := none
  peripherals :=
    [.array { plainPeripheral "UART%s" with
      registers := some [.register (.single (plainRegister "DR" 0 32))] } (countedDim 2 0x400)]

/-- With the feature of the second port alone its type is there, and no field of it. -/
theorem not_fieldsMatchAliases_serialPorts :
    ∃ outputs, renderPeripherals asciiDeviceCrates featureConfig 8 serialPorts = .ok outputs ∧
      ∃ o ∈ outputs, isRendered featureConfig o.source = true ∧ ¬ o.FieldsMatchAliases := by
  refine ⟨_, rfl, _, List.mem_cons_self, rfl, fun hmatch => ?_⟩
  obtain ⟨g, hg, hpresent⟩ := (hmatch (· = "uart1") 1).mpr ⟨_, rfl, by decide⟩
  cases hg
  exact absurd hpresent (by decide)

end Svd2Rust
