import Svd2Rust.InterruptTable
import Svd2Rust.PeripheralsStruct

/-!
# The features of the manifest

With `feature_group` or `feature_peripheral`, `main` lists the features of the generated
crate in `features.toml`: the groups, each once, and the peripherals, as often as they
come.  The code names features in three other places, on the items of a peripheral, on
the fields of the `Peripherals` struct and on interrupts.  The manifest has every
feature once and has all that the code names exactly when the names in the device file
stay apart when they are formatted, no placeholder is cut off a formatted name that is
used, and no array re-exports another peripheral's module while only groups are features
(`featuresDeclared_iff`).
-/

namespace Svd2Rust

open CfgAttributes FallibleRuns

/-- An entry of `features.toml`: a feature, or one that enables all of a list. -/
inductive FeatureEntry where
  | feature (key : String)
  | all (key : String) (enables : List String)
deriving DecidableEq, Repr

/-- The keys besides the `all-*` entries. -/
def declaredFeatures (entries : List FeatureEntry) : List String :=
  entries.filterMap fun entry => match entry with
    | .feature key => some key
    | .all _ _ => none

/-- The features the items of an interrupt module name, besides `rt`. -/
def InterruptModule.named (code : InterruptModule) : List String :=
  (code.externs.flatMap fun g => g.cfg.tail.flatMap Predicate.named) ++
    (code.table.toList.flatMap fun table => namedFeatures table.item) ++
    namedFeatures (code.enum.getD []) ++ namedFeatures code.fromArms

section Manifest

variable (crates : DeviceCrates) (config : DeviceConfig)

/-- `v.sort()`. -/
def sortNames (names : List String) : List String :=
  names.insertionSort (· ≤ ·)

/-- `util::group_names`, which collects the names in a set. -/
def groupNames (d : Device) : List String :=
  sortNames ((d.peripherals.filterMap (·.info.groupName)).map
    (featureName crates.toCrates config)).dedup

/-- The names `util::peripheral_names` has for one peripheral. -/
def peripheralKeys (p : Peripheral) : List String :=
  match p with
  | .single info => [removeDim (featureName crates.toCrates config info.name)]
  | .array info dim => (crates.names info.name dim).map (featureName crates.toCrates config)

/-- `util::peripheral_names`. -/
def peripheralNames (d : Device) : List String :=
  sortNames (d.peripherals.flatMap (peripheralKeys crates config))

/-- The entries of a list of names. -/
def featureEntries (names : List String) (allKey : String) : List FeatureEntry :=
  names.map .feature ++ [.all allKey names]

/-- The `features.toml` of `main`. -/
def featuresToml (d : Device) : Option (List FeatureEntry) :=
  if config.featureGroup || config.featurePeripheral then
    some
      ((if config.featureGroup then
          featureEntries (groupNames crates config d) "all-groups" else []) ++
        (if config.featurePeripheral then
          featureEntries (peripheralNames crates config d) "all-peripherals" else []))
  else none

/-- The interrupts of `device::render`: with settings for RISC-V they are rendered
elsewhere, behind no features. -/
def renderDeviceInterrupts (d : Device) : Gen (Option InterruptModule) :=
  if config.target = .riscv ∧ config.riscvConfig.isSome then return none
  else do
    let code ← renderInterrupts crates.toCrates config config.target d.peripherals
    return some code

/-- The features that the items of the peripherals, the `Peripherals` struct and the
interrupts of a device name. -/
def usedFeatures (fuel : Nat) (d : Device) : Gen (List String) := do
  let code ← renderDeviceInterrupts crates config d
  let outputs ← renderPeripherals crates config fuel d
  return (outputs.flatMap fun o => namedFeatures o.items) ++
    namedFeatures ((peripheralsStruct config outputs).getD []) ++
    (code.map InterruptModule.named).getD []

end Manifest

/-- The manifest has every feature once and all features that are used. -/
structure FeaturesDeclared (entries : List FeatureEntry) (used : List String) : Prop where
  distinct : (declaredFeatures entries).Nodup
  declared : used ⊆ declaredFeatures entries

/-! ## The manifest -/

section Declared

variable {crates : DeviceCrates} {config : DeviceConfig}

theorem mem_sortNames {names : List String} {f : String} : f ∈ sortNames names ↔ f ∈ names :=
  (List.perm_insertionSort _ _).mem_iff

theorem sortNames_nodup {names : List String} : (sortNames names).Nodup ↔ names.Nodup :=
  (List.perm_insertionSort _ _).nodup_iff

theorem mem_groupNames {d : Device} {f : String} : f ∈ groupNames crates config d ↔
    ∃ p ∈ d.peripherals, ∃ group ∈ p.info.groupName,
      featureName crates.toCrates config group = f := by
  simp only [groupNames, mem_sortNames, List.mem_dedup, List.mem_map, List.mem_filterMap,
    Option.mem_def]
  constructor
  · intro h
    obtain ⟨group, ⟨p, hp, hgroup⟩, hf⟩ := h
    exact ⟨p, hp, group, hgroup, hf⟩
  · intro h
    obtain ⟨p, hp, group, hgroup, hf⟩ := h
    exact ⟨group, ⟨p, hp, hgroup⟩, hf⟩

theorem groupNames_nodup (d : Device) : (groupNames crates config d).Nodup :=
  sortNames_nodup.mpr (List.nodup_dedup _)

theorem mem_peripheralNames {d : Device} {f : String} : f ∈ peripheralNames crates config d ↔
    ∃ p ∈ d.peripherals, f ∈ peripheralKeys crates config p := by
  rw [peripheralNames, mem_sortNames, List.mem_flatMap]

theorem declaredFeatures_featureEntries (names : List String) (allKey : String) :
    declaredFeatures (featureEntries names allKey) = names := by
  simp [declaredFeatures, featureEntries, List.filterMap_append, List.filterMap_map]

theorem declaredFeatures_append (entries more : List FeatureEntry) :
    declaredFeatures (entries ++ more) = declaredFeatures entries ++ declaredFeatures more :=
  List.filterMap_append

/-- The manifest declares the names of both lists, where their flags are on. -/
theorem declaredFeatures_toml {d : Device} {entries : List FeatureEntry}
    (h : featuresToml crates config d = some entries) : declaredFeatures entries =
      (if config.featureGroup then groupNames crates config d else []) ++
        (if config.featurePeripheral then peripheralNames crates config d else []) := by
  unfold featuresToml at h
  split at h
  · obtain rfl := Option.some.inj h
    rw [declaredFeatures_append]
    congr 1
    · split
      · exact declaredFeatures_featureEntries _ _
      · rfl
    · split
      · exact declaredFeatures_featureEntries _ _
      · rfl
  · cases h

end Declared

/-! ## Interrupts -/

section Interrupts

variable {crates : Crates} {config : DeviceConfig}

/-- The items name the features of these interrupts. -/
def NameFeaturesOf (crates : Crates) (config : DeviceConfig) (is : List OwnedInterrupt)
    {Item : Type} (items : List (GatedItem Item)) : Prop :=
  ∀ f, f ∈ namedFeatures items ↔ ∃ i ∈ is, f ∈ i.features crates config

theorem nameFeaturesOf_nil {Item : Type} :
    NameFeaturesOf crates config [] ([] : List (GatedItem Item)) := by
  intro f
  simp [namedFeatures]

/-- Items for one more interrupt. -/
theorem NameFeaturesOf.append {is : List OwnedInterrupt} {i : OwnedInterrupt} {Item : Type}
    {items more : List (GatedItem Item)} (h : NameFeaturesOf crates config is items)
    (hmore : NameFeaturesOf crates config [i] more) :
    NameFeaturesOf crates config (is ++ [i]) (items ++ more) := by
  intro f
  rw [namedFeatures_append, List.mem_append, h f, hmore f]
  simp only [List.mem_append, or_and_right, exists_or]

theorem nameFeaturesOf_item (i : OwnedInterrupt) {Item : Type} (x : Item) :
    NameFeaturesOf crates config [i] [⟨CfgAttributes.features (i.features crates config), x⟩] := by
  intro f
  simp

theorem nameFeaturesOf_entries (i : OwnedInterrupt) :
    NameFeaturesOf crates config [i] (i.entries crates config) := by
  intro f
  unfold OwnedInterrupt.entries
  cases hfs : i.features crates config with
  | nil => simp [namedFeatures, hfs]
  | cons g gs =>
      simp only [List.mem_singleton, exists_eq_left, hfs, List.isEmpty_cons, Bool.false_eq_true,
        if_false, namedFeatures, List.flatMap_cons, List.flatMap_nil, named_features,
        Predicate.named, List.append_nil, List.mem_append, or_self]

/-- What the loop has built names the features of the interrupts read so far. -/
structure CodeNames (crates : Crates) (config : DeviceConfig) (is : List OwnedInterrupt)
    (code : InterruptCode) : Prop where
  elements : NameFeaturesOf crates config is code.elements
  names : NameFeaturesOf crates config is code.names
  variants : NameFeaturesOf crates config is code.variants
  fromArms : NameFeaturesOf crates config is code.fromArms

theorem CodeNames.emit {is : List OwnedInterrupt} {code code' : InterruptCode} {i : OwnedInterrupt}
    (h : CodeNames crates config is code) (hround : emitInterrupt crates config code i = .ok code') :
    CodeNames crates config (is ++ [i]) code' := by
  obtain ⟨helements, hnames, hvariants, harms⟩ := emitInterrupt_appends hround
  refine ⟨?_, hnames ▸ h.names.append (nameFeaturesOf_item i _),
    hvariants ▸ h.variants.append (nameFeaturesOf_item i _),
    harms ▸ h.fromArms.append (nameFeaturesOf_item i _)⟩
  rw [helements]
  -- the reserved entries of the gap name nothing
  refine NameFeaturesOf.append (fun f => ?_) (nameFeaturesOf_entries i)
  rw [namedFeatures_append, namedFeatures_ungated, List.append_nil]
  exact h.elements f

theorem codeNames_run {is : List OwnedInterrupt} {code : InterruptCode}
    (hrun : is.foldlM (emitInterrupt crates config) .start = .ok code) :
    CodeNames crates config is code := by
  have hstart : CodeNames crates config [] .start :=
    ⟨nameFeaturesOf_nil, nameFeaturesOf_nil, nameFeaturesOf_nil, nameFeaturesOf_nil⟩
  exact @invariant_of_safeRun _ _ _ (emitInterrupt crates config) (fun _ _ => True)
    (CodeNames crates config) (fun hinv _ hround => hinv.emit hround) [] is _ code hstart
    (safeRun_true _ _) hrun

/-- The items of the module name the features of the interrupts that are retained. -/
theorem mem_interruptModule_named {target : Target} {peripherals : List Peripheral}
    {code : InterruptModule} (hcode : renderInterrupts crates config target peripherals = .ok code)
    {f : String} : f ∈ code.named ↔
      ∃ i, retainedFor (listedInterrupts crates peripherals) i.value = some i ∧
        f ∈ i.features crates config := by
  obtain ⟨-, built, hrun, rfl⟩ := renderInterrupts_ok.mp hcode
  have hnames := codeNames_run hrun
  have hmem : ∀ {Item : Type} {items : List (GatedItem Item)}, NameFeaturesOf crates config
      (sortByValue (collectByValue (listedInterrupts crates peripherals))) items →
      (f ∈ namedFeatures items ↔
        ∃ i, retainedFor (listedInterrupts crates peripherals) i.value = some i ∧
          f ∈ i.features crates config) :=
    fun h => (h f).trans (exists_congr fun i => and_congr_left' mem_sortByValue)
  simp only [InterruptModule.named, List.mem_append]
  constructor
  · intro hf
    rcases hf with ((hf | hf) | hf) | hf
    · split at hf
      · obtain ⟨g, hg, hf⟩ := List.mem_flatMap.mp hf
        obtain ⟨g', hg', rfl⟩ := List.mem_map.mp hg
        exact (hmem hnames.names).mp (mem_namedFeatures.mpr ⟨g', hg', hf⟩)
      · cases hf
    · split at hf
      · exact (hmem hnames.elements).mp (by simpa using hf)
      · cases hf
    · split at hf
      · exact (hmem hnames.variants).mp hf
      · cases hf
    · split at hf
      · cases hf
      · exact (hmem hnames.fromArms).mp hf
  · intro howner
    -- with an interrupt there is an enum, and it names the features
    obtain ⟨i, hretained, hf⟩ := howner
    have hlisted := mem_sortByValue.mpr hretained
    have hsome : (sortByValue (collectByValue (listedInterrupts crates peripherals))).isEmpty =
        false := by
      rw [List.isEmpty_eq_false_iff]
      exact List.ne_nil_of_mem hlisted
    refine .inl (.inr ?_)
    simp only [hsome, Bool.not_false, Bool.or_true, if_true, Option.getD_some]
    exact (hmem hnames.variants).mpr ⟨i, hretained, hf⟩

end Interrupts

/-! ## Peripherals -/

section Peripherals

variable {crates : DeviceCrates} {config : DeviceConfig}

theorem mem_named_instances {base : String} {p : Peripheral}
    {instances : List (List (GatedItem PeripheralItem))}
    (h : AreInstances crates config base p instances) {f : String} :
    f ∈ namedFeatures instances.flatten ↔
      ∃ name ∈ instanceNames crates p, f ∈ instanceFeatures crates config p name := by
  unfold AreInstances at h
  generalize instanceNames crates p = names at h
  induction h with
  | nil => simp [namedFeatures]
  | cons hinstance _ ih =>
      obtain ⟨html, doc, docAlias, address, rfl⟩ := hinstance
      rw [List.flatten_cons, namedFeatures_append, List.mem_append, ih]
      simp [instanceItems, namedFeatures]

/-- The features the re-export names: those of the instance, or those of all elements,
whether or not these are behind features themselves. -/
theorem named_reexportCfg (p : Peripheral) :
    (reexportCfg crates config (groupFeatures crates.toCrates config p.info.groupName) p).flatMap
      Predicate.named =
    match p with
    | .single info => instanceFeatures crates config p info.name
    | .array info dim => (crates.names info.name dim).map (featureName crates.toCrates config) := by
  cases p with
  | single info => exact named_features _
  | array info dim =>
      simp only [reexportCfg, elementFeatures_eq]
      exact List.append_nil _

/-- Whether a re-export names the elements of an array. -/
def ReexportsArray (p : Peripheral) (path : Option BlockPath) : Prop :=
  path.isSome = true ∧ p.isSingle = false

/-- The features in the items of a peripheral: its group, those of its instances, and
the elements of an array that is re-exported. -/
theorem Rendered.named_cases {p : Peripheral} {path : Option BlockPath}
    {items : List (GatedItem PeripheralItem)} (h : Rendered crates config p path items)
    {f : String} (hf : f ∈ namedFeatures items) :
    f ∈ groupFeatures crates.toCrates config p.info.groupName ∨
      isEmitted p path = true ∧ ∃ name ∈ instanceNames crates p,
        f ∈ instanceFeatures crates config p name ∨
          ReexportsArray p path ∧ f = featureName crates.toCrates config name := by
  cases h with
  | dropped hempty => cases hf
  | derived hinstances =>
      rw [namedFeatures_append, List.mem_append] at hf
      rcases hf with hf | hf
      · obtain ⟨name, hname, hf⟩ := (mem_named_instances hinstances).mp hf
        exact .inr ⟨rfl, name, hname, .inl hf⟩
      rw [namedFeatures, List.flatMap_singleton, named_reexportCfg] at hf
      cases p with
      | single info => exact .inr ⟨rfl, info.name, List.mem_cons_self, .inl hf⟩
      | array info dim =>
          obtain ⟨name, hname, rfl⟩ := List.mem_map.mp hf
          exact .inr ⟨rfl, name, hname, .inr ⟨⟨rfl, rfl⟩, rfl⟩⟩
  | own hregisters hinstances =>
      have hemitted : isEmitted p none = true := by simp [isEmitted, hregisters]
      rw [namedFeatures_append, List.mem_append] at hf
      rcases hf with hf | hf
      · obtain ⟨name, hname, hf⟩ := (mem_named_instances hinstances).mp hf
        exact .inr ⟨hemitted, name, hname, .inl hf⟩
      rw [namedFeatures, List.flatMap_singleton] at hf
      cases p with
      | single info =>
          rw [moduleCfg, named_features] at hf
          exact .inr ⟨hemitted, info.name, List.mem_cons_self, .inl hf⟩
      | array info dim =>
          rw [moduleCfg, named_features] at hf
          exact .inl hf

/-- The instances of an emitted peripheral are behind their features. -/
theorem Rendered.mem_named {p : Peripheral} {path : Option BlockPath}
    {items : List (GatedItem PeripheralItem)} (h : Rendered crates config p path items)
    (hemitted : isEmitted p path = true) {name : String} (hname : name ∈ instanceNames crates p)
    {f : String} (hf : f ∈ peripheralFeatures crates.toCrates config name) :
    f ∈ namedFeatures items := by
  have hinstance : f ∈ instanceFeatures crates config p name := List.mem_append_right _ hf
  cases h with
  | dropped hempty => simp [isEmitted, hempty] at hemitted
  | derived hinstances =>
      rw [namedFeatures_append]
      exact List.mem_append_left _ ((mem_named_instances hinstances).mpr ⟨name, hname, hinstance⟩)
  | own hregisters hinstances =>
      rw [namedFeatures_append]
      exact List.mem_append_left _ ((mem_named_instances hinstances).mpr ⟨name, hname, hinstance⟩)

/-- The re-export of an array names all its elements. -/
theorem Rendered.mem_named_reexport {p : Peripheral} {path : Option BlockPath}
    {items : List (GatedItem PeripheralItem)} (h : Rendered crates config p path items)
    (harray : ReexportsArray p path) {name : String} (hname : name ∈ instanceNames crates p) :
    featureName crates.toCrates config name ∈ namedFeatures items := by
  obtain ⟨hpath, harray⟩ := harray
  cases h with
  | dropped hempty => cases hpath
  | own hregisters hinstances => cases hpath
  | derived hinstances =>
      rw [namedFeatures_append]
      refine List.mem_append_right _ ?_
      rw [namedFeatures, List.flatMap_singleton, named_reexportCfg]
      cases p with
      | single info => cases harray
      | array info dim => exact List.mem_map_of_mem hname

/-- The features that pile up on the fields of an array. -/
theorem mem_named_elementFields {fs names : List String} {f : String} :
    f ∈ namedFeatures (elementFields crates config fs names) ↔ names ≠ [] ∧ f ∈ fs ∨
      ∃ name ∈ names, f ∈ peripheralFeatures crates.toCrates config name := by
  induction names generalizing fs with
  | nil => simp [elementFields, namedFeatures]
  | cons name rest ih =>
      have hhead : namedFeatures (elementFields crates config fs (name :: rest)) =
          (fs ++ peripheralFeatures crates.toCrates config name) ++ namedFeatures
            (elementFields crates config (fs ++ peripheralFeatures crates.toCrates config name)
              rest) := by
        simp [elementFields, namedFeatures]
      rw [hhead, List.mem_append, ih]
      simp only [List.mem_append, List.mem_cons, exists_eq_or_imp, ne_eq, reduceCtorEq,
        not_false_eq_true, true_and]
      tauto

theorem mem_named_structFields {p : Peripheral} {f : String} :
    f ∈ namedFeatures (structFields crates config p) ↔ instanceNames crates p ≠ [] ∧
        f ∈ groupFeatures crates.toCrates config p.info.groupName ∨
      ∃ name ∈ instanceNames crates p, f ∈ peripheralFeatures crates.toCrates config name := by
  rw [structFields_eq, mem_named_elementFields]

end Peripherals

/-! ## The whole device -/

section Conditions

variable (crates : DeviceCrates) (config : DeviceConfig) (d : Device)

/-- A derived peripheral has a group of its own or that of a peripheral of the device. -/
def DerivesInDevice : Prop :=
  ∀ p dpath q path, crates.derivePeripheral p dpath (crates.indexCreate d.peripherals) =
    .ok (q, path) → q.info.groupName = p.info.groupName ∨
      ∃ b ∈ d.peripherals, q.info.groupName = b.info.groupName

/-- The manifest declares a feature, for a group or for a peripheral. -/
def IsDeclared (f : String) : Prop :=
  config.featureGroup = true ∧ (∃ p ∈ d.peripherals, ∃ group ∈ p.info.groupName,
    featureName crates.toCrates config group = f) ∨
  config.featurePeripheral = true ∧ ∃ p ∈ d.peripherals, f ∈ peripheralKeys crates config p

/-- The code has a place for the feature of a peripheral: its items, its fields, or an
interrupt that is retained. -/
inductive NamedInCode : Peripheral → Prop
  | items {p q : Peripheral} {path : Option BlockPath}
      (hp : p ∈ renderedPeripherals crates config d)
      (hderived : takeDerivedPeripheral crates (crates.indexCreate d.peripherals) p =
        .ok (q, path))
      (hemitted : isEmitted q path = true) : NamedInCode p
  | fields {p : Peripheral} (hp : p ∈ d.peripherals)
      (hcore : isCorePeripheral crates config (fpuPresent d) p = false)
      (hskip : config.skipPeripheralsStruct = false)
      (hblock : isRendered config p = true → hasNoBlock p = false) : NamedInCode p
  | interrupt {p : Peripheral} {i : Interrupt} (hp : p ∈ d.peripherals)
      (htarget : ¬ (config.target = .riscv ∧ config.riscvConfig.isSome = true))
      (hi : i ∈ p.info.interrupt)
      (hretained : retainedFor (listedInterrupts crates.toCrates d.peripherals) i.value =
        some ⟨i, p.info.groupName, firstName crates.toCrates p⟩) : NamedInCode p

/-- What the names in a device file have to meet. -/
structure FeatureNamesFit : Prop where
  peripheralsApart : config.featurePeripheral = true →
    (d.peripherals.flatMap (peripheralKeys crates config)).Nodup
  groupsApart : config.featureGroup = true → config.featurePeripheral = true →
    ∀ p ∈ d.peripherals, ∀ group ∈ p.info.groupName, ∀ q ∈ d.peripherals,
      featureName crates.toCrates config group ∉ peripheralKeys crates config q
  placeholders : config.featurePeripheral = true → ∀ info,
    NamedInCode crates config d (.single info) →
    removeDim (featureName crates.toCrates config info.name) ≠
      featureName crates.toCrates config info.name →
    IsDeclared crates config d (featureName crates.toCrates config info.name)
  reexports : config.featurePeripheral = false → ∀ p ∈ renderedPeripherals crates config d,
    ∀ q path, takeDerivedPeripheral crates (crates.indexCreate d.peripherals) p = .ok (q, path) →
    ReexportsArray q path → ∀ name ∈ instanceNames crates p,
    IsDeclared crates config d (featureName crates.toCrates config name)

/-- Why the code names a feature. -/
inductive FeatureOrigin (f : String) : Prop
  | group {p : Peripheral} (hp : p ∈ d.peripherals)
      (hf : f ∈ groupFeatures crates.toCrates config p.info.groupName)
  | peripheral {p : Peripheral} {name : String} (hp : p ∈ d.peripherals)
      (hnamed : NamedInCode crates config d p) (hname : name ∈ instanceNames crates p)
      (hf : f ∈ peripheralFeatures crates.toCrates config name)
  | reexport {p q : Peripheral} {path : Option BlockPath} {name : String}
      (hp : p ∈ renderedPeripherals crates config d)
      (hderived : takeDerivedPeripheral crates (crates.indexCreate d.peripherals) p =
        .ok (q, path))
      (harray : ReexportsArray q path) (hname : name ∈ instanceNames crates p)
      (hf : f = featureName crates.toCrates config name)

end Conditions

section Device

variable {crates : DeviceCrates} {config : DeviceConfig} {d : Device}

theorem mem_peripheralFeatures (hperipheral : config.featurePeripheral = true) (name : String) :
    featureName crates.toCrates config name ∈ peripheralFeatures crates.toCrates config name := by
  rw [peripheralFeatures, if_pos hperipheral]
  exact List.mem_cons_self

theorem isEmitted_of_reexport {q : Peripheral} {path : Option BlockPath}
    (harray : ReexportsArray q path) : isEmitted q path = true := by
  rw [isEmitted, harray.1, Bool.true_or]

theorem mem_of_rendered {p : Peripheral} (hp : p ∈ renderedPeripherals crates config d) :
    p ∈ d.peripherals :=
  (List.mem_filter.mp (List.mem_filter.mp hp).1).1

theorem NamedInCode.mem {p : Peripheral} (h : NamedInCode crates config d p) :
    p ∈ d.peripherals := by
  cases h with
  | items hp hderived hemitted => exact mem_of_rendered hp
  | fields hp hcore hskip hblock => exact hp
  | interrupt hp htarget hi hretained => exact hp

theorem mem_declaredFeatures {entries : List FeatureEntry}
    (h : featuresToml crates config d = some entries) {f : String} :
    f ∈ declaredFeatures entries ↔ IsDeclared crates config d f := by
  rw [declaredFeatures_toml h, List.mem_append, IsDeclared, ← mem_groupNames,
    ← mem_peripheralNames]
  simp only [List.mem_ite_nil_right]

/-- The manifest has every feature once when the formatted names are distinct. -/
theorem declaredFeatures_nodup {entries : List FeatureEntry}
    (h : featuresToml crates config d = some entries) : (declaredFeatures entries).Nodup ↔
      (config.featurePeripheral = true →
        (d.peripherals.flatMap (peripheralKeys crates config)).Nodup) ∧
      (config.featureGroup = true → config.featurePeripheral = true →
        ∀ p ∈ d.peripherals, ∀ group ∈ p.info.groupName, ∀ q ∈ d.peripherals,
          featureName crates.toCrates config group ∉ peripheralKeys crates config q) := by
  rw [declaredFeatures_toml h, List.nodup_append]
  have hgroups : (if config.featureGroup then groupNames crates config d else []).Nodup := by
    split
    · exact groupNames_nodup d
    · exact .nil
  rw [and_iff_right hgroups]
  apply and_congr
  · cases hperipheral : config.featurePeripheral with
    | false => simp
    | true => simp [peripheralNames, sortNames_nodup]
  · constructor
    · intro hne hgroup hperipheral p hp group hname q hq hkey
      refine hne (featureName crates.toCrates config group) ?_ _ ?_ rfl
      · rw [if_pos hgroup]
        exact mem_groupNames.mpr ⟨p, hp, group, hname, rfl⟩
      · rw [if_pos hperipheral]
        exact mem_peripheralNames.mpr ⟨q, hq, hkey⟩
    · intro hapart f hf g hg heq
      obtain ⟨hgroup, hf⟩ := List.mem_ite_nil_right.mp hf
      obtain ⟨hperipheral, hg⟩ := List.mem_ite_nil_right.mp hg
      obtain ⟨p, hp, group, hname, rfl⟩ := mem_groupNames.mp hf
      obtain ⟨q, hq, hkey⟩ := mem_peripheralNames.mp hg
      rw [← heq] at hkey
      exact hapart hgroup hperipheral p hp group hname q hq hkey

/-- The features of a group are declared. -/
theorem isDeclared_group {p : Peripheral} (hp : p ∈ d.peripherals) {f : String}
    (hf : f ∈ groupFeatures crates.toCrates config p.info.groupName) :
    IsDeclared crates config d f := by
  unfold groupFeatures at hf
  split at hf
  · rename_i group hgroup
    obtain ⟨hflag, hf⟩ := List.mem_ite_nil_right.mp hf
    exact .inl ⟨hflag, p, hp, group, hgroup, (List.mem_singleton.mp hf).symm⟩
  · cases hf

/-- A derived peripheral has no group that is not the group of one of the device. -/
theorem groupFeatures_of_derived (hderives : DerivesInDevice crates d) {p q : Peripheral}
    {path : Option BlockPath} (hp : p ∈ d.peripherals)
    (h : takeDerivedPeripheral crates (crates.indexCreate d.peripherals) p = .ok (q, path)) :
    ∃ b ∈ d.peripherals, q.info.groupName = b.info.groupName := by
  unfold takeDerivedPeripheral at h
  split at h
  · rcases hderives _ _ _ _ h with hgroup | hgroup
    · refine ⟨p, hp, hgroup.trans ?_⟩
      cases p with
      | single info => rfl
      | array info dim => rfl
    · exact hgroup
  · obtain ⟨rfl, -⟩ := Prod.mk.inj (gen_pure_ok.mp h)
    exact ⟨p, hp, rfl⟩

/-- The fields of a peripheral, whether it is rendered or not. -/
theorem renderOutput_fields {index : DeviceIndex} {fuel : Nat} {p : Peripheral}
    {o : PeripheralOutput} (h : renderOutput crates config index fuel p = .ok o) :
    o.fields = if isRendered config p = true ∧ hasNoBlock p = true then []
      else structFields crates config p := by
  by_cases hrendered : isRendered config p = true
  · rw [(renderOutput_ok hrendered h).1]
    simp only [hrendered, true_and]
  · rw [(renderOutput_skipped hrendered h).2, if_neg fun hempty => hrendered hempty.1]

/-- An interrupt belongs to the first element of an array, which exists. -/
theorem firstName_mem {p : Peripheral} (hnamed : OwnersNamed d.peripherals)
    (hp : p ∈ d.peripherals) (hinterrupt : p.info.interrupt ≠ []) :
    firstName crates.toCrates p ∈ instanceNames crates p := by
  cases p with
  | single info => exact List.mem_cons_self
  | array info dim =>
      have hpos : 0 < (crates.names info.name dim).length := by
        rw [crates.names_length]
        exact hnamed _ hp hinterrupt dim rfl
      obtain ⟨name, rest, hnames⟩ := List.exists_cons_of_length_pos hpos
      rw [firstName, instanceNames, hnames]
      exact List.mem_cons_self

/-- `device::render` calls `interrupt::render`, but for RISC-V with settings. -/
theorem renderDeviceInterrupts_ok {code : Option InterruptModule}
    (h : renderDeviceInterrupts crates config d = .ok code) :
    config.target = .riscv ∧ config.riscvConfig.isSome = true ∧ code = none ∨
    ¬ (config.target = .riscv ∧ config.riscvConfig.isSome = true) ∧ ∃ interrupts,
      renderInterrupts crates.toCrates config config.target d.peripherals = .ok interrupts ∧
        code = some interrupts := by
  unfold renderDeviceInterrupts at h
  split at h
  · rename_i htarget
    exact .inl ⟨htarget.1, htarget.2, (gen_pure_ok.mp h).symm⟩
  · rename_i htarget
    obtain ⟨interrupts, hinterrupts, h⟩ := gen_bind_ok.mp h
    exact .inr ⟨htarget, interrupts, hinterrupts, (gen_pure_ok.mp h).symm⟩

/-- The interrupts of a device name the features of those that are retained. -/
theorem mem_named_deviceInterrupts {code : Option InterruptModule}
    (hcode : renderDeviceInterrupts crates config d = .ok code) {f : String} :
    f ∈ (code.map InterruptModule.named).getD [] ↔
      ¬ (config.target = .riscv ∧ config.riscvConfig.isSome = true) ∧
      ∃ i, retainedFor (listedInterrupts crates.toCrates d.peripherals) i.value = some i ∧
        f ∈ i.features crates.toCrates config := by
  rcases renderDeviceInterrupts_ok hcode with ⟨htarget, hconfig, rfl⟩ |
    ⟨htarget, interrupts, hinterrupts, rfl⟩
  · simp [htarget, hconfig]
  · rw [Option.map_some, Option.getD_some, mem_interruptModule_named hinterrupts,
      and_iff_right htarget]

/-- The struct names what its fields name, if it is there. -/
theorem mem_named_peripheralsStruct {outputs : List PeripheralOutput} {f : String} :
    f ∈ namedFeatures ((peripheralsStruct config outputs).getD []) ↔
      config.skipPeripheralsStruct = false ∧ ∃ o ∈ outputs, f ∈ namedFeatures o.fields := by
  unfold peripheralsStruct
  cases config.skipPeripheralsStruct with
  | true => simp [namedFeatures]
  | false => simp [namedFeatures, List.flatMap_assoc]

/-- What the items of a peripheral name. -/
theorem featureOrigin_of_items (hderives : DerivesInDevice crates d) {fuel : Nat} {p : Peripheral}
    {o : PeripheralOutput}
    (hp : p ∈ d.peripherals.filter (!isCorePeripheral crates config (fpuPresent d) ·))
    (hround : renderOutput crates config (crates.indexCreate d.peripherals) fuel p = .ok o)
    {f : String} (hf : f ∈ namedFeatures o.items) : FeatureOrigin crates config d f := by
  by_cases hrendered : isRendered config p = true
  · obtain ⟨-, q, path, hderived, hitems⟩ := renderOutput_ok hrendered hround
    have hp' : p ∈ renderedPeripherals crates config d := List.mem_filter.mpr ⟨hp, hrendered⟩
    have hgroup : f ∈ groupFeatures crates.toCrates config q.info.groupName →
        FeatureOrigin crates config d f := by
      intro hf
      obtain ⟨b, hb, hgroup⟩ := groupFeatures_of_derived hderives (mem_of_rendered hp') hderived
      rw [hgroup] at hf
      exact .group hb hf
    rcases hitems.named_cases hf with hf | ⟨hemitted, name, hname, hf⟩
    · exact hgroup hf
    rw [instanceNames_derived hderived] at hname
    rcases hf with hf | ⟨harray, hf⟩
    · rcases List.mem_append.mp hf with hf | hf
      · exact hgroup hf
      · exact .peripheral (mem_of_rendered hp') (.items hp' hderived hemitted) hname hf
    · exact .reexport hp' hderived harray hname hf
  · rw [renderOutput_notRendered hrendered hround] at hf
    cases hf

/-- What the fields of a peripheral name. -/
theorem featureOrigin_of_fields (hskip : config.skipPeripheralsStruct = false) {fuel : Nat}
    {index : DeviceIndex} {p : Peripheral} {o : PeripheralOutput}
    (hp : p ∈ d.peripherals.filter (!isCorePeripheral crates config (fpuPresent d) ·))
    (hround : renderOutput crates config index fuel p = .ok o) {f : String}
    (hf : f ∈ namedFeatures o.fields) : FeatureOrigin crates config d f := by
  obtain ⟨hp, hcore⟩ := List.mem_filter.mp hp
  rw [renderOutput_fields hround] at hf
  split at hf
  · cases hf
  rename_i hblock
  rcases mem_named_structFields.mp hf with ⟨-, hf⟩ | ⟨name, hname, hf⟩
  · exact .group hp hf
  · exact .peripheral hp (.fields hp (by simpa using hcore) hskip
      fun hrendered => by simpa [hrendered] using hblock) hname hf

/-- What the interrupts name. -/
theorem featureOrigin_of_interrupts {code : Option InterruptModule}
    (hcode : renderDeviceInterrupts crates config d = .ok code) {f : String}
    (hf : f ∈ (code.map InterruptModule.named).getD []) : FeatureOrigin crates config d f := by
  obtain ⟨htarget, i, hretained, hf⟩ := (mem_named_deviceInterrupts hcode).mp hf
  obtain ⟨hlisted, -⟩ := value_of_retainedFor hretained
  obtain ⟨p, hp, hlisted⟩ := List.mem_flatMap.mp hlisted
  obtain ⟨interrupt, hinterrupt, rfl⟩ := List.mem_map.mp hlisted
  rcases List.mem_append.mp hf with hf | hf
  · exact .group hp hf
  rcases renderDeviceInterrupts_ok hcode with
    ⟨hriscv, hconfig, -⟩ | ⟨-, interrupts, hinterrupts, -⟩
  · exact absurd ⟨hriscv, hconfig⟩ htarget
  · have hnamed : OwnersNamed d.peripherals := (renderInterrupts_ok.mp hinterrupts).1
    exact .peripheral hp (.interrupt hp htarget hinterrupt hretained)
      (firstName_mem hnamed hp (List.ne_nil_of_mem hinterrupt)) hf

/-- **Origins.**  What the code names is a group, a peripheral with a place in the code,
or an element of an array that is re-exported. -/
theorem featureOrigin_of_used (hderives : DerivesInDevice crates d) {fuel : Nat}
    {used : List String} (hused : usedFeatures crates config fuel d = .ok used) {f : String}
    (hf : f ∈ used) : FeatureOrigin crates config d f := by
  obtain ⟨code, hcode, hused⟩ := gen_bind_ok.mp hused
  obtain ⟨outputs, houtputs, hused⟩ := gen_bind_ok.mp hused
  obtain rfl := gen_pure_ok.mp hused
  have hrel := gen_mapM_ok.mp houtputs
  rw [List.mem_append, List.mem_append] at hf
  rcases hf with (hf | hf) | hf
  · obtain ⟨o, ho, hf⟩ := List.mem_flatMap.mp hf
    obtain ⟨p, hp, hround⟩ := exists_of_forall₂_mem hrel ho
    exact featureOrigin_of_items hderives hp hround hf
  · obtain ⟨hskip, o, ho, hf⟩ := mem_named_peripheralsStruct.mp hf
    obtain ⟨p, hp, hround⟩ := exists_of_forall₂_mem hrel ho
    exact featureOrigin_of_fields hskip hp hround hf
  · exact featureOrigin_of_interrupts hcode hf

/-- The feature of a single peripheral that has a place in the code is named. -/
theorem mem_used_of_named {fuel : Nat} {used : List String}
    (hused : usedFeatures crates config fuel d = .ok used) {info : PeripheralInfo}
    (hnamed : NamedInCode crates config d (.single info)) {f : String}
    (hf : f ∈ peripheralFeatures crates.toCrates config info.name) : f ∈ used := by
  obtain ⟨code, hcode, hused⟩ := gen_bind_ok.mp hused
  obtain ⟨outputs, houtputs, hused⟩ := gen_bind_ok.mp hused
  obtain rfl := gen_pure_ok.mp hused
  have hrel := (gen_mapM_ok.mp houtputs).flip
  rw [List.mem_append, List.mem_append]
  cases hnamed with
  | @items q path hp hderived hemitted =>
      obtain ⟨hp, hrendered⟩ := List.mem_filter.mp hp
      obtain ⟨o, ho, hround⟩ := exists_of_forall₂_mem hrel hp
      have hitems := renderOutput_rendered hrendered hround hderived
      have hname : info.name ∈ instanceNames crates q := by
        rw [instanceNames_derived hderived]
        exact List.mem_cons_self
      exact .inl (.inl (List.mem_flatMap.mpr ⟨o, ho, hitems.mem_named hemitted hname hf⟩))
  | fields hp hcore hskip hblock =>
      have hloop : (.single info) ∈
          d.peripherals.filter (!isCorePeripheral crates config (fpuPresent d) ·) :=
        List.mem_filter.mpr ⟨hp, by simp [hcore]⟩
      obtain ⟨o, ho, hround⟩ := exists_of_forall₂_mem hrel hloop
      have hfields : o.fields = structFields crates config (.single info) := by
        rw [renderOutput_fields hround, if_neg]
        intro h
        rw [hblock h.1] at h
        cases h.2
      have hname : info.name ∈ instanceNames crates (.single info) := List.mem_cons_self
      have hmem : f ∈ namedFeatures o.fields := by
        rw [hfields]
        exact mem_named_structFields.mpr (.inr ⟨info.name, hname, hf⟩)
      exact .inl (.inr (mem_named_peripheralsStruct.mpr ⟨hskip, o, ho, hmem⟩))
  | @interrupt i hp htarget hi hretained =>
      have hfeatures : f ∈ (⟨i, info.groupName, info.name⟩ : OwnedInterrupt).features
          crates.toCrates config := List.mem_append_right _ hf
      exact .inr ((mem_named_deviceInterrupts hcode).mpr
        ⟨htarget, ⟨i, info.groupName, info.name⟩, hretained, hfeatures⟩)

/-- The elements of an array that is re-exported are named. -/
theorem mem_used_of_reexport {fuel : Nat} {used : List String}
    (hused : usedFeatures crates config fuel d = .ok used) {p q : Peripheral}
    {path : Option BlockPath} (hp : p ∈ renderedPeripherals crates config d)
    (hderived : takeDerivedPeripheral crates (crates.indexCreate d.peripherals) p = .ok (q, path))
    (harray : ReexportsArray q path) {name : String} (hname : name ∈ instanceNames crates p) :
    featureName crates.toCrates config name ∈ used := by
  obtain ⟨code, -, hused⟩ := gen_bind_ok.mp hused
  obtain ⟨outputs, houtputs, hused⟩ := gen_bind_ok.mp hused
  obtain rfl := gen_pure_ok.mp hused
  obtain ⟨hp, hrendered⟩ := List.mem_filter.mp hp
  obtain ⟨o, ho, hround⟩ := exists_of_forall₂_mem (gen_mapM_ok.mp houtputs).flip hp
  have hitems := renderOutput_rendered hrendered hround hderived
  rw [← instanceNames_derived hderived] at hname
  rw [List.mem_append, List.mem_append]
  exact .inl (.inl (List.mem_flatMap.mpr ⟨o, ho, hitems.mem_named_reexport harray hname⟩))

/-- A peripheral's feature is declared, unless a placeholder was cut off. -/
theorem isDeclared_peripheral (hfit : FeatureNamesFit crates config d) {p : Peripheral}
    (hp : p ∈ d.peripherals) (hnamed : NamedInCode crates config d p) {name : String}
    (hname : name ∈ instanceNames crates p) {f : String}
    (hf : f ∈ peripheralFeatures crates.toCrates config name) : IsDeclared crates config d f := by
  obtain ⟨hperipheral, hf⟩ := List.mem_ite_nil_right.mp hf
  obtain rfl := List.mem_singleton.mp hf
  cases p with
  | array info dim => exact .inr ⟨hperipheral, _, hp, List.mem_map_of_mem hname⟩
  | single info =>
      obtain rfl := List.mem_singleton.mp hname
      by_cases hdim : removeDim (featureName crates.toCrates config info.name) =
          featureName crates.toCrates config info.name
      · exact .inr ⟨hperipheral, _, hp, List.mem_singleton.mpr hdim.symm⟩
      · exact hfit.placeholders hperipheral info hnamed hdim

/-- **Features.**  The manifest has every feature once and has all features that the code
names exactly when the names in the device file fit.  The manifest is made from the names in
the device file and the code from those after derivation; each feature in the code comes from
a group, an instance or a re-export, and the condition goes through the three. -/
theorem featuresDeclared_iff {fuel : Nat} {entries : List FeatureEntry} {used : List String}
    (hderives : DerivesInDevice crates d) (htoml : featuresToml crates config d = some entries)
    (hused : usedFeatures crates config fuel d = .ok used) :
    FeaturesDeclared entries used ↔ FeatureNamesFit crates config d := by
  constructor
  · intro hdeclared
    obtain ⟨hperipherals, hgroups⟩ := (declaredFeatures_nodup htoml).mp hdeclared.distinct
    refine ⟨hperipherals, hgroups, ?_, ?_⟩
    · intro hperipheral info hnamed hdim
      refine (mem_declaredFeatures htoml).mp (hdeclared.declared ?_)
      exact mem_used_of_named hused hnamed (mem_peripheralFeatures hperipheral _)
    · intro hperipheral p hp q path hderived harray name hname
      exact (mem_declaredFeatures htoml).mp
        (hdeclared.declared (mem_used_of_reexport hused hp hderived harray hname))
  · intro hfit
    refine ⟨(declaredFeatures_nodup htoml).mpr ⟨hfit.peripheralsApart, hfit.groupsApart⟩, ?_⟩
    intro f hf
    rw [mem_declaredFeatures htoml]
    cases featureOrigin_of_used hderives hused hf with
    | group hp hf => exact isDeclared_group hp hf
    | peripheral hp hnamed hname hf => exact isDeclared_peripheral hfit hp hnamed hname hf
    | reexport hp hderived harray hname hf =>
        obtain rfl := hf
        cases hperipheral : config.featurePeripheral with
        | false => exact hfit.reexports hperipheral _ hp _ _ hderived harray _ hname
        | true =>
            have hemitted := isEmitted_of_reexport harray
            exact isDeclared_peripheral hfit (mem_of_rendered hp) (.items hp hderived hemitted)
              hname (mem_peripheralFeatures hperipheral _)

end Device

/-- On plain ASCII input a group is taken from a peripheral of the device. -/
theorem derivesInDevice_ascii (d : Device) : DerivesInDevice asciiDeviceCrates d := by
  intro p dpath q path h
  obtain ⟨base, hbase, h⟩ := gen_bind_ok.mp h
  obtain ⟨rfl, -⟩ := Prod.mk.inj (gen_pure_ok.mp h)
  rw [AsciiCrates.info_mapInfo]
  cases hgroup : p.info.groupName with
  | some group => exact .inl rfl
  | none => exact .inr ⟨base, List.mem_of_find?_eq_some (okOr_ok.mp hbase), rfl⟩

/-- The ports of one group have distinct features, all of them declared. -/
theorem featuresDeclared_derivedPort :
    ∃ entries used, featuresToml asciiDeviceCrates featureConfig derivedPort = some entries ∧
      usedFeatures asciiDeviceCrates featureConfig 8 derivedPort = .ok used ∧
      declaredFeatures entries = ["gpio", "gpioa", "gpiob"] ∧ "gpiob" ∈ used ∧
      FeaturesDeclared entries used := by
  refine ⟨_, _, rfl, rfl, by decide, by decide, (@featuresDeclared_iff asciiDeviceCrates
    featureConfig derivedPort 8 _ _ (derivesInDevice_ascii derivedPort) rfl rfl).mpr ?_⟩
  refine ⟨fun _ => by decide, fun _ _ => by decide, fun _ info hnamed hdim => ?_, fun h => ?_⟩
  · have hcases : info.name = "GPIOA" ∨ info.name = "GPIOB" := by
      have hmem := hnamed.mem
      simp only [derivedPort, List.mem_cons, MaybeArray.single.injEq, List.not_mem_nil,
        or_false] at hmem
      rcases hmem with rfl | rfl
      · exact .inl rfl
      · exact .inr rfl
    rcases hcases with hname | hname
    · rw [hname] at hdim
      exact absurd (by decide) hdim
    · rw [hname] at hdim
      exact absurd (by decide) hdim
  · cases h

/-- A port that is called like its group, and two derived from it. -/
def groupPort : Device where
  cpu := none
  peripherals :=
    [.single { plainPeripheral "GPIO" with
      groupName := some "GPIO"
      registers := some [.register (.single (plainRegister "ODR" 0 32))] },
    .array { plainPeripheral "PORT%s" with derivedFrom := some "GPIO" } (countedDim 2 0x400)]

/-- With both flags the manifest has a key twice; with groups alone the re-export of the
array names features it does not have. -/
theorem not_featuresDeclared_groupPort :
    (∃ entries used, featuresToml asciiDeviceCrates featureConfig groupPort = some entries ∧
      usedFeatures asciiDeviceCrates featureConfig 8 groupPort = .ok used ∧
      declaredFeatures entries = ["gpio", "gpio", "port0", "port1"] ∧
      ¬ FeaturesDeclared entries used) ∧
    ∃ entries used, featuresToml asciiDeviceCrates groupConfig groupPort = some entries ∧
      usedFeatures asciiDeviceCrates groupConfig 8 groupPort = .ok used ∧
      declaredFeatures entries = ["gpio"] ∧ "port0" ∈ used ∧ ¬ FeaturesDeclared entries used := by
  constructor
  · refine ⟨_, _, rfl, rfl, by decide, fun hdeclared => ?_⟩
    exact absurd hdeclared.distinct (by decide)
  · refine ⟨_, _, rfl, rfl, by decide, by decide, fun hdeclared => ?_⟩
    have hport : "port0" ∈ declaredFeatures _ := hdeclared.declared (by decide)
    exact absurd hport (by decide)

end Svd2Rust
