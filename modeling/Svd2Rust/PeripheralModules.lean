import Svd2Rust.AsciiCrates
import Svd2Rust.PeripheralRendering

/-!
# The modules derived peripherals refer to

A peripheral that uses the registers of another names the module of that one: in the
specs of its instances and in its re-export.  Each of these items is there with certain
features, and so is each module a peripheral emits, so the reference holds for all
enabled features exactly when every way to enable the item enables a module of that
name as well (`basesEmitted_iff`).
-/

namespace Svd2Rust

open CfgAttributes

/-- Some peripheral emits a module of this name for the enabled features. -/
def EmitsModule (outputs : List PeripheralOutput) (F : String → Bool) (name : String) : Prop :=
  ∃ o ∈ outputs, ∃ g ∈ o.items, g.present F = true ∧ g.item.modTy = some name

/-- For all enabled features, what a derived peripheral refers to is emitted. -/
def BasesEmitted (crates : DeviceCrates) (index : DeviceIndex) (outputs : List PeripheralOutput) :
    Prop :=
  ∀ F, ∀ o ∈ outputs, ∀ q path,
    takeDerivedPeripheral crates index o.source = .ok (q, some path) →
    ∀ g ∈ o.items, g.present F = true → ∀ base, g.item.base = some base →
      EmitsModule outputs F base

section Ways

variable (crates : DeviceCrates) (config : DeviceConfig)

/-- The ways to enable an instance. -/
def instanceWays (p : Peripheral) : List (List String) :=
  (instanceNames crates p).map (instanceFeatures crates config p)

/-- The ways to enable the re-export: that of a single peripheral, or one feature of an
element. -/
def reexportWays (p : Peripheral) : List (List String) :=
  match p with
  | .single info => [instanceFeatures crates config p info.name]
  | .array info dim =>
      (crates.names info.name dim).map fun name => [featureName crates.toCrates config name]

/-- The ways to enable the module of a peripheral resolved to `p`. -/
def moduleWays (p : Peripheral) (path : Option BlockPath) : List (List String) :=
  match path, p with
  | some _, p => reexportWays crates config p
  | none, .single info => [instanceFeatures crates config (.single info) info.name]
  | none, .array info _ => [groupFeatures crates.toCrates config info.groupName]

/-- A peripheral among `peripherals` emits a module of this name for each way. -/
def EmitsForWay (index : DeviceIndex) (peripherals : List Peripheral) (name : String)
    (way : List String) : Prop :=
  ∃ p ∈ peripherals, ∃ q path, takeDerivedPeripheral crates index p = .ok (q, path) ∧
    isEmitted q path = true ∧ peripheralModTy crates config q = name ∧
    ∃ gate ∈ moduleWays crates config q path, gate ⊆ way

end Ways

section References

variable {crates : DeviceCrates} {config : DeviceConfig}

theorem reexportCfg_holds {F : String → Bool} {p : Peripheral} :
    (reexportCfg crates config (groupFeatures crates.toCrates config p.info.groupName) p).all
      (·.holds F) = true ↔ ∃ way ∈ reexportWays crates config p, way.all F = true := by
  cases p with
  | single info =>
      simp only [reexportCfg, all_features, reexportWays, List.mem_singleton, exists_eq_left]
      rfl
  | array info dim =>
      simp [reexportCfg, elementFeatures_eq, Predicate.holds, reexportWays]

theorem moduleCfg_holds {F : String → Bool} {p : Peripheral} :
    (moduleCfg crates config (groupFeatures crates.toCrates config p.info.groupName) p).all
      (·.holds F) = true ↔ ∃ way ∈ moduleWays crates config p none, way.all F = true := by
  cases p with
  | single info =>
      simp only [moduleCfg, all_features, moduleWays, List.mem_singleton, exists_eq_left]
      rfl
  | array info dim =>
      simp only [moduleCfg, all_features, moduleWays, List.mem_singleton, exists_eq_left]
      rfl

theorem AreInstances.not_modTy {F : String → Bool} {base : String} {p : Peripheral}
    {instances : List (List (GatedItem PeripheralItem))}
    (h : AreInstances crates config base p instances) {name : String} :
    ¬ ∃ g ∈ instances.flatten, g.present F = true ∧ g.item.modTy = some name := by
  intro hitem
  obtain ⟨g, hg, -, hname⟩ := hitem
  rw [h.modTy_eq_none hg] at hname
  cases hname

/-- The specs of the instances refer to the base. -/
theorem AreInstances.base_iff {F : String → Bool} {base : String} {p : Peripheral}
    {instances : List (List (GatedItem PeripheralItem))}
    (h : AreInstances crates config base p instances) {name : String} :
    (∃ g ∈ instances.flatten, g.present F = true ∧ g.item.base = some name) ↔
      name = base ∧ ∃ way ∈ instanceWays crates config p, way.all F = true := by
  constructor
  · intro hitem
    obtain ⟨g, hg, hpresent, hbase⟩ := hitem
    obtain ⟨items, hitems, hg⟩ := List.mem_flatten.mp hg
    obtain ⟨instName, hname, html, doc, docAlias, address, rfl⟩ := exists_of_forall₂_mem h hitems
    simp only [instanceItems, List.mem_cons, List.not_mem_nil, or_false] at hg
    rcases hg with rfl | rfl | rfl
    · cases hbase
    · cases hbase
    · rw [present_features] at hpresent
      exact ⟨(Option.some.inj hbase).symm, _, List.mem_map_of_mem hname, hpresent⟩
  · intro hway
    obtain ⟨rfl, way, hway, hall⟩ := hway
    obtain ⟨instName, hname, rfl⟩ := List.mem_map.mp hway
    obtain ⟨items, hitems, html, doc, docAlias, address, rfl⟩ :=
      exists_of_forall₂_mem h.flip hname
    refine ⟨_, List.mem_flatten.mpr ⟨_, hitems, .tail _ (.tail _ (.head _))⟩, ?_, rfl⟩
    rw [present_features]
    exact hall

theorem exists_mem_append_singleton {α : Type} {P : α → Prop} {as : List α} {b : α} :
    (∃ a ∈ as ++ [b], P a) ↔ (∃ a ∈ as, P a) ∨ P b := by
  simp only [List.mem_append, List.mem_singleton, or_and_right, exists_or, exists_eq_left]

/-- The module a rendered peripheral emits. -/
theorem Rendered.modTy_iff {F : String → Bool} {p : Peripheral} {path : Option BlockPath}
    {items : List (GatedItem PeripheralItem)} (h : Rendered crates config p path items)
    {name : String} :
    (∃ g ∈ items, g.present F = true ∧ g.item.modTy = some name) ↔ isEmitted p path = true ∧
      peripheralModTy crates config p = name ∧
      ∃ way ∈ moduleWays crates config p path, way.all F = true := by
  cases h with
  | dropped hempty => simp [isEmitted, hempty]
  | derived hinstances =>
      rw [exists_mem_append_singleton, or_iff_right hinstances.not_modTy]
      simp only [Gated.present, reexportCfg_holds, PeripheralItem.modTy, Option.some.injEq,
        isEmitted, Option.isSome_some, Bool.true_or, true_and, moduleWays]
      exact and_comm
  | own hregisters hinstances =>
      have hemitted : isEmitted p none = true := by simp [isEmitted, hregisters]
      rw [exists_mem_append_singleton, or_iff_right hinstances.not_modTy]
      simp only [Gated.present, moduleCfg_holds, PeripheralItem.modTy, Option.some.injEq, hemitted,
        true_and]
      exact and_comm

/-- What a derived peripheral refers to. -/
theorem Rendered.base_iff {F : String → Bool} {p : Peripheral} {path : BlockPath}
    {items : List (GatedItem PeripheralItem)} (h : Rendered crates config p (some path) items)
    {name : String} :
    (∃ g ∈ items, g.present F = true ∧ g.item.base = some name) ↔
      name = identText crates.toCrates config.toConfig path.peripheral .peripheralMod ∧
      ∃ way ∈ instanceWays crates config p ++ reexportWays crates config p, way.all F = true := by
  cases h with
  | derived hinstances =>
      rw [exists_mem_append_singleton, hinstances.base_iff]
      simp only [Gated.present, reexportCfg_holds, PeripheralItem.base, Option.some.injEq,
        List.mem_append, or_and_right, exists_or, and_or_left]
      exact or_congr_right (and_comm.trans (and_congr_left' eq_comm))

/-! ## The whole device -/

/-- The modules the outputs emit are those of the rendered peripherals. -/
theorem emitsModule_iff {index : DeviceIndex} {fuel : Nat} {peripherals : List Peripheral}
    {outputs : List PeripheralOutput}
    (hrun : peripherals.mapM (renderOutput crates config index fuel) = .ok outputs)
    {F : String → Bool} {name : String} :
    EmitsModule outputs F name ↔ ∃ way, (∃ p ∈ peripherals.filter (isRendered config), ∃ q path,
      takeDerivedPeripheral crates index p = .ok (q, path) ∧ isEmitted q path = true ∧
      peripheralModTy crates config q = name ∧ way ∈ moduleWays crates config q path) ∧
      way.all F = true := by
  have hrel := gen_mapM_ok.mp hrun
  constructor
  · intro hemits
    obtain ⟨o, ho, hmodule⟩ := hemits
    obtain ⟨p, hp, hround⟩ := exists_of_forall₂_mem hrel ho
    by_cases hrendered : isRendered config p = true
    · obtain ⟨-, q, path, hderived, hcode⟩ := renderOutput_ok hrendered hround
      obtain ⟨hemitted, hname, way, hway, hall⟩ := hcode.modTy_iff.mp hmodule
      exact ⟨way, ⟨p, List.mem_filter.mpr ⟨hp, hrendered⟩, q, path, hderived, hemitted, hname,
        hway⟩, hall⟩
    · rw [renderOutput_notRendered hrendered hround] at hmodule
      obtain ⟨g, hg, -⟩ := hmodule
      cases hg
  · intro hway
    obtain ⟨way, ⟨p, hp, q, path, hderived, hemitted, hname, hway⟩, hall⟩ := hway
    obtain ⟨hp, hrendered⟩ := List.mem_filter.mp hp
    obtain ⟨o, ho, hround⟩ := exists_of_forall₂_mem hrel.flip hp
    have hcode := renderOutput_rendered hrendered hround hderived
    exact ⟨o, ho, hcode.modTy_iff.mpr ⟨hemitted, hname, way, hway, hall⟩⟩

/-- **Bases.**  Over a list of peripherals the references of the derived ones hold for
all enabled features exactly when each way to enable one enables a module. -/
theorem basesEmitted_iff_ways {index : DeviceIndex} {fuel : Nat} {peripherals : List Peripheral}
    {outputs : List PeripheralOutput}
    (hrun : peripherals.mapM (renderOutput crates config index fuel) = .ok outputs) :
    BasesEmitted crates index outputs ↔ ∀ p ∈ peripherals.filter (isRendered config), ∀ q path,
      takeDerivedPeripheral crates index p = .ok (q, some path) →
      ∀ way ∈ instanceWays crates config q ++ reexportWays crates config q,
        EmitsForWay crates config index (peripherals.filter (isRendered config))
          (identText crates.toCrates config.toConfig path.peripheral .peripheralMod) way := by
  have hrel := gen_mapM_ok.mp hrun
  have hways : ∀ {name way}, (∀ F : String → Bool, way.all F = true → EmitsModule outputs F name) ↔
      EmitsForWay crates config index (peripherals.filter (isRendered config)) name way := by
    intro name way
    simp only [emitsModule_iff hrun, forall_exists_all_iff]
    constructor
    · intro h
      obtain ⟨gate, ⟨p, hp, q, path, hderived, hemitted, hname, hgate⟩, hsub⟩ := h
      exact ⟨p, hp, q, path, hderived, hemitted, hname, gate, hgate, hsub⟩
    · intro h
      obtain ⟨p, hp, q, path, hderived, hemitted, hname, gate, hgate, hsub⟩ := h
      exact ⟨gate, ⟨p, hp, q, path, hderived, hemitted, hname, hgate⟩, hsub⟩
  constructor
  · intro hemitted p hp q path hderived way hway
    obtain ⟨hp, hrendered⟩ := List.mem_filter.mp hp
    obtain ⟨o, ho, hround⟩ := exists_of_forall₂_mem hrel.flip hp
    have hcode := renderOutput_rendered hrendered hround hderived
    rw [← hways]
    intro F hall
    obtain ⟨g, hg, hpresent, hbase⟩ := hcode.base_iff.mpr ⟨rfl, way, hway, hall⟩
    rw [← renderOutput_source hround] at hderived
    exact hemitted F o ho q path hderived g hg hpresent _ hbase
  · intro hall F o ho q path hderived g hg hpresent base hbase
    obtain ⟨p, hp, hround⟩ := exists_of_forall₂_mem hrel ho
    rw [renderOutput_source hround] at hderived
    by_cases hrendered : isRendered config p = true
    · have hcode := renderOutput_rendered hrendered hround hderived
      obtain ⟨rfl, way, hway, hallF⟩ := hcode.base_iff.mp ⟨g, hg, hpresent, hbase⟩
      exact hways.mpr (hall p (List.mem_filter.mpr ⟨hp, hrendered⟩) q path hderived way hway) F
        hallF
    · rw [renderOutput_notRendered hrendered hround] at hg
      cases hg

/-- **Bases.**  What the derived peripherals of a device refer to is emitted for all enabled
features exactly when, for each way to enable an instance or the re-export, a rendered
peripheral has a module of that name with no feature more.  With just the features of one way
enabled, the base has to be there already; and what is there under these features stays when
more of them are enabled. -/
theorem basesEmitted_iff {fuel : Nat} {d : Device} {outputs : List PeripheralOutput}
    (hrun : renderPeripherals crates config fuel d = .ok outputs) :
    BasesEmitted crates (crates.indexCreate d.peripherals) outputs ↔
      ∀ p ∈ renderedPeripherals crates config d, ∀ q path,
        takeDerivedPeripheral crates (crates.indexCreate d.peripherals) p = .ok (q, some path) →
        ∀ way ∈ instanceWays crates config q ++ reexportWays crates config q,
          EmitsForWay crates config (crates.indexCreate d.peripherals)
            (renderedPeripherals crates config d)
            (identText crates.toCrates config.toConfig path.peripheral .peripheralMod) way :=
  basesEmitted_iff_ways hrun

end References

/-- A timer and one derived from it, in the same group. -/
def derivedTimer : Device where
  cpu := none
  peripherals :=
    [.single { plainPeripheral "TIM1" with
      groupName := some "TIM"
      registers := some [.register (.single (plainRegister "CNT" 0 32))] },
    .single { plainPeripheral "TIM2" with
      groupName := some "TIM"
      derivedFrom := some "TIM1" }]

theorem basesEmitted_derivedTimer :
    ∃ outputs, renderPeripherals asciiDeviceCrates groupConfig 8 derivedTimer = .ok outputs ∧
      outputs.length = 2 ∧
      BasesEmitted asciiDeviceCrates (asciiDeviceCrates.indexCreate derivedTimer.peripherals)
        outputs := by
  refine ⟨_, rfl, rfl,
    (@basesEmitted_iff asciiDeviceCrates groupConfig 8 derivedTimer _ rfl).mpr ?_⟩
  intro p hp q path hderived way hway
  have hcases : p = derivedTimer.peripherals[0] ∨ p = derivedTimer.peripherals[1] := by
    have hmem := (List.mem_filter.mp (List.mem_filter.mp hp).1).1
    simpa [derivedTimer] using hmem
  rcases hcases with rfl | rfl
  · cases hderived
  · cases hderived
    have hfirst : derivedTimer.peripherals[0] ∈
        renderedPeripherals asciiDeviceCrates groupConfig derivedTimer := List.mem_cons_self
    obtain rfl : way = ["tim"] := by
      rcases List.mem_append.mp hway with hway | hway
      · exact List.mem_singleton.mp hway
      · exact List.mem_singleton.mp hway
    exact ⟨_, hfirst, _, _, rfl, rfl, by decide, ["tim"], by decide, List.Subset.refl _⟩

/-- A port derived from the first element of an array of ports. -/
def arrayBase : Device where
  cpu := none
  peripherals :=
    [.array { plainPeripheral "UART%s" with
      registers := some [.register (.single (plainRegister "DR" 0 32))] } (countedDim 2 0x400),
    .single { plainPeripheral "LPUART" with derivedFrom := some "UART0" }]

/-- The port refers to a module of the element's name, and the array emits one for all its
elements. -/
theorem not_basesEmitted_arrayBase :
    ∃ outputs, renderPeripherals asciiDeviceCrates defaultDeviceConfig 8 arrayBase = .ok outputs ∧
      (outputs.flatMap fun o => o.items.filterMap (·.item.base)) =
        ["uart", "uart", "uart0", "uart0"] ∧
      (outputs.flatMap fun o => o.items.filterMap (·.item.modTy)) = ["uart", "lpuart"] ∧
      ¬ BasesEmitted asciiDeviceCrates (asciiDeviceCrates.indexCreate arrayBase.peripherals)
        outputs := by
  refine ⟨_, rfl, rfl, rfl, fun hemitted => ?_⟩
  have hways := (@basesEmitted_iff_ways asciiDeviceCrates defaultDeviceConfig
    (asciiDeviceCrates.indexCreate arrayBase.peripherals) 8 arrayBase.peripherals _ rfl).mp hemitted
  obtain ⟨p, hp, q, path, hderived, -, hname, -⟩ :=
    hways _ (.tail _ (.head _)) _ _ rfl [] (.head _)
  have hcases : p = arrayBase.peripherals[0] ∨ p = arrayBase.peripherals[1] := by
    have hmem := (List.mem_filter.mp hp).1
    simpa [arrayBase] using hmem
  rcases hcases with rfl | rfl
  · cases hderived
    exact absurd hname (by decide)
  · cases hderived
    exact absurd hname (by decide)

end Svd2Rust
