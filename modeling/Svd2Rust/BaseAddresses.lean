import Svd2Rust.AsciiCrates
import Svd2Rust.PeripheralRendering

/-!
# Base addresses

`peripheral::render` writes an address into the `PeripheralSpec` of every instance,
in one place for a single peripheral and in another for the elements of an array.
`renderPeripheral_emitted` says that both shift the base address the device file gives
the instance, also where the registers are derived.
-/

namespace Svd2Rust

/-- What the other crates do with base addresses: a derived peripheral keeps its own,
and element `i` of an array lies `i * dim_increment` after the first. -/
structure DeviceCrates.KeepAddresses (crates : DeviceCrates) : Prop where
  derived : ∀ {p dpath index q path},
    crates.derivePeripheral p dpath index = .ok (q, path) → q.info.baseAddress = p.info.baseAddress
  expanded : ∀ info dim, (crates.peripheralExpand info dim).map (·.baseAddress) =
    (List.range dim.dim).map fun i => info.baseAddress + i * dim.dimIncrement

/-- The base addresses of the instances, as the device file gives them. -/
def instanceBases (p : Peripheral) : List Nat :=
  match p with
  | .single info => [info.baseAddress]
  | .array info dim => (List.range dim.dim).map fun i => info.baseAddress + i * dim.dimIncrement

/-- The name and the address in a `PeripheralSpec`. -/
def PeripheralItem.nameAndAddress : PeripheralItem → Option (String × Nat)
  | .specImpl _ _ address name => some (name, address)
  | _ => none

/-- The instances some items generate. -/
def emittedInstances (items : List (GatedItem PeripheralItem)) : List (String × Nat) :=
  items.filterMap (·.item.nameAndAddress)

section Emitted

variable (crates : DeviceCrates) (config : DeviceConfig)

/-- The instances of a peripheral, each at its shifted base address. -/
def shiftedInstances (p : Peripheral) : List (String × Nat) :=
  ((instanceNames crates p).zip (instanceBases p)).map fun (name, base) =>
    (identText crates.toCrates config.toConfig name .peripheral, base + config.baseAddressShift)

variable {crates config}

theorem emittedInstances_perToTokens {base : String} {html : Option String} {fs : List String}
    {doc nameStr : String} {docAlias : Option String} {address : Nat}
    {items : List (GatedItem PeripheralItem)}
    (h : perToTokens crates config base html fs doc nameStr docAlias address = .ok items) :
    emittedInstances items = [(nameStr, address)] := by
  rw [perToTokens_ok h]
  rfl

/-- The modules of the registers are no instances. -/
theorem emittedInstances_append_module (items : List (GatedItem PeripheralItem))
    {last : GatedItem PeripheralItem} (h : last.item.modTy ≠ none) :
    emittedInstances (items ++ [last]) = emittedInstances items := by
  have hlast : last.item.nameAndAddress = none := by
    generalize last.item = item at h
    cases item <;> first | rfl | exact absurd rfl h
  simp only [emittedInstances, List.filterMap_append, List.filterMap_cons, hlast,
    List.filterMap_nil, List.append_nil]

/-- **Instances.**  Each lies at its shifted base address. -/
theorem renderInstances_emitted (hkeep : crates.KeepAddresses) {base : String}
    {html : Option String} {group : List String} {p : Peripheral}
    {instances : List (List (GatedItem PeripheralItem))}
    (h : renderInstances crates config base html group p (instanceTy crates config p) =
      .ok instances) :
    emittedInstances instances.flatten = shiftedInstances crates config p := by
  cases p with
  | single info =>
      obtain ⟨address, haddress, h⟩ := gen_bind_ok.mp h
      obtain ⟨items, hitems, h⟩ := gen_bind_ok.mp h
      obtain rfl := gen_pure_ok.mp h
      obtain ⟨-, rfl⟩ := addU64_ok.mp haddress
      rw [List.flatten_singleton, emittedInstances_perToTokens hitems]
      rfl
  | array info dim =>
      have hpairs : (instanceNames crates (.array info dim)).zip
          (instanceBases (.array info dim)) =
          (crates.peripheralExpand info dim).map fun pi => (pi.name, pi.baseAddress) := by
        rw [instanceNames, instanceBases, ← crates.peripheralExpand_names, ← hkeep.expanded,
          List.zip_map']
      rw [shiftedInstances, hpairs, List.map_map]
      have hrel := gen_mapM_ok.mp h
      generalize crates.peripheralExpand info dim = elements at hrel
      clear h hpairs
      induction hrel with
      | nil => rfl
      | cons hround _ ih =>
          obtain ⟨nameStr, hname, hround⟩ := gen_bind_ok.mp hround
          obtain ⟨address, haddress, hround⟩ := gen_bind_ok.mp hround
          obtain rfl := ident_text hname
          obtain ⟨-, rfl⟩ := addU64_ok.mp haddress
          rw [List.flatten_cons, emittedInstances, List.filterMap_append]
          exact congrArg₂ (· ++ ·) (emittedInstances_perToTokens hround) ih

/-- Derivation keeps the instances. -/
theorem shiftedInstances_derived (hkeep : crates.KeepAddresses) {index : DeviceIndex}
    {p q : Peripheral} {path : Option BlockPath}
    (h : takeDerivedPeripheral crates index p = .ok (q, path)) :
    shiftedInstances crates config q = shiftedInstances crates config p := by
  have hbase : q.info.baseAddress = p.info.baseAddress := by
    unfold takeDerivedPeripheral at h
    split at h
    · rw [hkeep.derived h]
      cases p <;> rfl
    · obtain ⟨rfl, -⟩ := Prod.mk.inj (gen_pure_ok.mp h)
      rfl
  obtain ⟨-, hdim⟩ := takeDerivedPeripheral_keeps h
  have hbases : instanceBases q = instanceBases p := by
    cases p with
    | single info =>
        cases q with
        | single info' => exact congrArg (fun base => [base]) hbase
        | array info' dim' => cases hdim
    | array info dim =>
        cases q with
        | single info' => cases hdim
        | array info' dim' =>
            obtain rfl := Option.some.inj hdim
            simp only [instanceBases]
            rw [show info'.baseAddress = info.baseAddress from hbase]
  rw [shiftedInstances, instanceNames_derived h, hbases]
  rfl

/-- **Peripherals.**  The code of a peripheral, if any, has every instance at its
shifted base address. -/
theorem renderPeripheral_emitted (hkeep : crates.KeepAddresses) {index : DeviceIndex}
    {fuel : Nat} {p : Peripheral} {items : List (GatedItem PeripheralItem)}
    (h : renderPeripheral crates config index fuel p = .ok items) (hitems : items ≠ []) :
    emittedInstances items = shiftedInstances crates config p := by
  obtain ⟨q, path, html, instances, hderived, hinstances, htail⟩ := renderPeripheral_cases h
  rw [← shiftedInstances_derived hkeep hderived, ← renderInstances_emitted hkeep hinstances]
  cases htail with
  | derived path doc => exact emittedInstances_append_module _ (by simp [PeripheralItem.modTy])
  | dropped hempty => exact absurd rfl hitems
  | own doc hregisters hinfos hmodItems hblock =>
      exact emittedInstances_append_module _ (by simp [PeripheralItem.modTy])

end Emitted

theorem asciiDeviceCrates_keepAddresses : asciiDeviceCrates.KeepAddresses where
  derived h := by
    obtain ⟨base, -, h⟩ := gen_bind_ok.mp h
    obtain ⟨rfl, -⟩ := Prod.mk.inj (gen_pure_ok.mp h)
    rw [AsciiCrates.info_mapInfo]
  expanded info dim := by
    change (AsciiCrates.peripheralExpand info dim).map (·.baseAddress) = _
    rw [AsciiCrates.peripheralExpand, List.map_map, ← AsciiCrates.indexes_length dim]
    exact AsciiCrates.map_zipIdx_snd _ fun i => info.baseAddress + i * dim.dimIncrement

end Svd2Rust
