import Svd2Rust.AvrRendering
import Svd2Rust.BaseAddresses

/-!
# The address of the unlock register

`avr::render` checks the address of the unlock register and emits it as the constant
`ADDRESS as u8 + offset`.  The check adds the offset to the base address of the device
file; `ADDRESS` is shifted.  `unlockAddress_iff` says which shifts leave the constant
right and in reach of `out`.
-/

namespace Svd2Rust

/-- The constant `ADDRESS as u8 + offset`; a literal or sum that does not fit is an error of
the compiler. -/
def constAddr (address offset : Nat) : Option Nat :=
  let truncated := address % 2 ^ 8
  if offset < 2 ^ 8 ∧ truncated + offset < 2 ^ 8 then some (truncated + offset) else none

section Unlock

variable (crates : DeviceCrates) (config : DeviceConfig)

/-- The constant is the address of the unlock register, which `out` can reach. -/
def ReachesUnlock (base offset address : Nat) : Prop :=
  constAddr address offset = some (base + config.baseAddressShift + offset) ∧
    base + config.baseAddressShift + offset < 0x40

/-- For every instance of the unlock peripheral the constant is right. -/
def UnlockAddressed (code : AvrCode) : Prop :=
  ∀ spec periphSpec offset, .unlockRegister spec periphSpec offset ∈ code.items →
    ∀ o ∈ code.outputs, o.source = spec.source → o.items ≠ [] →
      List.Forall₂ (ReachesUnlock config · offset ·) (instanceBases spec.source)
        ((emittedInstances o.items).map (·.2))

variable {crates config}

theorem reachesUnlock_shifted_iff {base offset : Nat} :
    ReachesUnlock config base offset (base + config.baseAddressShift) ↔
      base + config.baseAddressShift + offset < 0x40 := by
  refine ⟨And.right, fun hbelow => ⟨?_, hbelow⟩⟩
  have htruncated : (base + config.baseAddressShift) % 2 ^ 8 = base + config.baseAddressShift :=
    Nat.mod_eq_of_lt (by omega)
  simp only [constAddr, htruncated]
  rw [if_pos (by omega)]

/-- The addresses of the instances are their shifted bases. -/
theorem shiftedInstances_addresses (p : Peripheral) :
    (shiftedInstances crates config p).map (·.2) =
      (instanceBases p).map (· + config.baseAddressShift) := by
  have hlength : (instanceBases p).length ≤ (instanceNames crates p).length := by
    cases p with
    | single info => exact Nat.le_refl _
    | array info dim => simp [instanceBases, instanceNames, crates.names_length]
  rw [shiftedInstances, List.map_map]
  conv_rhs => rw [← List.map_snd_zip hlength, List.map_map]
  rfl

/-- The constant of one instance after another. -/
theorem instances_reach_iff {bases : List Nat} {offset : Nat} :
    List.Forall₂ (ReachesUnlock config · offset ·) bases
        (bases.map (· + config.baseAddressShift)) ↔
      ∀ base ∈ bases, base + config.baseAddressShift + offset < 0x40 := by
  rw [List.forall₂_map_right_iff, List.forall₂_same]
  exact forall₂_congr fun base _ => reachesUnlock_shifted_iff

/-- **Unlock address.**  The constant is right and in reach exactly when the shifted address
of the unlock register is still below 0x40.  `resolve_register` checks the address without the
shift, and the constant is the shifted one cut to eight bits, which is out of reach of `out`
from 0x40 on. -/
theorem unlockAddress_iff (hkeep : crates.KeepAddresses) (htarget : config.target = .avr)
    {fuel : Nat} {d : Device} {ccp : CcpConfig} {code : AvrCode} {periph : Peripheral}
    {reg : Register} {address : Nat}
    (h : renderAvrDevice crates config fuel d (some ccp) = .ok code)
    (hresolved : resolveRegister d.peripherals ccp.unlockRegister = .ok (periph, reg, address)) :
    UnlockAddressed config code ↔
      (HasAddress crates d periph → ∀ base ∈ instanceBases periph,
        base + config.baseAddressShift + reg.info.addressOffset < 0x40) := by
  obtain ⟨houtputs, hitems⟩ := renderAvrDevice_ok htarget h
  obtain ⟨periph', reg', protectedItems, hresolved', -, hcode, hprotected⟩ := renderAvr_ok hitems
  obtain ⟨rfl, hrest⟩ := Prod.mk.inj (Except.ok.inj (hresolved'.symm.trans hresolved))
  obtain ⟨rfl, -⟩ := Prod.mk.inj hrest
  have hmem : periph' ∈ d.peripherals := (resolveRegister_ok hresolved').1
  have haddresses : ∀ o ∈ code.outputs, o.source = periph' → o.items ≠ [] →
      (emittedInstances o.items).map (·.2) =
        (instanceBases periph').map (· + config.baseAddressShift) := by
    intro o ho heq hne
    obtain rfl := heq
    rw [renderPeripheral_emitted hkeep (output_rendered htarget houtputs ho) hne,
      shiftedInstances_addresses]
  constructor
  · intro haddressed hhas
    obtain ⟨o, ho, hsource⟩ := exists_output htarget houtputs hmem
    have hne : o.items ≠ [] := by
      rw [items_ne_nil_iff htarget houtputs ho, hsource]
      exact hhas
    have hreach := haddressed (specPathText crates.toCrates config.toConfig periph' reg') _ _
      (by rw [hcode]; exact List.mem_cons_self) o ho hsource hne
    rw [haddresses o ho hsource hne] at hreach
    exact instances_reach_iff.mp hreach
  · intro hbelow spec periphSpec offset hunlock o ho hsource hne
    rw [hcode] at hunlock
    rcases List.mem_cons.mp hunlock with hfirst | hrest
    · obtain ⟨rfl, rfl, rfl⟩ := AvrItem.unlockRegister.inj hfirst
      have hhas : HasAddress crates d periph' := by
        rw [← show o.source = periph' from hsource, ← items_ne_nil_iff htarget houtputs ho]
        exact hne
      rw [haddresses o ho hsource hne]
      exact instances_reach_iff.mpr (hbelow hhas)
    · obtain ⟨entry, -, _, _, _, -, hitem⟩ := exists_of_forall₂_mem hprotected hrest
      cases hitem

end Unlock

/-- A configuration for AVR with a shift. -/
def avrConfig (shift : Nat) : DeviceConfig :=
  { defaultDeviceConfig with target := .avr, baseAddressShift := shift }

/-- The unlock register `CPU.CCP`. -/
def cpuCcp : CcpConfig := ⟨"CPU.CCP", []⟩

/-- A CPU block with its unlock register at 0x34. -/
def avrDevice : Device where
  cpu := none
  peripherals :=
    [.single { plainPeripheral "CPU" with
      baseAddress := 0x30
      registers := some [.register (.single (plainRegister "CCP" 4 8))] }]

/-- A shift that stays below 0x40 does no harm. -/
theorem unlockAddress_avrDevice :
    ∃ code, renderAvrDevice asciiDeviceCrates (avrConfig 8) 8 avrDevice (some cpuCcp) = .ok code ∧
      UnlockAddressed (avrConfig 8) code :=
  ⟨_, rfl, (@unlockAddress_iff _ _ asciiDeviceCrates_keepAddresses rfl 8 avrDevice cpuCcp _ _ _ _
    rfl rfl).mpr fun _ => List.forall_mem_singleton.mpr (by decide)⟩

/-- Shifted by 0x1000 the unlock register is out of reach, and the constant is 0x34. -/
theorem not_unlockAddress_shifted :
    ¬ ∀ code, renderAvrDevice asciiDeviceCrates (avrConfig 0x1000) 8 avrDevice (some cpuCcp) =
      .ok code → UnlockAddressed (avrConfig 0x1000) code := by
  intro h
  have hreach := h _ rfl _ _ _ List.mem_cons_self _ List.mem_cons_self rfl nofun
  cases hreach with
  | cons hfirst _ => exact absurd hfirst.2 (by decide)

end Svd2Rust
