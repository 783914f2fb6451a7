import Svd2Rust.InterruptTable
import Svd2Rust.PeripheralsStruct

/-!
# Interrupts behind features

Of several peripherals that list an interrupt with one value only the last one's entry
is kept, with the features of that peripheral: its group in the device file, and the
name of its first element.  Another owner that is enabled keeps its interrupt for all
enabled features exactly when the entry needs no feature more than the owner itself
(`interruptsKept_iff`).
-/

namespace Svd2Rust

open CfgAttributes

/-- The interrupt with this value has a variant, and a handler in the table of a target
that has one. -/
structure InterruptModule.HasInterrupt (code : InterruptModule) (F : String → Bool) (k : Nat) :
    Prop where
  variant : ∃ v ∈ compile F (code.enum.getD []), v.value = k
  handler : ∀ table ∈ code.table, ∃ name, (compile F table.item)[k]? = some (.handler name)

/-- For all enabled features, every instance whose type is there has the interrupts its
peripheral lists. -/
def InterruptsKept (config : DeviceConfig) (outputs : List PeripheralOutput)
    (code : InterruptModule) : Prop :=
  ∀ F, ∀ o ∈ outputs, isRendered config o.source = true → ∀ i, PresentAt F o.aliases i →
    ∀ interrupt ∈ o.source.info.interrupt, code.HasInterrupt F interrupt.value

section Kept

variable {crates : DeviceCrates} {config : DeviceConfig}

/-- An interrupt is there when the features of the interrupt retained for its value
are. -/
theorem InterruptModule.CompilesTo.hasInterrupt_iff {F : String → Bool}
    {is : List OwnedInterrupt} {code : InterruptModule}
    (h : code.CompilesTo crates.toCrates config F is) {k : Nat} :
    code.HasInterrupt F k ↔ ∃ owner, retainedFor is k = some owner ∧
      (owner.features crates.toCrates config).all F = true := by
  constructor
  · intro hinterrupt
    obtain ⟨v, hv, hvalue⟩ := hinterrupt.variant
    obtain ⟨owner, howner, hvector⟩ :=
      vectorFor_eq_handler.mp ((h.variant_iff k v.name).mp ⟨v, hv, hvalue, rfl⟩)
    refine ⟨owner, howner, ?_⟩
    unfold OwnedInterrupt.vector at hvector
    split at hvector
    · assumption
    · cases hvector
  · intro howner
    obtain ⟨owner, howner, hall⟩ := howner
    have hvector : vectorFor crates.toCrates config F is k =
        .handler (owner.ident crates.toCrates config) := by
      rw [vectorFor_eq_handler]
      exact ⟨owner, howner, by rw [OwnedInterrupt.vector, if_pos hall]⟩
    constructor
    · obtain ⟨v, hv, hvalue, -⟩ := (h.variant_iff k _).mpr hvector
      exact ⟨v, hv, hvalue⟩
    · intro table htable
      obtain ⟨hmem, rfl⟩ := value_of_retainedFor howner
      have hlt : owner.value < tableLength is := tableLength_le_iff.mp (Nat.le_refl _) owner hmem
      refine ⟨owner.ident crates.toCrates config, ?_⟩
      rw [h.table_eq table htable, List.getElem?_map, List.getElem?_range hlt, Option.map_some,
        hvector]

/-- The listed interrupts of a device have an entry that is retained. -/
theorem exists_retained_of_listed {peripherals : List Peripheral} {p : Peripheral}
    (hp : p ∈ peripherals) {interrupt : Interrupt} (hi : interrupt ∈ p.info.interrupt) :
    ∃ owner, retainedFor (listedInterrupts crates.toCrates peripherals) interrupt.value =
      some owner := by
  have hmem : (⟨interrupt, p.info.groupName, firstName crates.toCrates p⟩ : OwnedInterrupt) ∈
      listedInterrupts crates.toCrates peripherals :=
    List.mem_flatMap.mpr ⟨p, hp, List.mem_map_of_mem hi⟩
  exact exists_retainedFor hmem

/-- **Interrupts.**  Every instance keeps the interrupts its peripheral lists, for all enabled
features, exactly when the entry retained for the value needs only features of the instance.
The table has one entry for a value, under the features of the peripheral listed last with it;
enabling only the features of the instance shows whether that entry is there. -/
theorem interruptsKept_iff {fuel : Nat} {d : Device} {outputs : List PeripheralOutput}
    {code : InterruptModule} (hrun : renderPeripherals crates config fuel d = .ok outputs)
    (hcode : renderInterrupts crates.toCrates config config.target d.peripherals = .ok code) :
    InterruptsKept config outputs code ↔
      ∀ p ∈ renderedPeripherals crates config d, ∀ q path,
        takeDerivedPeripheral crates (crates.indexCreate d.peripherals) p = .ok (q, path) →
        isEmitted q path = true → ∀ name ∈ instanceNames crates p,
        ∀ interrupt ∈ p.info.interrupt, ∀ owner,
          retainedFor (listedInterrupts crates.toCrates d.peripherals) interrupt.value =
            some owner →
          owner.features crates.toCrates config ⊆ instanceFeatures crates config q name := by
  have hrel := gen_mapM_ok.mp hrun
  have hcompiles := (renderInterrupts_compiles hcode).2
  constructor
  · intro hkept p hp q path hderived hemitted name hname interrupt hinterrupt owner howner
    obtain ⟨hp, hrendered⟩ := List.mem_filter.mp hp
    obtain ⟨o, ho, hround⟩ := exists_of_forall₂_mem hrel.flip hp
    have hitems := renderOutput_rendered hrendered hround hderived
    have hsource := renderOutput_source hround
    rw [← instanceNames_derived hderived] at hname
    obtain ⟨i, hi⟩ := List.mem_iff_getElem?.mp hname
    rw [← forall_all_iff_subset]
    intro F hall
    have hpresent := (aliases_presentAt hitems).mpr ⟨hemitted, name, hi, hall⟩
    have hhas := hkept F o ho (by rw [hsource]; exact hrendered) i hpresent interrupt
      (by rw [hsource]; exact hinterrupt)
    obtain ⟨owner', howner', hfeatures⟩ := (hcompiles F).hasInterrupt_iff.mp hhas
    obtain rfl := Option.some.inj (howner'.symm.trans howner)
    exact hfeatures
  · intro hall F o ho hrendered i hpresent interrupt hinterrupt
    obtain ⟨p, hp, hround⟩ := exists_of_forall₂_mem hrel ho
    rw [renderOutput_source hround] at hrendered hinterrupt
    obtain ⟨-, q, path, hderived, hitems⟩ := renderOutput_ok hrendered hround
    obtain ⟨hemitted, name, hi, hfeatures⟩ := (aliases_presentAt hitems).mp hpresent
    have hname : name ∈ instanceNames crates p := by
      rw [← instanceNames_derived hderived]
      exact List.mem_of_getElem? hi
    obtain ⟨owner, howner⟩ :=
      @exists_retained_of_listed crates _ p (List.mem_filter.mp hp).1 _ hinterrupt
    have hsub := hall p (List.mem_filter.mpr ⟨hp, hrendered⟩) q path hderived hemitted name hname
      interrupt hinterrupt owner howner
    exact (hcompiles F).hasInterrupt_iff.mpr ⟨owner, howner, all_of_subset hsub hfeatures⟩

end Kept

/-- Two timers that share an interrupt. -/
def sharedInterrupt : Device where
  cpu := none
  peripherals :=
    [.single { plainPeripheral "TIM1" with
      groupName := some "TIM"
      interrupt := [⟨"TIM", none, 5⟩]
      registers := some [.register (.single (plainRegister "CNT" 0 32))] },
    .single { plainPeripheral "TIM2" with
      groupName := some "TIM"
      interrupt := [⟨"TIM", none, 5⟩]
      registers := some [.register (.single (plainRegister "CNT" 0 32))] }]

/-- With features for groups alone both timers keep the interrupt. -/
theorem interruptsKept_sharedInterrupt :
    ∃ outputs code,
      renderPeripherals asciiDeviceCrates groupConfig 8 sharedInterrupt = .ok outputs ∧
      renderInterrupts asciiDeviceCrates.toCrates groupConfig .cortexM
        sharedInterrupt.peripherals = .ok code ∧
      outputs.length = 2 ∧ InterruptsKept groupConfig outputs code := by
  refine ⟨_, _, rfl, rfl, rfl, (@interruptsKept_iff asciiDeviceCrates groupConfig 8
    sharedInterrupt _ _ rfl rfl).mpr ?_⟩
  intro p hp q path hderived hemitted name hname interrupt hinterrupt owner howner
  have hcases : p = sharedInterrupt.peripherals[0] ∨ p = sharedInterrupt.peripherals[1] := by
    have hmem := (List.mem_filter.mp (List.mem_filter.mp hp).1).1
    simpa [sharedInterrupt] using hmem
  rcases hcases with rfl | rfl
  · cases hderived
    obtain rfl := List.mem_singleton.mp hname
    obtain rfl := List.mem_singleton.mp hinterrupt
    cases howner
    decide
  · cases hderived
    obtain rfl := List.mem_singleton.mp hname
    obtain rfl := List.mem_singleton.mp hinterrupt
    cases howner
    decide

/-- With features for peripherals the first timer has none of its own. -/
theorem not_interruptsKept_sharedInterrupt :
    ∃ outputs code,
      renderPeripherals asciiDeviceCrates featureConfig 8 sharedInterrupt = .ok outputs ∧
      renderInterrupts asciiDeviceCrates.toCrates featureConfig .cortexM
        sharedInterrupt.peripherals = .ok code ∧
      ¬ InterruptsKept featureConfig outputs code := by
  refine ⟨_, _, rfl, rfl, fun hkept => ?_⟩
  have hhas := hkept (fun f => f = "tim" || f = "tim1") _ List.mem_cons_self rfl 0
    ⟨_, rfl, by decide⟩ _ List.mem_cons_self
  obtain ⟨v, hv, -⟩ := hhas.variant
  obtain ⟨g, hg, hpresent, -⟩ := mem_compile.mp hv
  obtain rfl := List.mem_singleton.mp hg
  exact absurd hpresent (by decide)

end Svd2Rust
