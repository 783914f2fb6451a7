import Svd2Rust.BaseAddresses
import Svd2Rust.BlockAddresses
import Svd2Rust.ClusterSizes

/-!
# The address map of a peripheral

The generated code reaches a register by a chain of method calls, from the block of
the peripheral through the structs of its clusters.  The device file gives the same
register an address, as the sum of the base address and the offsets on the way down.

`reaches_iff` follows the calls through the tree of blocks, and `addressMap` adds the
address of the instance: in a peripheral whose blocks are all exact, the chains of calls
lead to every register of the device file and to the addresses it gives, and to no others.
A re-exported cluster is where a chain ends; its insides are those of its base.
-/

namespace Svd2Rust

/-- The block of a cluster that has a struct of its own. -/
def ErcCode.inner : ErcCode → Option BlockCode
  | .block path cluster deriveInfos children struct =>
      some ⟨path.newCluster cluster.info.name, children, deriveInfos, struct⟩
  | _ => none

/-- The block itself and all blocks inside it. -/
def BlockCode.blocks (b : BlockCode) : List BlockCode :=
  b :: (allNodes b.children).filterMap ErcCode.inner

/-- A way down the description: an element of a register or cluster, an element of one
inside that cluster, and so on. -/
inductive IsPath : List ErcCode → List (ErcCode × Nat) → Prop
  | last {children : List ErcCode} {child : ErcCode} {i : Nat} (hchild : child ∈ children)
      (hi : i < child.erc.count) : IsPath children [(child, i)]
  | inside {children : List ErcCode} {child : ErcCode} {i : Nat} {inner : BlockCode}
      {path : List (ErcCode × Nat)} (hchild : child ∈ children) (hi : i < child.erc.count)
      (hinner : child.inner = some inner) (hpath : IsPath inner.children path) :
      IsPath children ((child, i) :: path)

/-- The sum of the address offsets on the way. -/
def pathOffset (path : List (ErcCode × Nat)) : Nat :=
  (path.map fun step => step.1.erc.elementOffset step.2).sum

section Paths

variable (crates : Crates) (config : Config) (env : TypeEnv)

/-- A chain of calls, one for each element on the way, and the bytes they add together. -/
inductive Reaches : BlockCode → List (ErcCode × Nat) → Nat → Prop
  | call {b : BlockCode} {child : ErcCode} {i o : Nat}
      (hcall : b.Calls crates config env child i o) : Reaches b [(child, i)] o
  | through {b inner : BlockCode} {child : ErcCode} {i o rest : Nat}
      {path : List (ErcCode × Nat)} (hcall : b.Calls crates config env child i o)
      (hinner : child.inner = some inner) (hrest : Reaches inner path rest) :
      Reaches b ((child, i) :: path) (o + rest)

variable {crates config env}

/-- The blocks inside a cluster of the block are among its blocks. -/
theorem BlockCode.blocks_inner {b inner : BlockCode} {child : ErcCode} (hchild : child ∈ b.children)
    (hinner : child.inner = some inner) : ∀ b' ∈ inner.blocks, b' ∈ b.blocks := by
  have hnode : child ∈ allNodes b.children :=
    mem_allNodes.mpr ⟨child, hchild, child.self_mem_nodes⟩
  intro b' hb'
  refine List.mem_cons_of_mem _ (List.mem_filterMap.mpr ?_)
  rcases List.mem_cons.mp hb' with rfl | hb'
  · exact ⟨child, hnode, hinner⟩
  · obtain ⟨node, hbelow, hnode'⟩ := List.mem_filterMap.mp hb'
    cases child with
    | register path reg ty => cases hinner
    | reexport path cluster base => cases hinner
    | block path cluster deriveInfos children struct =>
        obtain rfl := Option.some.inj hinner
        exact ⟨node, allNodes_below hnode (List.mem_cons_of_mem _ hbelow), hnode'⟩

/-- **Chains of calls.**  In a tree of sound blocks they lead along the ways down the
description, along all of them, and add the address offsets on the way. -/
theorem reaches_iff {b : BlockCode} (h : ∀ b' ∈ b.blocks, b'.Sound crates config env)
    {path : List (ErcCode × Nat)} {o : Nat} :
    Reaches crates config env b path o ↔ IsPath b.children path ∧ o = pathOffset path := by
  constructor
  · intro hreaches
    induction hreaches with
    | @call b child i o hcall =>
        obtain ⟨hchild, hi, rfl⟩ := (h b List.mem_cons_self).calls_iff.mp hcall
        exact ⟨.last hchild hi, by simp [pathOffset]⟩
    | @through b inner child i o rest path hcall hinner _ ih =>
        obtain ⟨hchild, hi, rfl⟩ := (h b List.mem_cons_self).calls_iff.mp hcall
        obtain ⟨hpath, rfl⟩ := ih fun b' hb' => h b' (b.blocks_inner hchild hinner b' hb')
        exact ⟨.inside hchild hi hinner hpath, by simp [pathOffset]⟩
  · intro hpath
    obtain ⟨hpath, rfl⟩ := hpath
    generalize hchildren : b.children = children at hpath
    induction hpath generalizing b with
    | @last children child i hchild hi =>
        have hcall := (h b List.mem_cons_self).calls_iff.mpr ⟨hchildren ▸ hchild, hi, rfl⟩
        simpa [pathOffset] using Reaches.call hcall
    | @inside children child i inner path hchild hi hinner _ ih =>
        have hchild : child ∈ b.children := hchildren ▸ hchild
        have hcall := (h b List.mem_cons_self).calls_iff.mpr ⟨hchild, hi, rfl⟩
        have hrest := @ih inner (fun b' hb' => h b' (b.blocks_inner hchild hinner b' hb')) rfl
        simpa [pathOffset] using Reaches.through hcall hinner hrest

end Paths


/-! ## Rendered peripherals -/

section Rendered

variable {crates : Crates} {config : Config} {index : Index}

/-- The struct of a cluster was emitted for its children, and each has an entry. -/
def ErcCode.HasStruct (crates : Crates) (config : Config) (code : ErcCode) : Prop :=
  ∀ b, code.inner = some b → b.children.length ≤ b.deriveInfos.length ∧
    ∃ name doc size, registerOrClusterBlock crates config (b.children.map ErcCode.erc) b.path
      b.deriveInfos name doc size = .ok b.struct

theorem ErcCode.hasStruct_of_inner_eq_none {code : ErcCode} (h : code.inner = none) :
    code.HasStruct crates config := by
  intro b hb
  rw [h] at hb
  cases hb

theorem renderErcs_length {block : Cluster → BlockPath → Option BlockPath → Gen ErcCode}
    {ercs : List RegisterCluster} {deriveInfos : List DeriveInfo} {path : BlockPath}
    {codes : List ErcCode}
    (h : renderErcs crates config index block ercs deriveInfos path = .ok codes) :
    codes.length ≤ deriveInfos.length := by
  have hlength := (gen_mapM_ok.mp h).length_eq
  rw [List.length_zip] at hlength
  omega

/-- The induction is on the fuel of `cluster_block`, which is what its stack is. -/
theorem clusterBlock_hasStruct {fuel : Nat} {cluster : Cluster} {path : BlockPath}
    {dpath : Option BlockPath} {code : ErcCode}
    (h : clusterBlock crates config index fuel cluster path dpath = .ok code) :
    ∀ node ∈ code.nodes, node.HasStruct crates config := by
  induction fuel generalizing cluster path dpath code with
  | zero => simp [clusterBlock] at h
  | succ fuel ih =>
      cases dpath with
      | some base =>
          obtain rfl := clusterBlock_derived h
          exact List.forall_mem_singleton.mpr (ErcCode.hasStruct_of_inner_eq_none rfl)
      | none =>
          obtain ⟨rendered, deriveInfos, children, struct, rfl, -, -, hname, herc, hchildren,
            hstruct⟩ := clusterBlock_own h
          refine List.forall_mem_cons.mpr ⟨?_, renderErcs_nodes ?_ ih hchildren⟩
          · intro b hb
            obtain rfl := Option.some.inj hb
            obtain ⟨name, doc, hstruct⟩ := hstruct
            rw [herc, ← hname] at hstruct
            exact ⟨renderErcs_length hchildren, name, doc, paddedSize config rendered, hstruct⟩
          · exact fun _ => ErcCode.hasStruct_of_inner_eq_none rfl

theorem renderErcs_hasStruct {fuel : Nat} {ercs : List RegisterCluster}
    {deriveInfos : List DeriveInfo} {path : BlockPath} {codes : List ErcCode}
    (h : renderErcs crates config index (clusterBlock crates config index fuel) ercs deriveInfos
      path = .ok codes) : ∀ node ∈ allNodes codes, node.HasStruct crates config :=
  renderErcs_nodes (fun _ => ErcCode.hasStruct_of_inner_eq_none rfl) clusterBlock_hasStruct h

end Rendered

section Instances

variable {crates : DeviceCrates} {config : DeviceConfig}

/-- The block is the one of the module in the items of a peripheral. -/
structure BlockCode.IsModuleOf (crates : DeviceCrates) (config : DeviceConfig)
    (index : DeviceIndex) (fuel : Nat) (p : Peripheral) (items : List (GatedItem PeripheralItem))
    (b : BlockCode) : Prop where
  module : ∃ q, takeDerivedPeripheral crates index p = .ok (q, none) ∧
    b.path = .new q.info.name ∧
    checkErcDeriveInfos crates.toCrates config.toConfig index.toIndex fuel b.path
      (q.info.registers.getD []) = .ok b.deriveInfos
  item : ∃ cfg doc modTy, ⟨cfg, .module doc modTy b.struct b.children⟩ ∈ items

/-- The items of a module and its struct are those of its children. -/
theorem BlockCode.IsModuleOf.emitted {index : DeviceIndex} {fuel : Nat} {p : Peripheral}
    {items : List (GatedItem PeripheralItem)} {b : BlockCode}
    (h : renderPeripheral crates config index fuel p = .ok items)
    (hb : b.IsModuleOf crates config index fuel p items) :
    ∃ ercs, renderErcs crates.toCrates config.toConfig index.toIndex
        (clusterBlock crates.toCrates config.toConfig index.toIndex fuel) ercs b.deriveInfos
        b.path = .ok b.children ∧
      ∃ name doc size, registerOrClusterBlock crates.toCrates config.toConfig
        (b.children.map ErcCode.erc) b.path b.deriveInfos name doc size = .ok b.struct := by
  obtain ⟨⟨q, hq, hpath, hinfos⟩, cfg, doc, modTy, hitem⟩ := hb
  obtain ⟨q', path, html, instances, hderived, hinstances, htail⟩ := renderPeripheral_cases h
  obtain ⟨rfl, rfl⟩ := Prod.mk.inj (Except.ok.inj (hq.symm.trans hderived))
  cases htail with
  | dropped hempty => cases hitem
  | own doc' hregisters hinfos' hmodItems hblock =>
      have hmodule := congrArg (·.item) ((renderInstances_ok hinstances).eq_last hitem rfl)
      obtain ⟨-, -, hstruct, hchildren⟩ := PeripheralItem.module.inj hmodule
      rw [← hpath, hinfos] at hinfos'
      obtain rfl := Except.ok.inj hinfos'
      rw [← hstruct, ← hchildren, ← hpath] at hblock
      rw [← hchildren, ← hpath] at hmodItems
      exact ⟨_, hmodItems, _, _, _, hblock⟩

/-- The blocks of a module were emitted for their children. -/
theorem BlockCode.IsModuleOf.sound {index : DeviceIndex} {fuel : Nat} {p : Peripheral}
    {items : List (GatedItem PeripheralItem)} {b : BlockCode}
    (h : renderPeripheral crates config index fuel p = .ok items)
    (hb : b.IsModuleOf crates config index fuel p items) {env : TypeEnv}
    (hexact : ∀ b' ∈ b.blocks, b'.Exact crates.toCrates config.toConfig env) :
    ∀ b' ∈ b.blocks, b'.Sound crates.toCrates config.toConfig env := by
  obtain ⟨ercs, hmodItems, hblock⟩ := hb.emitted h
  intro b' hb'
  rcases List.mem_cons.mp hb' with rfl | hinner
  · exact ⟨hexact b' hb', hblock, renderErcs_length hmodItems⟩
  · obtain ⟨node, hnode, hinner⟩ := List.mem_filterMap.mp hinner
    obtain ⟨hlength, hstruct⟩ := renderErcs_hasStruct hmodItems node hnode b' hinner
    exact ⟨hexact b' hb', hstruct, hlength⟩

/-- **Address map.**  In the module of a peripheral whose blocks are all exact, the chains of
calls from an instance lead to the elements the device file describes and to no others, and to
the address it gives each: the shifted base address of the instance and the offsets on the
way.  A call adds the offset at which the compiler lays out the field it selects, and in an
exact block that is the offset of the description; the chains and the paths then agree level
by level, and the instances carry the shifted bases. -/
theorem addressMap (hkeep : crates.KeepAddresses) {index : DeviceIndex} {fuel : Nat}
    {p : Peripheral} {items : List (GatedItem PeripheralItem)}
    (h : renderPeripheral crates config index fuel p = .ok items) {b : BlockCode}
    (hb : b.IsModuleOf crates config index fuel p items) {env : TypeEnv}
    (hexact : ∀ b' ∈ b.blocks, b'.Exact crates.toCrates config.toConfig env) (name : String)
    (path : List (ErcCode × Nat)) (address : Nat) :
    (∃ base o, (name, base) ∈ emittedInstances items ∧
      Reaches crates.toCrates config.toConfig env b path o ∧ address = base + o) ↔
    ∃ inst base, (inst, base) ∈ (instanceNames crates p).zip (instanceBases p) ∧
      name = identText crates.toCrates config.toConfig inst .peripheral ∧ IsPath b.children path ∧
      address = base + config.baseAddressShift + pathOffset path := by
  have hitems : items ≠ [] := by
    obtain ⟨cfg, doc, modTy, hitem⟩ := hb.item
    exact List.ne_nil_of_mem hitem
  simp only [renderPeripheral_emitted hkeep h hitems, reaches_iff (hb.sound h hexact),
    shiftedInstances, List.mem_map, Prod.mk.injEq, Prod.exists]
  constructor
  · intro hcode
    obtain ⟨_, _, ⟨inst, base, hinst, rfl, rfl⟩, ⟨hpath, rfl⟩, rfl⟩ := hcode
    exact ⟨inst, base, hinst, rfl, hpath, rfl⟩
  · intro hfile
    obtain ⟨inst, base, hinst, rfl, hpath, rfl⟩ := hfile
    exact ⟨_, _, ⟨inst, base, hinst, rfl, rfl⟩, ⟨hpath, rfl⟩, rfl⟩

end Instances

/-! ## Two controllers with channels -/

/-- Two controllers with two channels each, two registers at one address and an array
with gaps. -/
def dmaPeripheral : Peripheral :=
  .array { plainPeripheral "DMA%s" with
    baseAddress := 0x40000000
    registers := some [
      .cluster (.array ⟨"CH%s", none, 0, [
        .register (.single (plainRegister "CTRL" 0 32)),
        .register (.single (plainRegister "DATA" 4 32))], none⟩ (countedDim 2 8)),
      .register (.single (plainRegister "CR" 16 32)),
      .register (.single (plainRegister "SR" 16 32)),
      .register (.array (plainRegister "BUF%s" 32 32) (countedDim 4 8))] }
    (countedDim 2 0x400)

def dmaIndex : DeviceIndex := asciiDeviceCrates.indexCreate [dmaPeripheral]

/-- The items of the controllers. -/
def dmaItems : List (GatedItem PeripheralItem) :=
  match renderPeripheral asciiDeviceCrates defaultDeviceConfig dmaIndex 3 dmaPeripheral with
  | .ok items => items
  | .error _ => []

/-- The block of the module among the items, the last of them. -/
def moduleBlock (items : List (GatedItem PeripheralItem)) (path : BlockPath)
    (deriveInfos : List DeriveInfo) : BlockCode :=
  match items.getLast? with
  | some ⟨_, .module _ _ block codes⟩ => ⟨path, codes, deriveInfos, block⟩
  | _ => ⟨path, [], deriveInfos, ⟨"", "", none, [], []⟩⟩

def dmaBlock : BlockCode := moduleBlock dmaItems (.new "DMA%s") [.cluster, .root, .root, .root]

theorem dmaBlock_isModuleOf :
    dmaBlock.IsModuleOf asciiDeviceCrates defaultDeviceConfig dmaIndex 3 dmaPeripheral dmaItems :=
  ⟨⟨dmaPeripheral, rfl, rfl, rfl⟩, _, _, _, List.mem_of_getLast? rfl⟩

instance (footprints : List Footprint) (p : Footprint) : Decidable (Alone footprints p) :=
  inferInstanceAs (Decidable (_ ≤ 1))

instance (footprints : List Footprint) : Decidable (NoShiftedOverlap footprints) :=
  inferInstanceAs (Decidable (List.Pairwise _ footprints))

/-- The conditions on an exact block, for a block one can compute. -/
def ExactHere (b : BlockCode) : Prop :=
  (∀ entry ∈ b.children.zip b.deriveInfos,
    ∀ p ∈ ercFootprints defaultConfig entry.1.erc entry.2 b.path,
      (ercPlacement defaultConfig b.path entry.1.erc entry.2).isProxy = false →
      Alone (blockFootprints defaultConfig (b.children.map ErcCode.erc) b.path b.deriveInfos) p →
        (entry.1.layout asciiCrates defaultConfig naturalEnv).size =
            bytesOfBits (ercBits defaultConfig b.path entry.1.erc) ∧
          (entry.1.layout asciiCrates defaultConfig naturalEnv).align ∣ p.start) ∧
    NoShiftedOverlap
      (blockFootprints defaultConfig (b.children.map ErcCode.erc) b.path b.deriveInfos) ∧
    (b.struct.methods.map (·.name)).Nodup

instance (b : BlockCode) : Decidable (ExactHere b) := inferInstanceAs (Decidable (_ ∧ _))

theorem ExactHere.exact {b : BlockCode} (h : ExactHere b) :
    b.Exact asciiCrates defaultConfig naturalEnv := ⟨h.1, h.2.1, h.2.2⟩

theorem dmaBlock_exact : ∀ b ∈ dmaBlock.blocks, ExactHere b := by decide +kernel

/-- The data register of the second channel of the second controller is at the address
that the device file gives it. -/
theorem addressMap_dma :
    ∃ channel inner data, dmaBlock.children[0]? = some channel ∧ channel.inner = some inner ∧
      inner.children[1]? = some data ∧
      ∃ base o, ("Dma1", base) ∈ emittedInstances dmaItems ∧
        Reaches asciiCrates defaultConfig naturalEnv dmaBlock [(channel, 1), (data, 0)] o ∧
        0x4000040C = base + o := by
  refine ⟨_, _, _, rfl, rfl, rfl, ?_⟩
  have hrender : renderPeripheral asciiDeviceCrates defaultDeviceConfig dmaIndex 3 dmaPeripheral =
      .ok dmaItems := rfl
  refine (addressMap asciiDeviceCrates_keepAddresses hrender dmaBlock_isModuleOf
    (fun b hb => (dmaBlock_exact b hb).exact) "Dma1" _ 0x4000040C).mpr ⟨"DMA1", 0x40000400, ?_, rfl, ?_, rfl⟩
  · exact List.mem_cons_of_mem _ List.mem_cons_self
  · exact .inside List.mem_cons_self (by decide) rfl
      (.last (List.mem_cons_of_mem _ List.mem_cons_self) (by decide))

end Svd2Rust
