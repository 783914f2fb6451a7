import Svd2Rust.AddressMap
import Svd2Rust.ByteMemory
import Svd2Rust.RegisterRuns

/-!
# Programs on the memory of a device

A program reaches its registers by chains of calls, each from an instance of some
peripheral, and works on them in any order.  Every operation loads the register from the
address its chain leads to and stores it there.

`deviceRun_refines` follows such a program from the description to the fields.  The bytes
at the address that the device file gives a register are, field by field, what the
operations on that register make of them, in the documented meaning of the operations;
those on other registers in between do not matter, and bytes of no register of the
program stay as they are.
-/

namespace Svd2Rust

open BitFields ByteMemory StepRuns WordCells

/-! ## Registers of the modules -/

section Registers

variable {crates : Crates} {config : Config} {index : Index}

/-- The code of a register with a module of its own is that of its fields. -/
def ErcCode.HasFields (crates : Crates) (config : Config) (index : Index) : ErcCode → Prop
  | .register path reg (.own _ code) => ∃ access,
      renderRegisterMod crates config reg access (path.newRegister reg.info.name) index = .ok code
  | _ => True

theorem renderRegister_hasFields {reg : Register} {path : BlockPath} {dpath : Option RegisterPath}
    {ty : RegisterTy} (h : renderRegister crates config index reg path dpath = .ok ty) :
    (ErcCode.register path reg ty).HasFields crates config index := by
  cases dpath with
  | some dpath =>
      obtain ⟨name, -, rfl⟩ := renderRegister_derived h
      trivial
  | none =>
      obtain ⟨name, code, -, hcode, rfl⟩ := renderRegister_own h
      exact ⟨_, hcode⟩

theorem renderErcs_hasFields {fuel : Nat} {ercs : List RegisterCluster}
    {deriveInfos : List DeriveInfo} {path : BlockPath} {codes : List ErcCode}
    (h : renderErcs crates config index (clusterBlock crates config index fuel) ercs deriveInfos
      path = .ok codes) : ∀ node ∈ allNodes codes, node.HasFields crates config index :=
  renderErcs_nodes renderRegister_hasFields
    (clusterBlock_nodes renderRegister_hasFields trivial fun _ => trivial) h

/-- A way down ends at a node of the tree. -/
theorem IsPath.last_mem {children : List ErcCode} {path : List (ErcCode × Nat)}
    (h : IsPath children path) {node : ErcCode} {i : Nat} (hlast : path.getLast? = some (node, i)) :
    node ∈ allNodes children := by
  induction h with
  | @last children child j hchild hj =>
      obtain ⟨rfl, -⟩ := Prod.mk.inj (Option.some.inj hlast)
      exact mem_allNodes.mpr ⟨child, hchild, child.self_mem_nodes⟩
  | @inside children child j inner path hchild hj hinner hpath ih =>
      have hne : path ≠ [] := by
        cases hpath <;> exact List.cons_ne_nil _ _
      rw [List.getLast?_cons, Option.some.injEq, List.getLast?_eq_some_getLast hne,
        Option.getD_some] at hlast
      have hnode := ih (by rw [List.getLast?_eq_some_getLast hne, hlast])
      refine mem_allNodes.mpr ⟨child, hchild, ?_⟩
      cases child with
      | register path reg ty => cases hinner
      | reexport path cluster base => cases hinner
      | block path cluster deriveInfos children struct =>
          obtain rfl := Option.some.inj hinner
          exact List.mem_cons_of_mem _ hnode

end Registers

/-! ## References -/

section Device

variable (crates : DeviceCrates) (config : DeviceConfig) (index : DeviceIndex) (env : TypeEnv)

/-- A peripheral and the items it was rendered to. -/
structure RenderedPeripheral where
  fuel : Nat
  source : Peripheral
  items : List (GatedItem PeripheralItem)
  rendered : renderPeripheral crates config index fuel source = .ok items

/-- A peripheral with a module of its own, all of whose blocks are exact. -/
structure OwnModule extends RenderedPeripheral crates config index where
  modTy : String
  block : BlockCode
  isModule : block.IsModuleOf crates config index fuel source items
  item : ∃ cfg doc, ⟨cfg, .module doc modTy block.struct block.children⟩ ∈ items
  isExact : ∀ b ∈ block.blocks, b.Exact crates.toCrates config.toConfig env

/-- A reference to a register with a module of its own: a chain of calls from an instance
whose `PeripheralSpec` names the module.  The instance may be that of another peripheral,
which derives from the owner of the module. -/
structure RegisterRef where
  owner : OwnModule crates config index env
  inst : RenderedPeripheral crates config index
  name : String
  base : Nat
  emitted : ∃ cfg spec, ⟨cfg, .specImpl spec owner.modTy base name⟩ ∈ inst.items
  path : List (ErcCode × Nat)
  offset : Nat
  reaches : Reaches crates.toCrates config.toConfig env owner.block path offset
  blockPath : BlockPath
  register : Register
  ty : String
  code : RegisterCode
  last : ∃ i, path.getLast? = some (.register blockPath register (.own ty code), i)

namespace RegisterRef

variable {crates config index env} (r : RegisterRef crates config index env)

def address : Nat := r.base + r.offset

/-- The size of the storage type. -/
abbrev bits : Nat := r.code.rty.bits

/-- The device file describes the register at that address. -/
structure DescribedAt (address : Nat) : Prop where
  isPath : IsPath r.owner.block.children r.path
  isInstance : ∃ inst base, (inst, base) ∈
      (instanceNames crates r.inst.source).zip (instanceBases r.inst.source) ∧
    r.name = identText crates.toCrates config.toConfig inst .peripheral ∧
    address = base + config.baseAddressShift + pathOffset r.path

theorem describedAt (hkeep : crates.KeepAddresses) : r.DescribedAt r.address := by
  have hsound := r.owner.isModule.sound r.owner.rendered r.owner.isExact
  obtain ⟨hpath, hoffset⟩ := (reaches_iff hsound).mp r.reaches
  obtain ⟨cfg, spec, hitem⟩ := r.emitted
  have hemitted : (r.name, r.base) ∈ emittedInstances r.inst.items :=
    List.mem_filterMap.mpr ⟨_, hitem, rfl⟩
  rw [renderPeripheral_emitted hkeep r.inst.rendered (List.ne_nil_of_mem hitem)] at hemitted
  obtain ⟨⟨inst, base⟩, hinst, heq⟩ := List.mem_map.mp hemitted
  obtain ⟨hname, hbase⟩ := Prod.mk.inj heq
  exact ⟨hpath, inst, base, hinst, hname.symm, by rw [address, ← hbase, hoffset]⟩

theorem hasFields : ∃ access, renderRegisterMod crates.toCrates config.toConfig r.register access
    (r.blockPath.newRegister r.register.info.name) index.toIndex = .ok r.code := by
  have hsound := r.owner.isModule.sound r.owner.rendered r.owner.isExact
  obtain ⟨hpath, -⟩ := (reaches_iff hsound).mp r.reaches
  obtain ⟨ercs, hercs, -⟩ := r.owner.isModule.emitted r.owner.rendered
  obtain ⟨i, hlast⟩ := r.last
  exact renderErcs_hasFields hercs _ (hpath.last_mem hlast)

/-- Storage types are made of bytes. -/
theorem bytes : 8 ∣ r.bits := by
  obtain ⟨access, hrender⟩ := r.hasFields
  obtain ⟨-, size, -, hrty⟩ := renderRegisterMod_ok hrender
  have hall : ∀ rty : RustTy, rty ≠ .bool → 8 ∣ rty.bits := by
    intro rty
    cases rty <;> decide
  refine hall _ fun hbool => ?_
  have hone : registerSize size = 1 := by rw [← toTy_registerSize hrty, hbool]; rfl
  have hsmall : size < 8 := by
    have hround := le_registerSize size
    omega
  -- sizes below a byte are rounded up to one
  rw [registerSize, if_pos hsmall] at hone
  cases hone

end RegisterRef

/-! ## Runs -/

section Runs

variable {κ : Type} (penv : ProxyEnv) {crates config index env}
  (refs : κ → RegisterRef crates config index env) (hw : ∀ k, Hardware (refs k).bits)

/-- What an operation does to the register behind a reference. -/
def refStep (k : κ) : BitVec (refs k).bits → RegEvent (refs k).bits → BitVec (refs k).bits → Prop :=
  RegStep penv (refs k).code.code.fields ((refs k).code.spec (refs k).bits) (hw k)

/-- Operations of a program one after the other, each on one of its registers. -/
abbrev DeviceRun : Memory → List (Σ k, RegEvent (refs k).bits) → Memory → Prop :=
  Run (WordStep (fun k => (refs k).address) (refStep penv refs hw))

/-- The bytes of a register. -/
abbrev refSpan (k : κ) : Span := wordSpan (fun k => (refs k).bits) (fun k => (refs k).address) k

variable {penv refs hw} {m m' : Memory} {events : List (Σ k, RegEvent (refs k).bits)}

/-- **Frame.**  Bytes of no register of the program stay. -/
theorem DeviceRun.frame (h : DeviceRun penv refs hw m events m') {a : Nat}
    (hout : ∀ ev ∈ events, ¬ (refSpan refs ev.1).Has a) : m' a = m a := frame_run h hout

/-- **Programs.**  In a program whose other registers have other bytes than `k`, the bytes
where the device file has the register `k` hold, field by field, what the operations on `k`
make of its fields, and nothing outside of the registers of the program changes.  Steps on
registers with other bytes leave the register `k` as it is, so that the run projects to one of
`k` alone, and that register refines the store of its fields. -/
theorem deviceRun_refines [DecidableEq κ] (hkeep : crates.KeepAddresses)
    (hunion : BitmaskIsUnion crates.toCrates) (h : DeviceRun penv refs hw m events m') {k : κ}
    (hapart : ∀ ev ∈ events, ev.1 ≠ k → (refSpan refs k).Apart (refSpan refs ev.1))
    (hwidths : OwnWidths (refs k).code.code.fields penv)
    (hcells : WordCells.Apart (refs k).bits (Element.cell (refs k).code.code.fields)
      (IsElement crates.toCrates (refs k).code.code.fields))
    (hfollows : FollowsKinds crates.toCrates (refs k).register.info.modifiedWriteValues
      (refs k).code.code.fields (hw k)) :
    ∃ address, (refs k).DescribedAt address ∧
      (∀ e, IsElement crates.toCrates (refs k).code.code.fields e →
        FieldStore.of (refs k).code.code.fields (load (refs k).bits m' address) e =
          (eventsOn k events).foldl
            (FieldStore.apply penv (refs k).register.info.modifiedWriteValues
              (refs k).code.code.fields ((refs k).code.spec (refs k).bits))
            (FieldStore.of (refs k).code.code.fields (load (refs k).bits m address)) e) ∧
      ∀ a, (∀ ev ∈ events, ¬ (refSpan refs ev.1).Has a) → m' a = m a := by
  obtain ⟨access, hrender⟩ := (refs k).hasFields
  have hrun : RegRun penv (refs k).code.code.fields ((refs k).code.spec (refs k).bits) (hw k) _
    (eventsOn k events) _ := project_run h (refs k).bytes hapart
  refine ⟨_, (refs k).describedAt hkeep, fun e he => ?_, fun a hout => h.frame hout⟩
  exact (hrun.agrees (renderRegisterMod_ok hrender).1 hunion hwidths hcells hfollows
    (fun _ _ => rfl) e he).symm

end Runs

end Device

/-! ## Two ports -/

/-- Two ports with two registers of the same fields each. -/
def portPeripheral : Peripheral :=
  .array { plainPeripheral "PORT%s" with
    baseAddress := 0x40000000
    registers := some [
      .register (.single lineRegister),
      .register (.single { lineRegister with name := "LR2", addressOffset := 1 })] }
    (countedDim 2 0x400)

def portIndex : DeviceIndex := asciiDeviceCrates.indexCreate [portPeripheral]

def portItems : List (GatedItem PeripheralItem) :=
  match renderPeripheral asciiDeviceCrates defaultDeviceConfig portIndex 3 portPeripheral with
  | .ok items => items
  | .error _ => []

def portBlock : BlockCode := moduleBlock portItems (.new "PORT%s") [.root, .root]

theorem portBlock_exact : ∀ b ∈ portBlock.blocks, ExactHere b := by decide +kernel

def portModule : OwnModule asciiDeviceCrates defaultDeviceConfig portIndex naturalEnv where
  fuel := 3
  source := portPeripheral
  items := portItems
  rendered := rfl
  modTy := "port"
  block := portBlock
  isModule := ⟨⟨portPeripheral, rfl, rfl, rfl⟩, _, _, _, List.mem_of_getLast? rfl⟩
  item := ⟨_, _, List.mem_of_getLast? rfl⟩
  isExact := fun b hb => (portBlock_exact b hb).exact

/-- The two registers of a port. -/
def portChild (second : Bool) : ErcCode :=
  .register (.new "PORT%s")
    (.single (if second then { lineRegister with name := "LR2", addressOffset := 1 } else lineRegister))
    (.own (if second then "Lr2" else "Lr") lineCode)

theorem portChild_mem (second : Bool) : portChild second ∈ portBlock.children := by
  cases second
  · exact List.mem_cons_self
  · exact List.mem_cons_of_mem _ List.mem_cons_self

theorem portChild_path (second : Bool) : IsPath portBlock.children [(portChild second, 0)] := by
  refine .last (portChild_mem second) ?_
  cases second <;> decide

/-- The first register of the first port, and the second one of the second. -/
def portRef (second : Bool) : RegisterRef asciiDeviceCrates defaultDeviceConfig portIndex naturalEnv where
  owner := portModule
  inst := portModule.toRenderedPeripheral
  name := if second then "Port1" else "Port0"
  base := if second then 0x40000400 else 0x40000000
  emitted := by
    cases second
    · exact ⟨_, _, List.mem_of_getElem? (rfl : portItems[2]? = some _)⟩
    · exact ⟨_, _, List.mem_of_getElem? (rfl : portItems[5]? = some _)⟩
  path := [(portChild second, 0)]
  offset := second.toNat
  reaches := by
    refine (reaches_iff (portModule.isModule.sound portModule.rendered portModule.isExact)).mpr
      ⟨portChild_path second, ?_⟩
    cases second <;> rfl
  blockPath := .new "PORT%s"
  register := .single (if second then { lineRegister with name := "LR2", addressOffset := 1 }
    else lineRegister)
  ty := if second then "Lr2" else "Lr"
  code := lineCode
  last := ⟨0, rfl⟩

def portHardware (second : Bool) : Hardware (portRef second).bits := lineHardware

/-- MODE of the first register becomes 5, the flag of the second one is cleared, and so is
that of the first. -/
def portEvents : List (Σ second, RegEvent (portRef second).bits) :=
  [⟨false, .modify [.field ⟨0, 0, 0, .bits 5⟩]⟩,
    ⟨true, .modify [.field ⟨1, 0, 0, .method .clearBitByOne⟩]⟩,
    ⟨false, .modify [.field ⟨1, 0, 0, .method .clearBitByOne⟩]⟩]

def portStart : Memory := fun a =>
  if a = 0x40000000 then 0x48 else if a = 0x40000401 then 0x41 else 0

def portEnd : Memory :=
  store (store (store portStart 0x40000000 (0x45 : BitVec lineCode.rty.bits)) 0x40000401
    (0x01 : BitVec lineCode.rty.bits)) 0x40000000 (0x05 : BitVec lineCode.rty.bits)

theorem portStep {second : Bool} {m : Memory} {b v b' : BitVec lineCode.rty.bits}
    {calls : List (ClosureCall lineCode.rty.bits)}
    (hload : load lineCode.rty.bits m (portRef second).address = b)
    (hv : runClosure modeEnv lineCode.code.fields (startWord (lineCode.spec lineCode.rty.bits) b)
      calls = .ok v) (hreacts : lineHardware b v b') :
    WordStep (fun k => (portRef k).address) (refStep modeEnv portRef portHardware) m
      ⟨second, .modify calls⟩ (store m (portRef second).address b') := by
  subst hload
  exact .on (.of_runClosure hv hreacts)

theorem portRun : DeviceRun modeEnv portRef portHardware portStart portEvents portEnd := by
  have hfirst : lineHardware 0x48 0x85 0x45 := by unfold lineHardware; decide +kernel
  have hsecond : lineHardware 0x41 0xC1 0x01 := by unfold lineHardware; decide +kernel
  have hthird : lineHardware 0x45 0xC5 0x05 := by unfold lineHardware; decide +kernel
  exact .cons (portStep (by decide +kernel) rfl hfirst) (.cons (portStep (by decide +kernel) rfl
    hsecond) (.cons (portStep (by decide +kernel) rfl hthird) .nil))

theorem portRefs_apart : ∀ ev ∈ portEvents, ev.1 ≠ false →
    (refSpan portRef false).Apart (refSpan portRef ev.1) := by
  have hall : ∀ second, second ≠ false → (refSpan portRef false).Apart (refSpan portRef second) := by
    decide +kernel
  exact fun ev _ => hall ev.1

/-- The first register of the first port is what its two operations make of it. -/
theorem deviceRun_refines_port : ∃ address, (portRef false).DescribedAt address ∧
    (∀ e, IsElement asciiCrates lineCode.code.fields e →
      FieldStore.of lineCode.code.fields (load lineCode.rty.bits portEnd address) e =
        [RegEvent.modify [.field ⟨0, 0, 0, .bits 5⟩],
            .modify [.field ⟨1, 0, 0, .method .clearBitByOne⟩]].foldl
          (FieldStore.apply modeEnv none lineCode.code.fields (lineCode.spec lineCode.rty.bits))
          (FieldStore.of lineCode.code.fields (load lineCode.rty.bits portStart address)) e) ∧
    ∀ a, (∀ ev ∈ portEvents, ¬ (refSpan portRef ev.1).Has a) → portEnd a = portStart a :=
  deviceRun_refines asciiDeviceCrates_keepAddresses bitmaskIsUnion_asciiCrates portRun
    portRefs_apart lineCode_ownWidths lineCode_apart.apart kindsHardware_followsKinds

end Svd2Rust
