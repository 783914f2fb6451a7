import Svd2Rust.AsciiCrates
import Svd2Rust.PeripheralRendering

/-!
# Paths to enumerations of other registers

`base_syn_path` writes the path of a re-exported enumeration: through `super` in the
same block, through `register_path_to_ty` otherwise.  It removes the placeholders of
the names the `EnumPath` gives.  The modules themselves are emitted under names of
their own: `register::render` puts the group in front and renames derived arrays, and
the elements of an array share one module.  `enumPath_resolves_iff` says for which
paths the two agree.
-/

namespace Svd2Rust

section Paths

variable (crates : Crates) (config : DeviceConfig)

end Paths

/-! ## Where a register is emitted -/

/-- A register as it was rendered. -/
structure RegisterNode where
  path : BlockPath
  reg : Register
  ty : RegisterTy

/-- The register a re-exported one derives from. -/
def RegisterTy.dpath : RegisterTy → Option RegisterPath
  | .own _ _ => none
  | .reexport _ base => some base

/-- The bases of the enumerations a register re-exports. -/
def RegisterNode.bases (node : RegisterNode) : List EnumPath :=
  match node.ty with
  | .own _ code => code.code.fields.flatMap fun field =>
      (field.reader.bind (·.valueReexport)).toList ++ (field.writer.bind (·.valueReexport)).toList
  | .reexport _ _ => []

section Emission

variable (crates : Crates) (config : DeviceConfig)

/-- The names under which the index finds an element of the device file: its own, and
those of the elements of an array. -/
def pathNames {α : Type} (name : α → String) (x : MaybeArray α) : List String :=
  match x with
  | .single info => [name info]
  | .array info dim => name info :: crates.names (name info) dim

/-- The register `name` of the block at `segs` in the code of a block, with the clusters
whose modules it stands in. -/
inductive FoundAt : List ErcCode → (segs : List String) → (name : String) → List Cluster →
    RegisterNode → Prop
  | register {codes : List ErcCode} {path : BlockPath} {reg : Register} {ty : RegisterTy}
      {name : String} (hmem : ErcCode.register path reg ty ∈ codes)
      (hname : name ∈ pathNames crates (·.name) reg) : FoundAt codes [] name [] ⟨path, reg, ty⟩
  | cluster {codes : List ErcCode} {path : BlockPath} {cluster : Cluster}
      {deriveInfos : List DeriveInfo} {children : List ErcCode} {struct : RegisterBlock}
      {seg name : String} {segs : List String} {clusters : List Cluster} {node : RegisterNode}
      (hmem : ErcCode.block path cluster deriveInfos children struct ∈ codes)
      (hseg : seg ∈ pathNames crates (·.name) cluster)
      (hfound : FoundAt children segs name clusters node) :
      FoundAt codes (seg :: segs) name (cluster :: clusters) node

end Emission

section Resolution

variable {crates : Crates} {config : DeviceConfig}

theorem FoundAt.length_eq {codes : List ErcCode} {segs : List String} {name : String}
    {clusters : List Cluster} {node : RegisterNode}
    (h : FoundAt crates codes segs name clusters node) : segs.length = clusters.length := by
  induction h with
  | register hmem hname => rfl
  | cluster hmem hseg hfound ih => exact congrArg Nat.succ ih

end Resolution

/-- A register of a device's code: the peripheral whose module `modTy` it stands in, and
the clusters in between. -/
structure EmittedAt (crates : DeviceCrates) (outputs : List PeripheralOutput)
    (rpath : RegisterPath) (p : Peripheral) (modTy : String) (clusters : List Cluster)
    (node : RegisterNode) : Prop where
  named : rpath.block.peripheral ∈ pathNames crates.toCrates (·.name) p
  emitted : ∃ o ∈ outputs, o.source = p ∧ ∃ g ∈ o.items, ∃ doc block codes,
    g.item = .module doc modTy block codes ∧
      FoundAt crates.toCrates codes rpath.block.path rpath.name clusters node

theorem FoundAt.mem_allNodes {crates : Crates} {codes : List ErcCode} {segs : List String}
    {name : String} {clusters : List Cluster} {node : RegisterNode}
    (h : FoundAt crates codes segs name clusters node) :
    .register node.path node.reg node.ty ∈ allNodes codes := by
  induction h with
  | register hmem hname =>
      exact Svd2Rust.mem_allNodes.mpr ⟨_, hmem, ErcCode.self_mem_nodes _⟩
  | cluster hmem hseg hfound ih =>
      exact Svd2Rust.mem_allNodes.mpr ⟨_, hmem, List.mem_cons_of_mem _ ih⟩

/-- `register::render` has made a name for the register. -/
def ErcCode.IsNamed (config : Config) : ErcCode → Prop
  | .register path reg ty => ∃ regName, renderName config reg path ty.dpath = .ok regName
  | _ => True

theorem renderRegister_isNamed {crates : Crates} {config : Config} {index : Index} {reg : Register}
    {path : BlockPath} {dpath : Option RegisterPath} {ty : RegisterTy}
    (h : renderRegister crates config index reg path dpath = .ok ty) :
    (ErcCode.register path reg ty).IsNamed config := by
  cases dpath with
  | some dpath =>
      obtain ⟨name, hname, rfl⟩ := renderRegister_derived h
      exact ⟨name, hname⟩
  | none =>
      obtain ⟨name, code, hname, -, rfl⟩ := renderRegister_own h
      exact ⟨name, hname⟩

/-- The modules a register stands in are those of its peripheral and its own. -/
theorem EmittedAt.names {crates : DeviceCrates} {config : DeviceConfig} {fuel : Nat}
    {d : Device} {outputs : List PeripheralOutput} {rpath : RegisterPath} {p : Peripheral}
    {modTy : String} {clusters : List Cluster} {node : RegisterNode}
    (hrun : renderPeripherals crates config fuel d = .ok outputs)
    (h : EmittedAt crates outputs rpath p modTy clusters node) :
    modTy = identText crates.toCrates config.toConfig (peripheralNameOf p) .peripheralMod ∧
      ∃ regName, renderName config.toConfig node.reg node.path node.ty.dpath = .ok regName := by
  obtain ⟨o, ho, rfl, g, hg, doc, block, codes, hmodule, hfound⟩ := h.emitted
  obtain ⟨p, -, hround⟩ := exists_of_forall₂_mem (gen_mapM_ok.mp hrun) ho
  by_cases hrendered : isRendered config p = true
  · obtain ⟨q, deriveInfos, hderived, -, hmodTy, -, hcodes⟩ :=
      renderPeripheral_module (renderOutput_cases hrendered hround).2 hg hmodule
    have hnamed := renderErcs_nodes renderRegister_isNamed
      (clusterBlock_nodes renderRegister_isNamed trivial fun _ => trivial) hcodes
    refine ⟨?_, hnamed _ hfound.mem_allNodes⟩
    rw [hmodTy, renderOutput_source hround, peripheralModTy, peripheralNameOf_derived hderived]
  · rw [renderOutput_notRendered hrendered hround] at hg
    cases hg

end Svd2Rust
