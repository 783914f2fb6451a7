import Svd2Rust.BlockEmission
import Svd2Rust.DeriveInfos
import Svd2Rust.FieldRendering
import Svd2Rust.RegisterNames

/-!
# Rendering the registers and clusters of a block

`render_ercs` resolves the `derivedFrom` of every register and cluster of a block
and emits their types; `cluster_block` does the same for the children of a
cluster and closes with the cluster's own struct.  Both change the description
in place, so the code of a cluster keeps the cluster as it is afterwards: that is
what the block around it reserves space for.

The children of a cluster may be those of the cluster it derives from, which a
device may close to a cycle, so `clusterBlock` gets fuel for its stack.
-/

namespace Svd2Rust

open RustStrings

/-- `BlockPath::parent`. -/
def BlockPath.parent (path : BlockPath) : Option BlockPath :=
  if path.path = [] then none else some ⟨path.peripheral, path.path.dropLast⟩

/-- `util::access_of`. -/
def accessOf (properties : RegisterProperties) (fields : Option (List Field)) : Access :=
  properties.access.getD <| match fields with
    | some fields =>
        if fields.all (·.info.access = some .readOnly) then .readOnly
        else if fields.all (·.info.access = some .writeOnce) then .writeOnce
        else if fields.all (·.info.access = some .readWriteOnce) then .readWriteOnce
        else if fields.all fun f =>
          f.info.access = some .writeOnly || f.info.access = some .writeOnce then .writeOnly
        else .readWrite
    | none => .readWrite

/-- The type of a register: a new one with its module, or a re-export. -/
inductive RegisterTy where
  | own (ty : String) (code : RegisterCode)
  | reexport (ty : String) (base : RegisterPath)
deriving DecidableEq, Repr

/-- The code of a register or cluster of the block at `path`, with the register or
cluster as rendering leaves it.  A cluster is re-exported from its base or has a
struct of its own. -/
inductive ErcCode where
  | register (path : BlockPath) (reg : Register) (ty : RegisterTy)
  | reexport (path : BlockPath) (cluster : Cluster) (base : BlockPath)
  | block (path : BlockPath) (cluster : Cluster) (deriveInfos : List DeriveInfo)
      (children : List ErcCode) (struct : RegisterBlock)

def ErcCode.path : ErcCode → BlockPath
  | .register path _ _ => path
  | .reexport path _ _ => path
  | .block path _ _ _ _ => path

def ErcCode.erc : ErcCode → RegisterCluster
  | .register _ reg _ => .register reg
  | .reexport _ cluster _ => .cluster cluster
  | .block _ cluster _ _ _ => .cluster cluster

def ErcCode.isRegister : ErcCode → Bool
  | .register _ _ _ => true
  | _ => false

mutual

/-- The code itself and everything in it. -/
def ErcCode.nodes : ErcCode → List ErcCode
  | .register path reg ty => [.register path reg ty]
  | .reexport path cluster base => [.reexport path cluster base]
  | .block path cluster deriveInfos children struct =>
      .block path cluster deriveInfos children struct :: allNodes children

def allNodes : List ErcCode → List ErcCode
  | [] => []
  | code :: rest => code.nodes ++ allNodes rest

end

section Rendering

variable (crates : Crates) (config : Config) (index : Index)

/-- The identifiers of the type and the module that are re-exported: those of the block of
the base, unless it is the block itself, and two for the name of the base. -/
def derivedIdents (path block : BlockPath) (base : Gen String) (ty module_ : IdentKind) :
    Gen (List String) := do
  let derived ← if block = path then pure [] else blockPathIdents crates config block
  let dname ← base
  let ty ← ident crates config dname ty
  let modTy ← ident crates config dname module_
  return derived ++ [ty, modTy]

/-- `register::render`. -/
def renderRegister (register : Register) (path : BlockPath) (dpath : Option RegisterPath) :
    Gen RegisterTy := do
  let ty ← renderTy crates config register path dpath
  let name ← renderName config register path dpath
  let _modTy ← ident crates config name .registerMod
  match dpath with
  | some dpath => do
      let _derived ← derivedIdents crates config path dpath.block
        (return nameOf (← unwrap (index.registers dpath)) config.ignoreGroups)
        .register .registerMod
      return .reexport ty dpath
  | none => do
      let _regspecTy ← ident crates config name .registerSpec
      let access := accessOf register.info.properties register.info.fields
      if access.canRead || access.canWrite then do
        let code ← renderRegisterMod crates config register access
          (path.newRegister register.info.name) index
        return .own ty code
      else bail ("Incorrect access of register " ++ register.info.name)

/-- The register after its `derivedFrom` was taken and resolved; one that derives
implicitly keeps it. -/
def takeDerivedRegister (reg : Register) (path : BlockPath) (deriveInfo : DeriveInfo) :
    Gen (Register × Option RegisterPath) :=
  match deriveInfo, reg.info.derivedFrom with
  | .implicit rpath, _ => return (reg, some rpath)
  | _, some dpath =>
      crates.deriveRegister (reg.mapInfo fun info => { info with derivedFrom := none }) dpath path
        index
  | _, none => return (reg, none)

/-- The cluster after its `derivedFrom` was taken and resolved. -/
def takeDerivedCluster (cluster : Cluster) (path : BlockPath) :
    Gen (Cluster × Option BlockPath) :=
  match cluster.info.derivedFrom with
  | some dpath =>
      crates.deriveCluster (cluster.mapInfo fun info => { info with derivedFrom := none }) dpath
        path index
  | none => return (cluster, none)

/-- One round of the loop of `render_ercs`, which calls `cluster_block`. -/
def renderErc (clusterBlock : Cluster → BlockPath → Option BlockPath → Gen ErcCode)
    (path : BlockPath) (erc : RegisterCluster) (deriveInfo : DeriveInfo) : Gen ErcCode :=
  match erc with
  | .cluster cluster => do
      let (cluster, cpath) ← takeDerivedCluster crates index cluster path
      clusterBlock cluster path cpath
  | .register reg => do
      let (reg, rpath) ← takeDerivedRegister crates index reg path deriveInfo
      let ty ← withContext ("can't render register '" ++ reg.info.name ++ "'")
        (renderRegister crates config index reg path rpath)
      return .register path reg ty

/-- `render_ercs`. -/
def renderErcs (clusterBlock : Cluster → BlockPath → Option BlockPath → Gen ErcCode)
    (ercs : List RegisterCluster) (deriveInfos : List DeriveInfo) (path : BlockPath) :
    Gen (List ErcCode) :=
  (ercs.zip deriveInfos).mapM fun (erc, deriveInfo) =>
    renderErc crates config index clusterBlock path erc deriveInfo

/-- `cluster_size` in `cluster_block`: the bytes an array element is padded to. -/
def paddedSize (cluster : Cluster) : Option Nat :=
  match cluster with
  | .array _ dim => if config.maxClusterSize then some dim.dimIncrement else none
  | .single _ => none

/-- The documentation of a cluster. -/
def clusterDoc (cluster : Cluster) : String :=
  escapeSpecialChars (respace (cluster.info.description.getD cluster.info.name))

/-- `mod_ty` and `block_ty` of `cluster_block`. -/
def clusterIdents (cluster : Cluster) : Gen (String × String) := do
  let modTy ← ident crates config (removeDim cluster.info.name) .clusterMod
  let blockTy ← ident crates config (removeDim cluster.info.name) .cluster
  return (modTy, blockTy)

/-- `cluster_block`.  `check_erc_derive_infos` has an entry for every child, so
`render_ercs` leaves out none. -/
def clusterBlock : (fuel : Nat) → Cluster → BlockPath → Option BlockPath → Gen ErcCode
  | 0, _, _, _ => panicking "stack overflow"
  | _ + 1, cluster, path, some dpath => do
      let _tys ← clusterIdents crates config cluster
      let dparent ← unwrap dpath.parent
      let _derived ← derivedIdents crates config path dparent
        (return removeDim (← unwrap (index.clusters dpath)).info.name) .cluster .clusterMod
      return .reexport path cluster dpath
  | fuel + 1, cluster, path, none => do
      let _tys ← clusterIdents crates config cluster
      let cpath := path.newCluster cluster.info.name
      let deriveInfos ←
        checkErcDeriveInfos crates config index fuel cpath cluster.info.children
      let children ←
        renderErcs crates config index (clusterBlock fuel) cluster.info.children deriveInfos cpath
      let rendered :=
        cluster.mapInfo fun info => { info with children := children.map ErcCode.erc }
      let struct ← registerOrClusterBlock crates config rendered.info.children cpath deriveInfos
        (some (removeDim cluster.info.name)) (clusterDoc cluster) (paddedSize config cluster)
      return .block path rendered deriveInfos children struct

end Rendering
/-! ## What rendering guarantees -/

section Rendered

variable {crates : Crates} {config : Config} {index : Index}

/-- What is known of the code of a register or cluster that was rendered: the type
of a register has its storage type, and the struct of a cluster is that of its
children. -/
def ErcCode.IsRendered (crates : Crates) (config : Config) : ErcCode → Prop
  | .register _ reg (.own _ code) => ∃ size, reg.info.properties.size = some size ∧
      toTy (registerSize size) = .ok code.rty
  | .block path cluster deriveInfos children struct =>
      cluster.info.children = children.map ErcCode.erc ∧
      (∀ child ∈ children, child.path = path.newCluster cluster.info.name) ∧
      ∃ name doc, registerOrClusterBlock crates config cluster.info.children
        (path.newCluster cluster.info.name) deriveInfos name doc (paddedSize config cluster) =
          .ok struct
  | _ => True

theorem mem_allNodes {codes : List ErcCode} {node : ErcCode} :
    node ∈ allNodes codes ↔ ∃ code ∈ codes, node ∈ code.nodes := by
  induction codes with
  | nil => simp [allNodes]
  | cons code rest ih =>
      rw [allNodes, List.mem_append, ih, List.exists_mem_cons_iff]

theorem ErcCode.self_mem_nodes (code : ErcCode) : code ∈ code.nodes := by
  cases code with
  | register path reg ty => exact List.mem_singleton.mpr rfl
  | reexport path cluster base => exact List.mem_singleton.mpr rfl
  | block path cluster deriveInfos children struct => exact List.mem_cons_self

/-! What is below a part of a tree is part of it. -/

mutual

theorem nodes_below {code node child : ErcCode} (hnode : node ∈ code.nodes)
    (hchild : child ∈ node.nodes) : child ∈ code.nodes := by
  match code with
  | .register path reg ty =>
      obtain rfl := List.mem_singleton.mp hnode
      exact hchild
  | .reexport path cluster base =>
      obtain rfl := List.mem_singleton.mp hnode
      exact hchild
  | .block path cluster deriveInfos children struct =>
      rcases List.mem_cons.mp hnode with rfl | hnode
      · exact hchild
      · exact List.mem_cons_of_mem _ (allNodes_below hnode hchild)

theorem allNodes_below {codes : List ErcCode} {node child : ErcCode} (hnode : node ∈ allNodes codes)
    (hchild : child ∈ node.nodes) : child ∈ allNodes codes := by
  match codes with
  | [] => cases hnode
  | code :: rest =>
      rcases List.mem_append.mp hnode with hnode | hnode
      · exact List.mem_append_left _ (nodes_below hnode hchild)
      · exact List.mem_append_right _ (allNodes_below hnode hchild)

end

/-- A register with a base is re-exported. -/
theorem renderRegister_derived {register : Register} {path : BlockPath} {dpath : RegisterPath}
    {ty : RegisterTy}
    (h : renderRegister crates config index register path (some dpath) = .ok ty) :
    ∃ name, renderName config register path (some dpath) = .ok name ∧
      ty = .reexport (identText crates config name .register) dpath := by
  obtain ⟨ty', hty, h⟩ := gen_bind_ok.mp h
  obtain ⟨name, hname, hty⟩ := gen_bind_ok.mp hty
  obtain ⟨_, -, h⟩ := gen_bind_ok.mp h
  obtain ⟨_, -, h⟩ := gen_bind_ok.mp h
  obtain ⟨_, -, h⟩ := gen_bind_ok.mp h
  obtain rfl := ident_text hty
  exact ⟨name, hname, (gen_pure_ok.mp h).symm⟩

/-- A register without one has a module of its own. -/
theorem renderRegister_own {register : Register} {path : BlockPath} {ty : RegisterTy}
    (h : renderRegister crates config index register path none = .ok ty) :
    ∃ name code, renderName config register path none = .ok name ∧
      renderRegisterMod crates config register
        (accessOf register.info.properties register.info.fields)
        (path.newRegister register.info.name) index = .ok code ∧
      ty = .own (identText crates config name .register) code := by
  obtain ⟨ty', hty, h⟩ := gen_bind_ok.mp h
  obtain ⟨name, hname, hty⟩ := gen_bind_ok.mp hty
  obtain ⟨_, -, h⟩ := gen_bind_ok.mp h
  obtain ⟨_, -, h⟩ := gen_bind_ok.mp h
  obtain ⟨_, -, h⟩ := gen_bind_ok.mp h
  obtain rfl := ident_text hty
  simp only at h
  split at h
  · obtain ⟨code, hcode, h⟩ := gen_bind_ok.mp h
    exact ⟨name, code, hname, hcode, (gen_pure_ok.mp h).symm⟩
  · simp at h

/-- A cluster with a base is re-exported. -/
theorem clusterBlock_derived {fuel : Nat} {cluster : Cluster} {path dpath : BlockPath}
    {code : ErcCode}
    (h : clusterBlock crates config index (fuel + 1) cluster path (some dpath) = .ok code) :
    code = .reexport path cluster dpath := by
  obtain ⟨_, -, h⟩ := gen_bind_ok.mp h
  obtain ⟨_, -, h⟩ := gen_bind_ok.mp h
  obtain ⟨_, -, h⟩ := gen_bind_ok.mp h
  exact (gen_pure_ok.mp h).symm

/-- A cluster without one has the code of its children and the struct around them. -/
theorem clusterBlock_own {fuel : Nat} {cluster : Cluster} {path : BlockPath} {code : ErcCode}
    (h : clusterBlock crates config index (fuel + 1) cluster path none = .ok code) :
    ∃ (rendered : Cluster) (deriveInfos : List DeriveInfo) (children : List ErcCode)
      (struct : RegisterBlock),
      code = .block path rendered deriveInfos children struct ∧
      rendered = (cluster.mapInfo fun info => { info with children := children.map ErcCode.erc }) ∧
      checkErcDeriveInfos crates config index fuel (path.newCluster cluster.info.name)
        cluster.info.children = .ok deriveInfos ∧
      rendered.info.name = cluster.info.name ∧
      rendered.info.children = children.map ErcCode.erc ∧
      renderErcs crates config index (clusterBlock crates config index fuel) cluster.info.children
        deriveInfos (path.newCluster cluster.info.name) = .ok children ∧
      ∃ name doc, registerOrClusterBlock crates config rendered.info.children
        (path.newCluster cluster.info.name) deriveInfos name doc (paddedSize config rendered) =
          .ok struct := by
  obtain ⟨_, -, h⟩ := gen_bind_ok.mp h
  obtain ⟨deriveInfos, hinfos, h⟩ := gen_bind_ok.mp h
  obtain ⟨children, hchildren, h⟩ := gen_bind_ok.mp h
  obtain ⟨struct, hstruct, h⟩ := gen_bind_ok.mp h
  refine ⟨_, deriveInfos, children, struct, (gen_pure_ok.mp h).symm, rfl, hinfos, ?_⟩
  cases cluster with
  | single info => exact ⟨rfl, rfl, hchildren, _, _, hstruct⟩
  | array info dim => exact ⟨rfl, rfl, hchildren, _, _, hstruct⟩

/-! Every part of the code is emitted by `register::render` or `cluster_block`. -/

theorem renderErc_path {block : Cluster → BlockPath → Option BlockPath → Gen ErcCode}
    (hblock : ∀ {cluster path dpath code}, block cluster path dpath = .ok code → code.path = path)
    {path : BlockPath} {erc : RegisterCluster} {deriveInfo : DeriveInfo} {code : ErcCode}
    (h : renderErc crates config index block path erc deriveInfo = .ok code) :
    code.path = path := by
  cases erc with
  | cluster cluster =>
      obtain ⟨_, -, h⟩ := gen_bind_ok.mp h
      exact hblock h
  | register reg =>
      obtain ⟨_, -, h⟩ := gen_bind_ok.mp h
      obtain ⟨ty, -, h⟩ := gen_bind_ok.mp h
      rw [← gen_pure_ok.mp h]
      rfl

theorem clusterBlock_path {fuel : Nat} {cluster : Cluster} {path : BlockPath}
    {dpath : Option BlockPath} {code : ErcCode}
    (h : clusterBlock crates config index fuel cluster path dpath = .ok code) :
    code.path = path := by
  cases fuel with
  | zero => simp [clusterBlock] at h
  | succ fuel =>
      cases dpath with
      | some base => rw [clusterBlock_derived h, ErcCode.path]
      | none =>
          obtain ⟨_, _, _, _, rfl, -⟩ := clusterBlock_own h
          rfl

section Parts

variable {P : ErcCode → Prop}

/-- What holds of every register that is rendered holds of all parts, if it does in the
clusters below. -/
theorem renderErc_nodes
    (hregister : ∀ {reg path dpath ty}, renderRegister crates config index reg path dpath = .ok ty →
      P (.register path reg ty))
    {block : Cluster → BlockPath → Option BlockPath → Gen ErcCode}
    (hblock : ∀ {cluster path dpath code}, block cluster path dpath = .ok code →
      ∀ node ∈ code.nodes, P node)
    {path : BlockPath} {erc : RegisterCluster} {deriveInfo : DeriveInfo} {code : ErcCode}
    (h : renderErc crates config index block path erc deriveInfo = .ok code) :
    ∀ node ∈ code.nodes, P node := by
  cases erc with
  | cluster cluster =>
      obtain ⟨_, -, h⟩ := gen_bind_ok.mp h
      exact hblock h
  | register reg =>
      obtain ⟨_, -, h⟩ := gen_bind_ok.mp h
      obtain ⟨ty, hty, h⟩ := gen_bind_ok.mp h
      obtain rfl := gen_pure_ok.mp h
      exact List.forall_mem_singleton.mpr (hregister (withContext_ok.mp hty))

/-- So does the loop. -/
theorem renderErcs_nodes
    (hregister : ∀ {reg path dpath ty}, renderRegister crates config index reg path dpath = .ok ty →
      P (.register path reg ty))
    {block : Cluster → BlockPath → Option BlockPath → Gen ErcCode}
    (hblock : ∀ {cluster path dpath code}, block cluster path dpath = .ok code →
      ∀ node ∈ code.nodes, P node)
    {ercs : List RegisterCluster} {deriveInfos : List DeriveInfo} {path : BlockPath}
    {codes : List ErcCode}
    (h : renderErcs crates config index block ercs deriveInfos path = .ok codes) :
    ∀ node ∈ allNodes codes, P node := by
  intro node hnode
  obtain ⟨code, hcode, hnode⟩ := mem_allNodes.mp hnode
  obtain ⟨_, -, hround⟩ := exists_of_forall₂_mem (gen_mapM_ok.mp h) hcode
  exact renderErc_nodes hregister hblock hround node hnode

/-- **Parts of a cluster.**  What holds of every register, re-export and struct that is
rendered holds of everything `cluster_block` emits. -/
theorem clusterBlock_nodes
    (hregister : ∀ {reg path dpath ty}, renderRegister crates config index reg path dpath = .ok ty →
      P (.register path reg ty))
    (hreexport : ∀ {path cluster base}, P (.reexport path cluster base))
    (hstruct : ∀ {path cluster deriveInfos children struct},
      (ErcCode.block path cluster deriveInfos children struct).IsRendered crates config →
        P (.block path cluster deriveInfos children struct))
    {fuel : Nat} {cluster : Cluster} {path : BlockPath} {dpath : Option BlockPath} {code : ErcCode}
    (h : clusterBlock crates config index fuel cluster path dpath = .ok code) :
    ∀ node ∈ code.nodes, P node := by
  induction fuel generalizing cluster path dpath code with
  | zero => simp [clusterBlock] at h
  | succ fuel ih =>
      cases dpath with
      | some base =>
          obtain rfl := clusterBlock_derived h
          exact List.forall_mem_singleton.mpr hreexport
      | none =>
          obtain ⟨rendered, deriveInfos, children, struct, rfl, -, -, hname, herc, hchildren,
            hstruct'⟩ := clusterBlock_own h
          refine List.forall_mem_cons.mpr ⟨hstruct ?_, renderErcs_nodes hregister ih hchildren⟩
          have hpaths : ∀ child ∈ children, child.path = path.newCluster rendered.info.name := by
            intro child hchild
            obtain ⟨_, -, hround⟩ := exists_of_forall₂_mem (gen_mapM_ok.mp hchildren) hchild
            rw [hname]
            exact renderErc_path clusterBlock_path hround
          rw [← hname] at hstruct'
          exact ⟨herc, hpaths, hstruct'⟩

end Parts

end Rendered

end Svd2Rust
