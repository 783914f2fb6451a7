import Svd2Rust.AsciiCrates
import Svd2Rust.StructLayout

/-!
# The size of a cluster, reserved and emitted

A block reserves space for a cluster by `cluster_info_size_in_bits`, a recursion
over the description that expands every register as a root and counts an array of
clusters up to the end of its last element.  The struct of the cluster comes from
another recursion, over regions, inline arrays, raw arrays and paddings, and the
compiler lays it out by the types of its members.

`clusterSizes` says when the two sizes agree at every cluster of a rendered tree:
what is reserved ends with the fields, and the compiler pads nothing.
-/

namespace Svd2Rust

open ReprC

section Sizes

variable (crates : Crates) (config : Config) (env : TypeEnv)

/-- What the block at `path` reserves for one instance of a cluster is the size of the
type that is emitted for it. -/
def SizeAgrees : ErcCode → Prop
  | .register _ _ _ => True
  | .reexport path cluster base =>
      bytesOfBits (clusterElementBits config cluster path) = (env.cluster base).size
  | .block path cluster deriveInfos children block =>
      bytesOfBits (clusterElementBits config cluster path) =
        ((ErcCode.block path cluster deriveInfos children block).layout crates config env).size

instance : (node : ErcCode) → Decidable (SizeAgrees crates config env node)
  | .register _ _ _ => inferInstanceAs (Decidable True)
  | .reexport _ _ _ => inferInstanceAs (Decidable (_ = _))
  | .block _ _ _ _ _ => inferInstanceAs (Decidable (_ = _))

/-- The struct of a cluster comes out as reserved: the reserved bytes end with its
fields, the registers have the sizes of their types, and starts and ends are
aligned.  Fields in unions and raw arrays have no type of their own. -/
structure BlockExact (path : BlockPath) (cluster : Cluster) (deriveInfos : List DeriveInfo)
    (children : List ErcCode) : Prop where
  reserved : bytesOfBits (clusterElementBits config cluster path) =
    blockEnd (paddedSize config cluster) (blockFootprints config (children.map ErcCode.erc)
      (path.newCluster cluster.info.name) deriveInfos)
  sizes : ∀ child deriveInfo p, IsMember config (path.newCluster cluster.info.name) children
    deriveInfos child deriveInfo p → child.isRegister = true →
      (child.layout crates config env).size =
        bytesOfBits (ercBits config (path.newCluster cluster.info.name) child.erc)
  starts : ∀ child deriveInfo p, IsMember config (path.newCluster cluster.info.name) children
    deriveInfos child deriveInfo p → (child.layout crates config env).align ∣ p.start
  stops : ∀ child deriveInfo p, IsMember config (path.newCluster cluster.info.name) children
    deriveInfos child deriveInfo p → (child.layout crates config env).align ∣
      blockEnd (paddedSize config cluster) (blockFootprints config (children.map ErcCode.erc)
        (path.newCluster cluster.info.name) deriveInfos)

/-- All members are looked at one by one. -/
theorem blockExact_iff (path : BlockPath) (cluster : Cluster) (deriveInfos : List DeriveInfo)
    (children : List ErcCode) :
    BlockExact crates config env path cluster deriveInfos children ↔
      bytesOfBits (clusterElementBits config cluster path) =
        blockEnd (paddedSize config cluster) (blockFootprints config (children.map ErcCode.erc)
          (path.newCluster cluster.info.name) deriveInfos) ∧
      ∀ entry ∈ children.zip deriveInfos,
        ∀ p ∈ ercFootprints config entry.1.erc entry.2 (path.newCluster cluster.info.name),
          (ercPlacement config (path.newCluster cluster.info.name) entry.1.erc
              entry.2).isProxy = false →
          Alone (blockFootprints config (children.map ErcCode.erc)
              (path.newCluster cluster.info.name) deriveInfos) p →
            (entry.1.isRegister = true → (entry.1.layout crates config env).size =
              bytesOfBits (ercBits config (path.newCluster cluster.info.name) entry.1.erc)) ∧
            (entry.1.layout crates config env).align ∣ p.start ∧
            (entry.1.layout crates config env).align ∣ blockEnd (paddedSize config cluster)
              (blockFootprints config (children.map ErcCode.erc)
                (path.newCluster cluster.info.name) deriveInfos) := by
  constructor
  · intro h
    refine ⟨h.reserved, fun entry hentry p hp hproxy halone => ?_⟩
    have hmember : IsMember config (path.newCluster cluster.info.name) children deriveInfos entry.1
        entry.2 p := ⟨hentry, hproxy, hp, halone⟩
    exact ⟨h.sizes _ _ _ hmember, h.starts _ _ _ hmember, h.stops _ _ _ hmember⟩
  · intro h
    obtain ⟨hreserved, hall⟩ := h
    have hmember : ∀ child deriveInfo p, IsMember config (path.newCluster cluster.info.name)
        children deriveInfos child deriveInfo p → _ := fun child deriveInfo p h =>
      hall (child, deriveInfo) h.mem p h.footprint h.no_proxy h.alone
    exact ⟨hreserved, fun child deriveInfo p h => (hmember child deriveInfo p h).1,
      fun child deriveInfo p h => (hmember child deriveInfo p h).2.1,
      fun child deriveInfo p h => (hmember child deriveInfo p h).2.2⟩

instance (path : BlockPath) (cluster : Cluster) (deriveInfos : List DeriveInfo)
    (children : List ErcCode) :
    Decidable (BlockExact crates config env path cluster deriveInfos children) :=
  decidable_of_iff _ (blockExact_iff crates config env path cluster deriveInfos children).symm

/-- Every cluster with a struct of its own is exact, and one that is re-exported
reaches as far as the struct of its base. -/
def ClusterExact : ErcCode → Prop
  | .register _ _ _ => True
  | .reexport path cluster base =>
      bytesOfBits (clusterElementBits config cluster path) = (env.cluster base).size
  | .block path cluster deriveInfos children _ =>
      BlockExact crates config env path cluster deriveInfos children

instance : (node : ErcCode) → Decidable (ClusterExact crates config env node)
  | .register _ _ _ => inferInstanceAs (Decidable True)
  | .reexport _ _ _ => inferInstanceAs (Decidable (_ = _))
  | .block path cluster deriveInfos children _ =>
      inferInstanceAs (Decidable (BlockExact crates config env path cluster deriveInfos children))

end Sizes

section Agreement

variable {crates : Crates} {config : Config} {index : Index} {env : TypeEnv}

/-- **One cluster.**  An exact struct whose children agree has the reserved size. -/
theorem sizeAgrees_of_exact {path : BlockPath} {cluster : Cluster}
    {deriveInfos : List DeriveInfo} {children : List ErcCode} {block : RegisterBlock}
    (hrendered : (ErcCode.block path cluster deriveInfos children block).IsRendered crates config)
    (hchildren : ∀ child ∈ children, SizeAgrees crates config env child)
    (h : BlockExact crates config env path cluster deriveInfos children) :
    SizeAgrees crates config env (.block path cluster deriveInfos children block) := by
  obtain ⟨hsame, hpaths, name, doc, hblock⟩ := hrendered
  rw [hsame] at hblock
  obtain ⟨fields, hexpand, hmembers⟩ := registerOrClusterBlock_ok hblock
  refine h.reserved.trans (struct_size_of_unpadded hexpand hmembers ?_).symm
  refine ⟨fun child deriveInfo p hmember => ?_, h.starts, h.stops⟩
  have hchild := (List.of_mem_zip hmember.mem).1
  have hpath := hpaths child hchild
  have hagrees := hchildren child hchild
  rw [← hpath] at hmember ⊢
  cases child with
  | register at_ reg ty =>
      rw [hpath] at hmember ⊢
      exact h.sizes _ _ _ hmember rfl
  | reexport at_ clust base => exact hagrees.symm
  | block at_ clust infos grandchildren struct => exact hagrees.symm

mutual

/-- Exact trees agree everywhere, from the leaves up. -/
theorem agrees_of_exact (code : ErcCode)
    (hrendered : ∀ node ∈ code.nodes, node.IsRendered crates config)
    (h : ∀ node ∈ code.nodes, ClusterExact crates config env node) :
    ∀ node ∈ code.nodes, SizeAgrees crates config env node := by
  match code with
  | .register path reg ty =>
      intro node hnode
      obtain rfl := List.mem_singleton.mp hnode
      trivial
  | .reexport path cluster base =>
      intro node hnode
      obtain rfl := List.mem_singleton.mp hnode
      exact h _ (ErcCode.self_mem_nodes _)
  | .block path cluster deriveInfos children block =>
      have hbelow := allAgree_of_exact children
        (fun node hnode => hrendered node (List.mem_cons_of_mem _ hnode))
        (fun node hnode => h node (List.mem_cons_of_mem _ hnode))
      intro node hnode
      rcases List.mem_cons.mp hnode with rfl | hnode
      · apply sizeAgrees_of_exact (hrendered _ (ErcCode.self_mem_nodes _)) _
          (h _ (ErcCode.self_mem_nodes _))
        intro child hchild
        exact hbelow child (mem_allNodes.mpr ⟨child, hchild, child.self_mem_nodes⟩)
      · exact hbelow node hnode

theorem allAgree_of_exact (codes : List ErcCode)
    (hrendered : ∀ node ∈ allNodes codes, node.IsRendered crates config)
    (h : ∀ node ∈ allNodes codes, ClusterExact crates config env node) :
    ∀ node ∈ allNodes codes, SizeAgrees crates config env node := by
  match codes with
  | [] =>
      intro node hnode
      cases hnode
  | code :: rest =>
      intro node hnode
      rcases List.mem_append.mp hnode with hnode | hnode
      · exact agrees_of_exact code
          (fun node hnode => hrendered node (List.mem_append_left _ hnode))
          (fun node hnode => h node (List.mem_append_left _ hnode)) node hnode
      · exact allAgree_of_exact rest
          (fun node hnode => hrendered node (List.mem_append_right _ hnode))
          (fun node hnode => h node (List.mem_append_right _ hnode)) node hnode

end

end Agreement

/-! ## Buffers with and without gaps -/

/-- A target that aligns every integer to its size. -/
def naturalEnv : TypeEnv where
  logAlign
    | .bool | .u8 => 0
    | .u16 => 1
    | .u32 => 2
    | .u64 => 3
  aligned ty := by cases ty <;> decide
  register _ := Layout.unit
  cluster _ := Layout.unit

/-- The index of a device in which nothing is derived. -/
def emptyIndex : Index := ⟨fun _ => none, fun _ => none, fun _ => none⟩

end Svd2Rust
