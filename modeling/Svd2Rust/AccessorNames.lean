import Svd2Rust.AsciiCrates
import Svd2Rust.BlockPlacement

/-!
# Accessors and full names

The fields of a block and the accessors of array elements are to be called after
the full names of the registers: the group in front of the name, unless groups are
ignored.  `expand_register` formats a full name where the register is a single one
or stays an array, and the bare name of an element where the array becomes one
field for each element.  `accessorNames_follow_iff` says when that makes no
difference.
-/

namespace Svd2Rust

def Accessor.name : Accessor → String
  | .reg a => a.name
  | .array a => a.name
  | .arrayElem a => a.name

/-- The identifiers a field brings into the block: its own, which its first accessor
shares, and those of the accessors of its elements. -/
def RegisterBlockField.memberNames (rbf : RegisterBlockField) : List String :=
  rbf.synField.ident :: rbf.accessors.tail.map (·.accessor.name)

/-- A member of a block under its full name, with the full names of the elements that
get accessors of their own. -/
structure Member where
  name : String
  elements : List String

section Names

variable (crates : Crates) (config : Config)

def accessorIdent (name : String) : String := identText crates config name .registerAccessor

def Member.names (m : Member) : List String :=
  (m.name :: m.elements).map (accessorIdent crates config)

/-- The full names of the elements of an array. -/
def elementFullNames (info : RegisterInfo) (dim : DimElement) : List String :=
  (crates.registerExpand info dim).map fun ri =>
    fullname ri.name info.alternateGroup config.ignoreGroups

/-- The full name of an array that stays one: `dimName` stands in for the name. -/
def arrayFullName (info : RegisterInfo) (dim : DimElement) : String :=
  match dim.dimName with
  | some dimName => fullname dimName info.alternateGroup config.ignoreGroups
  | none => removeDim (info.fullname config.ignoreGroups)

/-- The members a register makes in its block. -/
def registerMembers (register : Register) (path : BlockPath) (deriveInfo : DeriveInfo) :
    List Member :=
  match register with
  | .single info => [⟨info.fullname config.ignoreGroups, []⟩]
  | .array info dim =>
      match registerPlacement config register path deriveInfo with
      | .list _ => (elementFullNames crates config info dim).map (⟨·, []⟩)
      | _ => [⟨arrayFullName config info dim,
          if !sequentialIndexesFrom0 crates dim || !endsWithIndex info.name then
            elementFullNames crates config info dim
          else []⟩]

/-- The field and its accessors have the formatted full names of the member. -/
structure NamedAs (m : Member) (rbf : RegisterBlockField) : Prop where
  ident_eq : rbf.synField.ident = accessorIdent crates config m.name
  accessors_eq : rbf.accessors.map (·.accessor.name) = m.names crates config

/-- The registers of a block follow their full names, and keep apart what those keep
apart. -/
structure NamesFollow (path : BlockPath) (registers : List (Register × DeriveInfo))
    (rbfss : List (List RegisterBlockField)) : Prop where
  named : List.Forall₂ (fun r rbfs =>
    List.Forall₂ (NamedAs crates config) (registerMembers crates config r.1 path r.2) rbfs)
    registers rbfss
  distinct :
    ((registers.flatMap fun r => registerMembers crates config r.1 path r.2).flatMap
      (Member.names crates config)).Nodup →
    (rbfss.flatten.flatMap RegisterBlockField.memberNames).Nodup

/-- Where the array becomes one field for each element, the group does not show in the
identifiers of the elements. -/
def ElementsNamedFully (register : Register) (path : BlockPath) (deriveInfo : DeriveInfo) : Prop :=
  match register with
  | .single _ => True
  | .array info dim =>
      registerPlacement config register path deriveInfo = .list dim →
        ∀ ri ∈ crates.registerExpand info dim, accessorIdent crates config ri.name =
          accessorIdent crates config (fullname ri.name info.alternateGroup config.ignoreGroups)

end Names

section Expanded

variable {crates : Crates} {config : Config}

theorem elementField_named_iff {doc name ty full : String} {accessorOffset offset size : Nat} :
    NamedAs crates config ⟨full, []⟩ (elementField doc name ty accessorOffset offset size) ↔
      name = accessorIdent crates config full := by
  constructor
  · exact NamedAs.ident_eq
  · intro hname
    exact ⟨hname, congrArg (fun n => [n]) hname⟩

/-- The names in an array field: the accessor's, then one for each listed element. -/
theorem arrayField_names {word name accessorName ty description : String} {kind : IdentKind}
    {size offset : Nat} {dim : DimElement} {convertible : Bool} {elements : List ArrayElement}
    {rbf : RegisterBlockField}
    (h : arrayField crates config word kind name accessorName ty size offset description dim
      convertible elements = .ok rbf) :
    rbf.synField.ident = accessorName ∧ rbf.accessors.map (·.accessor.name) =
      accessorName :: elements.map fun element => identText crates config element.name kind := by
  unfold arrayField at h
  simp only [gen_bind_ok, gen_pure_ok] at h
  obtain ⟨total, -, doc, -, _, -, firstName, -, firstIndex, -, elems, helems, rfl⟩ := h
  have hfirst : ∀ (b : Bool) (a : ArrayAccessor),
      ((Accessor.array a).rawIf b).accessor.name = a.name := by
    intro b a
    cases b <;> rfl
  have helemNames : elems.map (·.accessor.name) =
      elements.map fun element => identText crates config element.name kind := by
    have hrel := gen_mapM_ok.mp helems
    nth_rewrite 1 [← List.zipIdx_map_fst 0 elements]
    rw [List.map_map]
    generalize elements.zipIdx = rounds at hrel
    clear helems
    induction hrel with
    | nil => rfl
    | cons hround _ ih =>
        obtain ⟨idxName, hname, hround⟩ := gen_bind_ok.mp hround
        obtain ⟨doc, -, hacc⟩ := gen_bind_ok.mp hround
        rw [List.map_cons, List.map_cons, ih, ← gen_pure_ok.mp hacc, ← ident_text hname]
        rfl
  exact ⟨rfl, by rw [List.map_cons, hfirst, helemNames]⟩

theorem registerElements_names (info : RegisterInfo) (dim : DimElement) :
    registerElementNames crates config (.array info dim) =
      (if !sequentialIndexesFrom0 crates dim || !endsWithIndex info.name then
        elementFullNames crates config info dim
      else []).map (accessorIdent crates config) := by
  unfold registerElementNames registerElements
  dsimp only
  split
  · rw [elementFullNames, List.map_map, List.map_map]
    rfl
  · rfl

/-- Only an array that is not renamed stays an array. -/
theorem registerTyName_of_array {info : RegisterInfo} {dim : DimElement} {path : BlockPath}
    {deriveInfo : DeriveInfo}
    (h : registerPlacement config (.array info dim) path deriveInfo ≠ .list dim) :
    registerTyName crates config (.array info dim) path deriveInfo =
      removeDim (info.fullname config.ignoreGroups) := by
  have hrenames : renamesDerived deriveInfo path (info.fullname config.ignoreGroups) = false := by
    rw [← Bool.not_eq_true]
    intro hrenames
    apply h
    simp [registerPlacement, hrenames]
  simp [registerTyName, hrenames]

/-- An array that stays one is named after its members. -/
theorem expandRegisterArray_named {info : RegisterInfo} {dim : DimElement} {size : Nat}
    {description : String} {convertible proxyConvertible : Bool}
    {rbfs : List RegisterBlockField} (harray : (convertible || proxyConvertible) = true)
    (h : expandRegisterArray crates config info dim size description
      (removeDim (info.fullname config.ignoreGroups)) convertible proxyConvertible = .ok rbfs) :
    List.Forall₂ (NamedAs crates config) [⟨arrayFullName config info dim,
      if !sequentialIndexesFrom0 crates dim || !endsWithIndex info.name then
        elementFullNames crates config info dim
      else []⟩] rbfs := by
  unfold expandRegisterArray at h
  obtain ⟨ty, -, h⟩ := gen_bind_ok.mp h
  rw [if_pos harray] at h
  obtain ⟨accessorName, haccessor, h⟩ := gen_bind_ok.mp h
  obtain ⟨rbf, hrbf, h⟩ := gen_bind_ok.mp h
  rw [← gen_pure_ok.mp h]
  obtain ⟨hident, haccessors⟩ := arrayField_names hrbf
  have helements := @registerElements_names crates config info dim
  rw [registerElementNames] at helements
  rw [helements] at haccessors
  have hname : rbf.synField.ident = accessorIdent crates config (arrayFullName config info dim) := by
    rw [hident, ← ident_text haccessor]
    unfold arrayFullName accessorIdent arrayAccessorName
    cases dim.dimName <;> rfl
  refine .cons ⟨hname, ?_⟩ .nil
  rw [haccessors, ← hident, hname]
  rfl

/-- An array that becomes a list is named after its members exactly when the group does
not show. -/
theorem expandRegisterList_named_iff {info : RegisterInfo} {dim : DimElement} {size : Nat}
    {description tyName : String} {rbfs : List RegisterBlockField}
    (h : expandRegisterArray crates config info dim size description tyName false false =
      .ok rbfs) :
    List.Forall₂ (NamedAs crates config)
        ((elementFullNames crates config info dim).map (⟨·, []⟩)) rbfs ↔
      ∀ ri ∈ crates.registerExpand info dim, accessorIdent crates config ri.name =
        accessorIdent crates config (fullname ri.name info.alternateGroup config.ignoreGroups) := by
  have hrel : List.Forall₂ (fun ri rbf => ∃ doc ty,
      rbf = elementField doc (accessorIdent crates config ri.name) ty info.addressOffset
        ri.addressOffset size) (crates.registerExpand info dim) rbfs := by
    unfold expandRegisterArray at h
    obtain ⟨ty, -, h⟩ := gen_bind_ok.mp h
    rw [if_neg (by decide)] at h
    refine (gen_mapM_ok.mp h).imp fun ri rbf hround => ?_
    obtain ⟨doc, -, hround⟩ := gen_bind_ok.mp hround
    obtain ⟨-, hfield⟩ := ident_bind_ok.mp hround
    exact ⟨doc, ty, (gen_pure_ok.mp hfield).symm⟩
  rw [elementFullNames, List.map_map]
  generalize crates.registerExpand info dim = elements at hrel
  clear h
  induction hrel with
  | nil => exact iff_of_true .nil (List.forall_mem_nil _)
  | cons hfield _ ih =>
      obtain ⟨doc, ty, rfl⟩ := hfield
      rw [List.map_cons, List.forall₂_cons, List.forall_mem_cons]
      exact and_congr elementField_named_iff ih

/-- **One register.**  Its fields and accessors follow the full names exactly when the
group does not show in those of an expanded list. -/
theorem expandRegister_named_iff {register : Register} {path : BlockPath}
    {deriveInfo : DeriveInfo} {rbfs : List RegisterBlockField}
    (h : expandRegister crates config register path deriveInfo = .ok rbfs) :
    List.Forall₂ (NamedAs crates config) (registerMembers crates config register path deriveInfo)
        rbfs ↔
      ElementsNamedFully crates config register path deriveInfo := by
  cases register with
  | single info =>
      obtain ⟨size, -, h⟩ := gen_bind_ok.mp h
      obtain ⟨doc, -, h⟩ := gen_bind_ok.mp h
      obtain ⟨ty, -, h⟩ := gen_bind_ok.mp h
      obtain ⟨name, hname, h⟩ := gen_bind_ok.mp h
      rw [← gen_pure_ok.mp h]
      exact iff_of_true (.cons (elementField_named_iff.mpr (ident_text hname).symm) .nil) trivial
  | array info dim =>
      obtain ⟨size, convertible, proxyConvertible, -, hplacement, h⟩ := expandRegister_array_ok h
      by_cases harray : (convertible || proxyConvertible) = true
      · have hkept : registerPlacement config (.array info dim) path deriveInfo ≠ .list dim := by
          rw [hplacement]
          cases convertible <;> cases proxyConvertible <;> simp_all
        rw [registerTyName_of_array hkept] at h
        refine iff_of_true ?_ fun hlist => absurd hlist hkept
        have hnamed := expandRegisterArray_named harray h
        unfold registerMembers
        cases hplace : registerPlacement config (.array info dim) path deriveInfo with
        | list dim' =>
            have hdim := registerPlacement_dim config (.array info dim) path deriveInfo
            rw [hplace] at hdim
            obtain rfl : dim' = dim := Option.some.inj hdim
            exact absurd hplace hkept
        | single => exact hnamed
        | rustArray dim' => exact hnamed
        | proxy dim' => exact hnamed
      · obtain ⟨rfl, rfl⟩ : convertible = false ∧ proxyConvertible = false := by
          simpa using harray
        have hplace : registerPlacement config (.array info dim) path deriveInfo = .list dim :=
          hplacement
        simp only [registerMembers, ElementsNamedFully, hplace, true_imp_iff]
        exact expandRegisterList_named_iff h

theorem NamedAs.memberNames_eq {m : Member} {rbf : RegisterBlockField}
    (h : NamedAs crates config m rbf) : rbf.memberNames = m.names crates config := by
  rw [RegisterBlockField.memberNames, h.ident_eq, List.map_tail, h.accessors_eq]
  rfl

/-- Named after its members, a block has their names. -/
theorem memberNames_of_named {path : BlockPath} {registers : List (Register × DeriveInfo)}
    {rbfss : List (List RegisterBlockField)}
    (h : List.Forall₂ (fun r rbfs =>
      List.Forall₂ (NamedAs crates config) (registerMembers crates config r.1 path r.2) rbfs)
      registers rbfss) :
    rbfss.flatten.flatMap RegisterBlockField.memberNames =
      (registers.flatMap fun r => registerMembers crates config r.1 path r.2).flatMap
        (Member.names crates config) := by
  have hfields : ∀ {members : List Member} {rbfs : List RegisterBlockField},
      List.Forall₂ (NamedAs crates config) members rbfs →
        rbfs.flatMap RegisterBlockField.memberNames =
          members.flatMap (Member.names crates config) := by
    intro members rbfs hnamed
    induction hnamed with
    | nil => rfl
    | cons hfield _ ih => rw [List.flatMap_cons, List.flatMap_cons, hfield.memberNames_eq, ih]
  induction h with
  | nil => rfl
  | cons hnamed _ ih =>
      rw [List.flatten_cons, List.flatMap_append, List.flatMap_cons, List.flatMap_append, ih,
        hfields hnamed]

/-- The registers of a block with their derive infos. -/
def blockRegisters (ercs : List RegisterCluster) (deriveInfos : List DeriveInfo) :
    List (Register × DeriveInfo) :=
  (ercs.zip deriveInfos).filterMap fun
    | (.register register, deriveInfo) => some (register, deriveInfo)
    | (.cluster _, _) => none

/-- A block that expands has the fields its registers expand to. -/
theorem expand_registers {ercs : List RegisterCluster} {path : BlockPath}
    {deriveInfos : List DeriveInfo} {rbfs : List RegisterBlockField}
    (h : expand crates config ercs path deriveInfos = .ok rbfs) :
    ∃ rbfss, ((blockRegisters ercs deriveInfos).mapM fun r =>
        expandRegister crates config r.1 path r.2) = .ok rbfss ∧ rbfss.flatten.Subperm rbfs := by
  unfold expand at h
  obtain ⟨expanded, hexpanded, h⟩ := gen_bind_ok.mp h
  rw [← gen_pure_ok.mp h]
  have hrel := gen_mapM_ok.mp hexpanded
  suffices hsub : ∃ rbfss, List.Forall₂ (fun (r : Register × DeriveInfo) rbfs =>
      expandRegister crates config r.1 path r.2 = .ok rbfs) (blockRegisters ercs deriveInfos)
      rbfss ∧ rbfss.flatten.Sublist expanded.flatten by
    obtain ⟨rbfss, hrounds, hsub⟩ := hsub
    exact ⟨rbfss, gen_mapM_ok.mpr hrounds,
      hsub.subperm.trans (List.perm_insertionSort _ _).symm.subperm⟩
  unfold blockRegisters
  generalize ercs.zip deriveInfos = zipped at hrel
  clear hexpanded h
  induction hrel with
  | nil => exact ⟨[], .nil, .refl _⟩
  | @cons erc fields zipped expanded hround _ ih =>
      obtain ⟨rbfss, hrounds, hsub⟩ := ih
      obtain ⟨erc, deriveInfo⟩ := erc
      cases erc with
      | register register =>
          exact ⟨fields :: rbfss, .cons (withContext_ok.mp hround) hrounds, hsub.append_left fields⟩
      | cluster cluster =>
          exact ⟨rbfss, hrounds, hsub.trans (List.sublist_append_right _ _)⟩

/-- **Accessor names.**  The registers of a block follow their full names exactly when in no
expanded list the group shows in the identifiers of the elements.  All names are formatted
from the full name but for the elements of a list, which `expand` names without the group. -/
theorem accessorNames_follow_iff {path : BlockPath} {registers : List (Register × DeriveInfo)}
    {rbfss : List (List RegisterBlockField)}
    (h : (registers.mapM fun r => expandRegister crates config r.1 path r.2) = .ok rbfss) :
    NamesFollow crates config path registers rbfss ↔
      ∀ r ∈ registers, ElementsNamedFully crates config r.1 path r.2 := by
  have hnamed : List.Forall₂ (fun (r : Register × DeriveInfo) rbfs =>
      List.Forall₂ (NamedAs crates config) (registerMembers crates config r.1 path r.2) rbfs)
      registers rbfss ↔ ∀ r ∈ registers, ElementsNamedFully crates config r.1 path r.2 := by
    have hrel := gen_mapM_ok.mp h
    clear h
    induction hrel with
    | nil => exact iff_of_true .nil (List.forall_mem_nil _)
    | cons hround _ ih =>
        rw [List.forall₂_cons, List.forall_mem_cons]
        exact and_congr (expandRegister_named_iff hround) ih
  constructor
  · intro hfollow
    exact hnamed.mp hfollow.named
  · intro hfully
    refine ⟨hnamed.mpr hfully, fun hnodup => ?_⟩
    rw [memberNames_of_named (hnamed.mpr hfully)]
    exact hnodup

end Expanded

/-- The default configuration with `keep_list`. -/
def keepListConfig : Config := { defaultConfig with keepList := true }

/-- A pair of channel registers in a group. -/
def channelPair (group : String) : Register :=
  .array { plainRegister "CH%s" 0 32 with alternateGroup := some group } (countedDim 2 4)

/-- As Rust arrays, the channels of two groups are kept apart. -/
theorem accessorNames_follow_arrays :
    ∃ rbfss, ([(channelPair "SINGLE", .root), (channelPair "DIFF", .root)].mapM
        fun r => expandRegister asciiCrates defaultConfig r.1 (.new "ADC") r.2) = .ok rbfss ∧
      NamesFollow asciiCrates defaultConfig (.new "ADC")
        [(channelPair "SINGLE", .root), (channelPair "DIFF", .root)] rbfss :=
  ⟨_, rfl, (accessorNames_follow_iff rfl).mpr
    (List.forall_mem_cons.mpr ⟨nofun, List.forall_mem_singleton.mpr nofun⟩)⟩

/-- Kept as lists they are not: four fields share two identifiers. -/
theorem not_accessorNames_follow_lists :
    ¬ ∀ rbfss, ([(channelPair "SINGLE", .root), (channelPair "DIFF", .root)].mapM
        fun r => expandRegister asciiCrates keepListConfig r.1 (.new "ADC") r.2) = .ok rbfss →
      NamesFollow asciiCrates keepListConfig (.new "ADC")
        [(channelPair "SINGLE", .root), (channelPair "DIFF", .root)] rbfss := by
  intro h
  have hnodup := (h _ rfl).distinct (by decide)
  exact absurd hnodup (by decide)

end Svd2Rust
