import Svd2Rust.AsciiCrates
import Svd2Rust.BlockPlacement

/-!
# The two names of a register type

`expand_register` names the type of a register when it builds the fields of the
block, `register::render` when it defines or re-exports the type.  Both rename
derived arrays, each under its own condition: the first looks at the derive info
and the placeholder, the second at the path `derive_register` returned and at
`dimIndex`.  `typeNamesAgree_iff` says for which inputs the block refers to the
type that is rendered.
-/

namespace Svd2Rust

/-- Every type identifier in a field: the type of the struct field, unless it is
`()`, and those its accessors return. -/
def RegisterBlockField.tyNames (rbf : RegisterBlockField) : List String :=
  (match rbf.synField.ty with
    | .path name => [name]
    | .array name _ => [name]
    | .unit => []) ++ rbf.accessors.map (·.accessor.ty)

section Names

variable (crates : Crates) (config : Config)

/-- The condition under which `register::render` renames an array. -/
def rendersRenamed (register : Register) (path : BlockPath) (dpath : Option RegisterPath) : Bool :=
  match dpath, register with
  | some dpath, .array _ dim => dim.dimIndex.isSome && path = dpath.block
  | _, _ => false

/-- The name `register::render` gives a register. -/
def renderName (register : Register) (path : BlockPath) (dpath : Option RegisterPath) :
    Gen String :=
  match dpath, register with
  | some dpath, .array info dim => match dim.dimIndex with
      | some dimIndex =>
          if path = dpath.block then do
            let index ← unwrap dimIndex.head?
            return expandDim (info.fullname config.ignoreGroups) index
          else return nameOf register config.ignoreGroups
      | none => return nameOf register config.ignoreGroups
  | _, _ => return nameOf register config.ignoreGroups

/-- `reg_ty`: the identifier under which the type is defined or re-exported. -/
def renderTy (register : Register) (path : BlockPath) (dpath : Option RegisterPath) :
    Gen String := do
  let name ← renderName config register path dpath
  ident crates config name .register

/-- Everything the expansion says about the type of a register is the identifier
`register::render` gives it. -/
def TypeNamesAgree (register : Register) (path : BlockPath) (deriveInfo : DeriveInfo)
    (dpath : Option RegisterPath) : Prop :=
  ∀ rbfs ty, expandRegister crates config register path deriveInfo = .ok rbfs →
    renderTy crates config register path dpath = .ok ty →
    ∀ rbf ∈ rbfs, ∀ name ∈ rbf.tyNames, name = ty

/-- The inputs on which the two names agree: singles, arrays without elements,
arrays both functions rename or neither does, and arrays whose index does not
show in the identifier. -/
def RenamedAlike (register : Register) (path : BlockPath) (deriveInfo : DeriveInfo)
    (dpath : Option RegisterPath) : Prop :=
  match register with
  | .single _ => True
  | .array info dim =>
      let infoName := info.fullname config.ignoreGroups
      (dim.dim = 0 ∧ ∃ dim', registerPlacement config register path deriveInfo = .list dim') ∨
        renamesDerived deriveInfo path infoName = rendersRenamed register path dpath ∨
        identText crates config (expandDim infoName (derivedIndex crates dim)) .register =
          identText crates config (removeDim infoName) .register

end Names

section Agreement

variable {crates : Crates} {config : Config}

theorem elementField_tyNames (doc name ty : String) (accessorOffset offset size : Nat) :
    (elementField doc name ty accessorOffset offset size).tyNames = [ty, ty] := rfl

/-- An array field names its element type in every accessor. -/
theorem IsArrayField.tyNames_eq {ty : String} {names : List String} {offset size : Nat}
    {dim : DimElement} {convertible : Bool} {rbf : RegisterBlockField}
    (h : IsArrayField ty names offset size dim convertible rbf) :
    ty ∈ rbf.tyNames ∧ ∀ name ∈ rbf.tyNames, name = ty := by
  obtain ⟨doc, note, elems, hacc, helems⟩ := h.accessors_eq
  have helem : ∀ a ∈ elems, a.accessor.ty = ty := by
    intro a ha
    obtain ⟨i, hi⟩ := List.getElem?_of_mem ha
    obtain ⟨-, doc, name, -, rfl⟩ := helems i a hi
    rfl
  have hfirst : ∀ b : Bool, ∀ a : ArrayAccessor,
      ((Accessor.array a).rawIf b).accessor.ty = a.ty := by
    intro b a
    cases b <;> rfl
  unfold RegisterBlockField.tyNames
  rw [h.ty_eq, hacc, List.map_cons, hfirst]
  refine ⟨by simp, ?_⟩
  intro name hname
  rw [List.mem_append, List.mem_cons] at hname
  obtain hname | rfl | hname := hname
  · cases convertible <;> simp_all
  · rfl
  · obtain ⟨a, ha, rfl⟩ := List.mem_map.mp hname
    exact helem a ha

/-- The fields of a placement name one type, and at least once unless there are
no fields. -/
theorem Placed.tyNames_eq {ty : String} {names : List String} {offset size : Nat}
    {placement : Placement} {rbfs : List RegisterBlockField}
    (h : Placed ty names offset size placement rbfs) :
    ∀ rbf ∈ rbfs, ty ∈ rbf.tyNames ∧ ∀ name ∈ rbf.tyNames, name = ty := by
  cases h with
  | single doc name =>
      intro rbf hrbf
      rw [List.mem_singleton] at hrbf
      simp [hrbf, elementField_tyNames]
  | rustArray h =>
      intro rbf hrbf
      rw [List.mem_singleton.mp hrbf]
      exact h.tyNames_eq
  | proxy h =>
      intro rbf hrbf
      rw [List.mem_singleton.mp hrbf]
      exact h.tyNames_eq
  | list h =>
      intro rbf hrbf
      obtain ⟨i, -, doc, name, rfl⟩ := exists_of_forall₂_mem h hrbf
      simp [elementField_tyNames]

/-- Only the list of an array without elements has no fields. -/
theorem Placed.eq_nil_iff {ty : String} {names : List String} {offset size : Nat}
    {placement : Placement} {rbfs : List RegisterBlockField}
    (h : Placed ty names offset size placement rbfs) :
    rbfs = [] ↔ ∃ dim, placement = .list dim ∧ dim.dim = 0 := by
  cases h with
  | single doc name => simp
  | rustArray h => simp
  | proxy h => simp
  | @list dim _ h =>
      have hlength := h.length_eq
      rw [List.length_range] at hlength
      rw [← List.length_eq_zero_iff, ← hlength]
      simp

/-- What `register::render` does to the name of an array. -/
theorem renderName_array {info : RegisterInfo} {dim : DimElement} {path : BlockPath}
    {dpath : Option RegisterPath} {name : String}
    (h : renderName config (.array info dim) path dpath = .ok name) :
    name = if rendersRenamed (.array info dim) path dpath then
        expandDim (info.fullname config.ignoreGroups) (derivedIndex crates dim)
      else removeDim (info.fullname config.ignoreGroups) := by
  unfold renderName at h
  cases dpath with
  | none => exact (gen_pure_ok.mp h).symm
  | some dpath =>
      cases hdim : dim.dimIndex with
      | none =>
          simp only [hdim] at h
          rw [← gen_pure_ok.mp h]
          simp [rendersRenamed, hdim, nameOf]
      | some dimIndex =>
          simp only [hdim] at h
          by_cases hblock : path = dpath.block
          · rw [if_pos hblock] at h
            obtain ⟨index, hindex, h⟩ := gen_bind_ok.mp h
            rw [← gen_pure_ok.mp h]
            simp [rendersRenamed, derivedIndex, hdim, hblock, unwrap_ok.mp hindex]
          · rw [if_neg hblock] at h
            rw [← gen_pure_ok.mp h]
            simp [rendersRenamed, hblock, nameOf]

/-- Two choices between the same names give one result when the choices agree or
the results do. -/
theorem apply_ite_eq_iff {α β : Type} (f : α → β) (b c : Bool) (x y : α) :
    f (if b then x else y) = f (if c then x else y) ↔ b = c ∨ f x = f y := by
  cases b <;> cases c <;> simp [eq_comm]

/-- **Type names.**  The block refers to the rendered type if and only if the two functions
rename the register alike.  Both sides format a name the register has after an optional
renaming, so that their identifiers agree if both rename, if neither does, or if the renaming
does not show. -/
theorem typeNamesAgree_iff {register : Register} {path : BlockPath} {deriveInfo : DeriveInfo}
    {dpath : Option RegisterPath} {rbfs : List RegisterBlockField} {ty : String}
    (hexpand : expandRegister crates config register path deriveInfo = .ok rbfs)
    (hrender : renderTy crates config register path dpath = .ok ty) :
    TypeNamesAgree crates config register path deriveInfo dpath ↔
      RenamedAlike crates config register path deriveInfo dpath := by
  obtain ⟨size, -, hplaced⟩ := expandRegister_placed hexpand
  obtain ⟨name, hname, hty⟩ := gen_bind_ok.mp hrender
  have hty := ident_text hty
  -- both sides come down to one equation between identifiers
  have hagree : TypeNamesAgree crates config register path deriveInfo dpath ↔
      rbfs = [] ∨ identText crates config
        (registerTyName crates config register path deriveInfo) .register = ty := by
    constructor
    · intro h
      cases rbfs with
      | nil => exact .inl rfl
      | cons rbf rest =>
          obtain ⟨hmem, -⟩ := hplaced.tyNames_eq rbf List.mem_cons_self
          exact .inr (h _ _ hexpand hrender rbf List.mem_cons_self _ hmem)
    · intro h rbfs' ty' hexpand' hrender' rbf hrbf t ht
      obtain rfl : rbfs = rbfs' := Except.ok.inj (hexpand.symm.trans hexpand')
      obtain rfl : ty = ty' := Except.ok.inj (hrender.symm.trans hrender')
      obtain rfl | heq := h
      · simp at hrbf
      · rw [← heq]
        exact (hplaced.tyNames_eq rbf hrbf).2 t ht
  rw [hagree, hplaced.eq_nil_iff, ← hty]
  cases register with
  | single info =>
      have hname : nameOf (.single info) config.ignoreGroups = name := by
        unfold renderName at hname
        cases dpath <;> exact gen_pure_ok.mp hname
      rw [← hname]
      exact iff_of_true (.inr rfl) trivial
  | array info dim =>
      have hdim := registerPlacement_dim config (.array info dim) path deriveInfo
      have hlist : (∃ dim', registerPlacement config (.array info dim) path deriveInfo =
          .list dim' ∧ dim'.dim = 0) ↔ dim.dim = 0 ∧ ∃ dim',
            registerPlacement config (.array info dim) path deriveInfo = .list dim' := by
        constructor
        · intro h
          obtain ⟨dim', hplace, hzero⟩ := h
          rw [hplace] at hdim
          obtain rfl : dim' = dim := Option.some.inj hdim
          exact ⟨hzero, dim', hplace⟩
        · intro h
          obtain ⟨hzero, dim', hplace⟩ := h
          rw [hplace] at hdim
          obtain rfl : dim' = dim := Option.some.inj hdim
          exact ⟨dim', hplace, hzero⟩
      rw [hlist, @renderName_array crates _ _ _ _ _ _ hname]
      apply or_congr_right
      exact apply_ite_eq_iff (identText crates config · .register) _ _ _ _

end Agreement

/-- A list of registers that starts at 3 and is derived from a register of the
same block is renamed by both. -/
theorem typeNamesAgree_indexed_list :
    TypeNamesAgree asciiCrates defaultConfig
      (.array (plainRegister "CCR%s" 16 32)
        ⟨2, 4, some ["3", "4"], none, by simp⟩) (.new "TIM")
      (.explicit ⟨.new "TIM", "CCR1"⟩) (some ⟨.new "TIM", "CCR1"⟩) :=
  (typeNamesAgree_iff rfl rfl).mpr (.inr (.inl (by decide)))

/-- Without `dimIndex` only the block renames the derived array. -/
theorem not_typeNamesAgree_counted_array :
    ¬ TypeNamesAgree asciiCrates defaultConfig
      (.array (plainRegister "CCR%s" 16 32) (countedDim 2 4)) (.new "TIM")
      (.explicit ⟨.new "TIM", "CCMR"⟩) (some ⟨.new "TIM", "CCMR"⟩) := by
  intro h
  have hname := h _ _ rfl rfl _ (.head _) "Ccr0" (by decide)
  exact absurd hname (by decide)

end Svd2Rust
