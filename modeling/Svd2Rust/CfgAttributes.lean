import Mathlib.Data.List.Basic

/-!
# Conditional compilation

Generated items carry `#[cfg(..)]` attributes over named features.  `compile` keeps
the items whose attributes all hold for the enabled features.  What is said of every
set of enabled features is decided by the features an item itself names
(`forall_all_iff_subset`): the least set that enables an item enables no other one
with a feature more.
-/

namespace CfgAttributes

variable {Feature Item : Type*}

/-- The predicate of one attribute: `feature = f`, `any(feature = f, ..)` or
`not(all(feature = f, ..))`. -/
inductive Predicate (Feature : Type*) where
  | feature (f : Feature)
  | any (fs : List Feature)
  | notAll (fs : List Feature)
deriving DecidableEq, Repr

def Predicate.holds (F : Feature → Bool) : Predicate Feature → Bool
  | .feature f => F f
  | .any fs => fs.any F
  | .notAll fs => !fs.all F

/-- An item behind its attributes. -/
structure Gated (Feature Item : Type*) where
  cfg : List (Predicate Feature)
  item : Item
deriving DecidableEq, Repr

/-- One attribute for each feature. -/
def features (fs : List Feature) : List (Predicate Feature) := fs.map .feature

/-- All attributes of the item hold. -/
def Gated.present (F : Feature → Bool) (g : Gated Feature Item) : Bool :=
  g.cfg.all (·.holds F)

/-- The items that are compiled. -/
def compile (F : Feature → Bool) (items : List (Gated Feature Item)) : List Item :=
  (items.filter (·.present F)).map (·.item)

@[simp] theorem all_features (F : Feature → Bool) (fs : List Feature) :
    (features fs).all (·.holds F) = fs.all F := by
  simp [features, List.all_map, Function.comp_def, Predicate.holds]

@[simp] theorem compile_append (F : Feature → Bool) (items more : List (Gated Feature Item)) :
    compile F (items ++ more) = compile F items ++ compile F more := by
  simp [compile]

@[simp] theorem present_features (F : Feature → Bool) (fs : List Feature) (x : Item) :
    (⟨features fs, x⟩ : Gated Feature Item).present F = fs.all F := all_features F fs

theorem mem_compile {F : Feature → Bool} {items : List (Gated Feature Item)} {x : Item} :
    x ∈ compile F items ↔ ∃ g ∈ items, g.present F = true ∧ g.item = x := by
  simp [compile, and_assoc]

/-- Items without attributes are always compiled. -/
theorem compile_ungated (F : Feature → Bool) (n : Nat) (x : Item) :
    compile F (List.replicate n ⟨[], x⟩) = List.replicate n x := by
  induction n with
  | zero => rfl
  | succ n ih =>
      rw [List.replicate_succ, List.replicate_succ]
      exact congrArg (x :: ·) ih

/-- Two items with opposite attributes: one of them is compiled. -/
theorem compile_complementary (F : Feature → Bool) (fs : List Feature) (x y : Item) :
    compile F [⟨[.notAll fs], x⟩, ⟨features fs, y⟩] = [if fs.all F then y else x] := by
  have hnot : (⟨[.notAll fs], x⟩ : Gated Feature Item).present F = !fs.all F := by
    simp only [Gated.present, List.all_cons, List.all_nil, Predicate.holds, Bool.and_true]
  cases hall : fs.all F with
  | false => simp only [compile, List.filter, hnot, present_features, hall]; rfl
  | true => simp only [compile, List.filter, hnot, present_features, hall]; rfl

/-- One attribute more on every item: all are left out, or it does not matter. -/
theorem compile_feature (F : Feature → Bool) (f : Feature) (items : List (Gated Feature Item)) :
    compile F (items.map fun g => ⟨[.feature f] ++ g.cfg, g.item⟩) =
      if F f then compile F items else [] := by
  have hpresent : ∀ g : Gated Feature Item,
      (⟨.feature f :: g.cfg, g.item⟩ : Gated Feature Item).present F = (F f && g.present F) :=
    fun _ => rfl
  cases hf : F f with
  | false => simp [compile, List.filter_map, Function.comp_def, hpresent, hf]
  | true => simp [compile, List.filter_map, Function.comp_def, hpresent, hf]

/-! ## The features items name -/

def Predicate.named : Predicate Feature → List Feature
  | .feature f => [f]
  | .any fs => fs
  | .notAll fs => fs

/-- The features the attributes of the items name. -/
def namedFeatures (items : List (Gated Feature Item)) : List Feature :=
  items.flatMap fun g => g.cfg.flatMap Predicate.named

@[simp] theorem named_features (fs : List Feature) : (features fs).flatMap Predicate.named = fs := by
  induction fs with
  | nil => rfl
  | cons f fs ih => exact congrArg (f :: ·) ih

@[simp] theorem namedFeatures_append (items more : List (Gated Feature Item)) :
    namedFeatures (items ++ more) = namedFeatures items ++ namedFeatures more :=
  List.flatMap_append

theorem mem_namedFeatures {items : List (Gated Feature Item)} {f : Feature} :
    f ∈ namedFeatures items ↔ ∃ g ∈ items, f ∈ g.cfg.flatMap Predicate.named :=
  List.mem_flatMap

/-- An item behind one attribute for each feature names these. -/
@[simp] theorem namedFeatures_singleton (fs : List Feature) (x : Item) :
    namedFeatures [(⟨features fs, x⟩ : Gated Feature Item)] = fs := by
  rw [namedFeatures, List.flatMap_singleton, named_features]

/-- Items without attributes name none. -/
theorem namedFeatures_ungated (n : Nat) (x : Item) :
    namedFeatures (List.replicate n (⟨[], x⟩ : Gated Feature Item)) = [] := by
  induction n with
  | zero => rfl
  | succ n ih => exact ih

/-! ## All sets of enabled features -/

/-- More features enabled, more attributes hold. -/
theorem all_of_subset {F : Feature → Bool} {fs gs : List Feature} (hsub : gs ⊆ fs)
    (hall : fs.all F = true) : gs.all F = true := by
  rw [List.all_eq_true] at hall ⊢
  exact fun g hg => hall g (hsub hg)

section Subsets

variable [DecidableEq Feature]

/-- The least set of features that enables all of `fs`. -/
def least (fs : List Feature) (f : Feature) : Bool := decide (f ∈ fs)

theorem all_least (fs : List Feature) : fs.all (least fs) = true := by
  simp [least]

theorem all_least_iff {fs gs : List Feature} : gs.all (least fs) = true ↔ gs ⊆ fs := by
  simp [least, List.subset_def]

theorem forall_all_iff_subset {fs gs : List Feature} :
    (∀ F : Feature → Bool, fs.all F = true → gs.all F = true) ↔ gs ⊆ fs := by
  constructor
  · intro h
    exact all_least_iff.mp (h (least fs) (all_least fs))
  · intro hsub F
    exact all_of_subset hsub

/-- Two items are compiled together exactly when they name the same features. -/
theorem forall_all_iff_iff_subset {fs gs : List Feature} :
    (∀ F : Feature → Bool, fs.all F = true ↔ gs.all F = true) ↔ gs ⊆ fs ∧ fs ⊆ gs := by
  rw [← forall_all_iff_subset, ← forall_all_iff_subset, ← forall_and]
  exact forall_congr' fun F => iff_iff_implies_and_implies

/-- One of several items is compiled with the features `fs` exactly when one of them
names no further feature. -/
theorem forall_exists_all_iff {fs : List Feature} {Gate : List Feature → Prop} :
    (∀ F : Feature → Bool, fs.all F = true → ∃ gs, Gate gs ∧ gs.all F = true) ↔
      ∃ gs, Gate gs ∧ gs ⊆ fs := by
  constructor
  · intro h
    obtain ⟨gs, hgate, hall⟩ := h (least fs) (all_least fs)
    exact ⟨gs, hgate, all_least_iff.mp hall⟩
  · intro h F hall
    obtain ⟨gs, hgate, hsub⟩ := h
    exact ⟨gs, hgate, all_of_subset hsub hall⟩

end Subsets

end CfgAttributes
