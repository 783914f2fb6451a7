import Svd2Rust.Identifiers

/-!
# Variants of an enumeration

`register::Variant` and the two collections the field generator counts beside
it: the listed values and the smallest value none of them takes.
-/

namespace Svd2Rust

open RustStrings

/-- `register::Variant`. -/
structure Variant where
  doc : String
  pc : String
  isSc : String
  sc : String
  value : Nat
deriving DecidableEq, Repr

/-- `ev.name.to_lowercase() == "reserved"`.  No letter outside ASCII has a letter
of "reserved" as its lower case, so lowering ASCII letters decides it. -/
def isReserved (name : String) : Bool :=
  mapChars (·.map Char.toLower) name == "reserved"

/-- The entries `Variant::from_enumerated_values` makes variants of. -/
def EnumeratedValues.kept (evs : EnumeratedValues) : List EnumeratedValue :=
  evs.values.filter fun ev => !isReserved ev.name && !ev.isDefault

/-- `EnumeratedValues::default_value`. -/
def EnumeratedValues.defaultValue (evs : EnumeratedValues) : Option EnumeratedValue :=
  evs.values.find? (·.isDefault)

/-- The listed values. -/
def EnumeratedValues.listed (evs : EnumeratedValues) : List Nat :=
  evs.values.filterMap (·.value)

/-- Names of the generic writer's own methods. -/
def internals : List String :=
  ["bit", "bits", "clear_bit", "set", "set_bit", "variant", "offset"]

/-- The binary digits of a number, most significant first. -/
def binaryDigits (n : Nat) : String :=
  String.ofList (Nat.toDigits 2 n)

section Variants

variable (crates : Crates) (config : Config)

/-- `Variant::from_value`, with the texts of its three identifiers. -/
def Variant.fromValue (value : Nat) (ev : EnumeratedValue) : Variant :=
  let case := config.identFormats .enumValueAccessor
  let nksc := case.apply crates ev.name
  let sc := case.sanitize crates ev.name
  { doc := ev.description.getD ("`" ++ binaryDigits value ++ "`")
    pc := identText crates config ev.name .enumValue
    isSc := if nksc.toList.head? = some '_' then "is" ++ nksc else "is_" ++ nksc
    sc := if sc ∈ internals then sc ++ "_" else sc
    value := value }

/-- `Variant::from_value` makes identifiers of the texts. -/
def newVariant (v : Variant) : Gen Variant := do
  let isSc ← newIdent crates v.isSc
  let sc ← newIdent crates v.sc
  let pc ← newIdent crates v.pc
  return { v with isSc := isSc, sc := sc, pc := pc }

/-- The closure `Variant::from_enumerated_values` maps over the entries it keeps. -/
def Variant.ofEntry (ev : EnumeratedValue) : Gen Variant := do
  let value ← okOr ("EnumeratedValue " ++ ev.name ++ " has no `<value>` entry") ev.value
  newVariant crates (Variant.fromValue crates config value ev)

/-- `Variant::from_enumerated_values`. -/
def Variant.fromEnumeratedValues (evs : EnumeratedValues) : Gen (List Variant) :=
  evs.kept.mapM (Variant.ofEntry crates config)

end Variants

/-- `enums_to_map`: a later entry replaces an earlier one of the same value. -/
def enumsToMap (evs : EnumeratedValues) : Nat → Option EnumeratedValue :=
  evs.values.foldl
    (fun map ev => match ev.value with
      | some v => fun x => if x = v then some ev else map x
      | none => map)
    (fun _ => none)

/-- `1 << n` on a 64-bit integer. -/
def shlOne (n : Nat) : Gen Nat :=
  if n < 64 then .ok (2 ^ n) else panicking "attempt to shift left with overflow"

/-- `minimal_hole`. -/
def minimalHole (map : Nat → Option EnumeratedValue) (width : Nat) : Gen (Option Nat) := do
  let bound ← shlOne width
  return (List.range bound).find? fun v => (map v).isNone

/-- The default entry as a variant: it takes the smallest value not listed.  Its identifiers
are made where the variants are collected. -/
def defaultVariant (crates : Crates) (config : Config) (evs : EnumeratedValues) (width : Nat) :
    Gen (Option Variant) :=
  match evs.defaultValue with
  | none => return none
  | some entry => do
      let hole ← minimalHole (enumsToMap evs) width
      return hole.map fun v => Variant.fromValue crates config v entry

/-- The variant of the default entry with its identifiers. -/
def newDefault (crates : Crates) (default : Option Variant) : Gen (Option Variant) :=
  match default with
  | none => return none
  | some v => do
      let v ← newVariant crates v
      return some v

/-- An identifier has the text it is made of. -/
theorem newVariant_ok {crates : Crates} {v w : Variant} (h : newVariant crates v = .ok w) :
    w = v := by
  obtain ⟨isSc, hisSc, h⟩ := gen_bind_ok.mp h
  obtain ⟨sc, hsc, h⟩ := gen_bind_ok.mp h
  obtain ⟨pc, hpc, h⟩ := gen_bind_ok.mp h
  rw [← gen_pure_ok.mp h, ← (newIdent_ok.mp hisSc).2, ← (newIdent_ok.mp hsc).2,
    ← (newIdent_ok.mp hpc).2]

theorem newDefault_ok {crates : Crates} {default default' : Option Variant}
    (h : newDefault crates default = .ok default') : default = default' := by
  cases default with
  | none => exact gen_pure_ok.mp h
  | some v =>
      obtain ⟨w, hw, h⟩ := gen_bind_ok.mp h
      rw [← gen_pure_ok.mp h, newVariant_ok hw]

@[simp] theorem Variant.fromValue_value (crates : Crates) (config : Config) (value : Nat)
    (ev : EnumeratedValue) : (Variant.fromValue crates config value ev).value = value := rfl

theorem EnumeratedValues.mem_kept {evs : EnumeratedValues} {ev : EnumeratedValue} :
    ev ∈ evs.kept ↔ ev ∈ evs.values ∧ isReserved ev.name = false ∧ ev.isDefault = false := by
  simp [kept]

theorem EnumeratedValues.mem_listed {evs : EnumeratedValues} {b : Nat} :
    b ∈ evs.listed ↔ ∃ ev ∈ evs.values, ev.value = some b := by
  simp [listed]

/-- The default entry is an entry marked as default. -/
theorem EnumeratedValues.defaultValue_some {evs : EnumeratedValues} {entry : EnumeratedValue}
    (h : evs.defaultValue = some entry) : entry ∈ evs.values ∧ entry.isDefault = true :=
  ⟨List.mem_of_find?_eq_some h, by simpa using List.find?_some h⟩

/-- Without a default entry no entry is marked as default. -/
theorem EnumeratedValues.defaultValue_none {evs : EnumeratedValues}
    (h : evs.defaultValue = none) {ev : EnumeratedValue} (hev : ev ∈ evs.values) :
    ev.isDefault = false := by
  simpa using List.find?_eq_none.mp h ev hev

theorem shlOne_ok {n m : Nat} : shlOne n = .ok m ↔ n < 64 ∧ 2 ^ n = m := by
  unfold shlOne
  split
  · simp [*]
  · simp [*]

/-- The map has a key exactly for every listed value. -/
theorem enumsToMap_isNone (evs : EnumeratedValues) (b : Nat) :
    (enumsToMap evs b).isNone = true ↔ b ∉ evs.listed := by
  suffices h : ∀ (entries : List EnumeratedValue) (map : Nat → Option EnumeratedValue),
      ((entries.foldl (fun map ev => match ev.value with
        | some v => fun x => if x = v then some ev else map x
        | none => map) map) b).isNone = true ↔
      (map b).isNone = true ∧ b ∉ entries.filterMap (·.value) by
    simpa [enumsToMap, EnumeratedValues.listed] using h evs.values fun _ => none
  intro entries
  induction entries with
  | nil => intro map; simp
  | cons ev rest ih =>
      intro map
      rw [List.foldl_cons, ih]
      cases hv : ev.value with
      | none => simp [hv]
      | some v =>
          by_cases hb : b = v
          · simp [hv, hb]
          · simp [hv, hb]

/-- The hole is the smallest value of the field that is not listed. -/
theorem minimalHole_ok {evs : EnumeratedValues} {width : Nat} {hole : Option Nat}
    (h : minimalHole (enumsToMap evs) width = .ok hole) :
    width < 64 ∧
      match hole with
      | none => ∀ b < 2 ^ width, b ∈ evs.listed
      | some v => v < 2 ^ width ∧ v ∉ evs.listed := by
  obtain ⟨bound, hbound, hfind⟩ := gen_bind_ok.mp h
  obtain ⟨hwidth, rfl⟩ := shlOne_ok.mp hbound
  refine ⟨hwidth, ?_⟩
  have hfind := gen_pure_ok.mp hfind
  cases hole with
  | none =>
      intro b hb
      have hnot := List.find?_eq_none.mp hfind b (List.mem_range.mpr hb)
      by_contra hunlisted
      exact hnot ((enumsToMap_isNone evs b).mpr hunlisted)
  | some v =>
      refine ⟨List.mem_range.mp (List.mem_of_find?_eq_some hfind), ?_⟩
      apply (enumsToMap_isNone evs v).mp
      simpa using List.find?_some hfind

/-- Every variant comes from a kept entry and carries its value. -/
theorem Variant.fromEnumeratedValues_ok {crates : Crates} {config : Config}
    {evs : EnumeratedValues} {variants : List Variant}
    (h : Variant.fromEnumeratedValues crates config evs = .ok variants) :
    List.Forall₂ (fun ev variant =>
      ∃ v, ev.value = some v ∧ variant = Variant.fromValue crates config v ev)
      evs.kept variants := by
  refine (gen_mapM_ok.mp h).imp fun ev variant hev => ?_
  obtain ⟨v, hv, hvariant⟩ := gen_bind_ok.mp hev
  exact ⟨v, okOr_ok.mp hv, newVariant_ok hvariant⟩

end Svd2Rust
