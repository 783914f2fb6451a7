import Svd2Rust.FieldRendering
import Svd2Rust.AsciiCrates

/-!
# Counting the values of an enumeration

The completeness tests of `register::fields` and the search of `minimal_hole` end at
`1 << width`.  Up to 63 bits that is the number of values of the field, so the tests are
exact and the hole is the least value that is free.  A 64-bit field is one that `to_ty`
accepts, and there the shift is by the whole width of the integer.
-/

namespace Svd2Rust

/-- The least value of the field that no enumerated value has, or none if all are
taken. -/
def IsMinimalHole (evs : EnumeratedValues) (width : Nat) : Option Nat → Prop
  | none => ∀ b < 2 ^ width, b ∈ evs.listed
  | some v => v < 2 ^ width ∧ v ∉ evs.listed ∧ ∀ u < v, u ∈ evs.listed

/-- The bound of the tests is the number of values of the field, the search finds the
least free one, and the default's variant has a value no other variant has. -/
structure ExactCounts (crates : Crates) (config : Config) (evs : EnumeratedValues)
    (width : Nat) : Prop where
  bound : shlOne width = .ok (2 ^ width)
  hole : ∃ hole, minimalHole (enumsToMap evs) width = .ok hole ∧ IsMinimalHole evs width hole
  fresh : ∃ default, defaultVariant crates config evs width = .ok default ∧
    ∀ variant ∈ default, variant.value < 2 ^ width ∧
      ∀ variants, Variant.fromEnumeratedValues crates config evs = .ok variants →
        ∀ other ∈ variants, other.value ≠ variant.value

theorem IsMinimalHole.eq_none_iff {evs : EnumeratedValues} {width : Nat} {hole : Option Nat}
    (h : IsMinimalHole evs width hole) : hole = none ↔ ∀ b < 2 ^ width, b ∈ evs.listed := by
  cases hole with
  | none => exact iff_of_true rfl h
  | some v => exact iff_of_false (by simp) fun hall => h.2.1 (hall v h.1)

/-- The search visits the values in order, so it stops at the least one. -/
theorem minimalHole_eq {evs : EnumeratedValues} {width : Nat} (hwidth : width < 64) :
    ∃ hole, minimalHole (enumsToMap evs) width = .ok hole ∧ IsMinimalHole evs width hole := by
  have hbound : shlOne width = .ok (2 ^ width) := shlOne_ok.mpr ⟨hwidth, rfl⟩
  refine ⟨_, gen_bind_ok.mpr ⟨_, hbound, rfl⟩, ?_⟩
  cases hfind : (List.range (2 ^ width)).find? fun v => (enumsToMap evs v).isNone with
  | none =>
      intro b hb
      have htaken := List.find?_range_eq_none.mp hfind b hb
      rw [Bool.not_eq_true', ← Bool.not_eq_true, enumsToMap_isNone, not_not] at htaken
      exact htaken
  | some v =>
      obtain ⟨hfree, hrange, hbefore⟩ := List.find?_range_eq_some.mp hfind
      refine ⟨List.mem_range.mp hrange, (enumsToMap_isNone evs v).mp hfree, fun u hu => ?_⟩
      have htaken := hbefore u hu
      rw [Bool.not_eq_true', ← Bool.not_eq_true, enumsToMap_isNone, not_not] at htaken
      exact htaken

/-- A variant made of an entry has a listed value. -/
theorem Variant.fromEnumeratedValues_listed {crates : Crates} {config : Config}
    {evs : EnumeratedValues} {variants : List Variant}
    (h : Variant.fromEnumeratedValues crates config evs = .ok variants) {v : Variant}
    (hv : v ∈ variants) : v.value ∈ evs.listed := by
  obtain ⟨ev, hev, value, hvalue, rfl⟩ :=
    exists_of_forall₂_mem (Variant.fromEnumeratedValues_ok h) hv
  exact EnumeratedValues.mem_listed.mpr ⟨ev, (EnumeratedValues.mem_kept.mp hev).1, hvalue⟩

section Counts

variable {crates : Crates} {config : Config} {evs : EnumeratedValues} {width : Nat}

/-- Below 64 bits the default's variant can be computed, and it takes the hole. -/
theorem defaultVariant_fresh (hwidth : width < 64) :
    ∃ default, defaultVariant crates config evs width = .ok default ∧
      ∀ variant ∈ default, variant.value < 2 ^ width ∧ variant.value ∉ evs.listed := by
  unfold defaultVariant
  cases evs.defaultValue with
  | none => exact ⟨none, rfl, by simp⟩
  | some entry =>
      obtain ⟨hole, hrun, hhole⟩ := @minimalHole_eq evs width hwidth
      refine ⟨_, gen_bind_ok.mpr ⟨hole, hrun, rfl⟩, ?_⟩
      intro variant hvariant
      obtain ⟨v, rfl, rfl⟩ := Option.map_eq_some_iff.mp hvariant
      exact ⟨hhole.1, hhole.2.1⟩

theorem shlOne_overflows (hwidth : 64 ≤ width) {bound : Nat} : shlOne width ≠ .ok bound :=
  fun h => absurd (shlOne_ok.mp h).1 (Nat.not_lt.mpr hwidth)

/-- A reader for an enumeration as wide as the shifted integer is never generated. -/
theorem readEnum_overflows (hwidth : 64 ≤ width) :
    ¬ ∃ reader, readEnum crates config evs width = .ok reader := by
  intro h
  obtain ⟨reader, h⟩ := h
  obtain ⟨_, -, h⟩ := gen_bind_ok.mp h
  obtain ⟨_, -, h⟩ := gen_bind_ok.mp h
  obtain ⟨_, -, h⟩ := gen_bind_ok.mp h
  obtain ⟨full, hfull, -⟩ := gen_bind_ok.mp h
  exact shlOne_overflows hwidth hfull

/-- Nor are the variants of its writer. -/
theorem writeVariants_overflows {safety : Safety} (hwidth : 64 ≤ width) :
    ¬ ∃ result, writeVariants crates config evs width safety = .ok result := by
  intro h
  obtain ⟨result, h⟩ := h
  obtain ⟨_, -, h⟩ := gen_bind_ok.mp h
  obtain ⟨_, -, h⟩ := gen_bind_ok.mp h
  obtain ⟨_, -, h⟩ := gen_bind_ok.mp h
  obtain ⟨full, hfull, -⟩ := gen_bind_ok.mp h
  exact shlOne_overflows hwidth hfull

/-- Of the widths a field can have, the counts are exact for all but the last.  `1 << width`
is computed in 64 bits, and overflows for a field of 64 bits only. -/
theorem exactCounts_iff : ExactCounts crates config evs width ↔ width < 64 := by
  constructor
  · intro h
    exact (shlOne_ok.mp h.bound).1
  · intro hwidth
    refine ⟨shlOne_ok.mpr ⟨hwidth, rfl⟩, minimalHole_eq hwidth, ?_⟩
    obtain ⟨default, hrun, hfresh⟩ :=
      @defaultVariant_fresh crates config evs width hwidth
    refine ⟨default, hrun, fun variant hvariant => ?_⟩
    obtain ⟨hlt, hunlisted⟩ := hfresh variant hvariant
    refine ⟨hlt, fun variants hvariants other hother hvalue => hunlisted ?_⟩
    rw [← hvalue]
    exact Variant.fromEnumeratedValues_listed hvariants hother

end Counts

/-- Two values and a default for the others. -/
def stepEnum : EnumeratedValues :=
  plainEnum [valuedEntry "Off" 0, valuedEntry "Full" 2, ⟨"Partial", none, none, true⟩]

/-- Listed for a 64-bit field: `to_ty` has a type for it, the count has no bound. -/
theorem not_exactCounts_stepEnum :
    toTy 64 = .ok .u64 ∧ shlOne 64 = panicking "attempt to shift left with overflow" ∧
      ¬ ExactCounts asciiCrates defaultConfig stepEnum 64 ∧
      ¬ ∃ reader, readEnum asciiCrates defaultConfig stepEnum 64 = .ok reader := by
  refine ⟨rfl, rfl, ?_, readEnum_overflows (by decide)⟩
  intro h
  cases h.bound

end Svd2Rust
