import Svd2Rust.IntLiterals

/-!
# Hexadecimal tokens

`hex` cuts a `u64` into four groups of 16 bits and prints them from the first one that
is not zero, all with their leading zeros; a number below 256 gets two digits and zero
is the decimal literal.  Each layout is a literal of the number.
-/

namespace Svd2Rust

open RustStrings RustLiterals

/-- `util::unsuffixed`. -/
def unsuffixed (n : UInt64) : String := String.ofList (Nat.toDigits 10 n.toNat)

/-- `util::hex`. -/
def hex (n : UInt64) : String :=
  let h4 := (n >>> 48) &&& 0xffff
  let h3 := (n >>> 32) &&& 0xffff
  let h2 := (n >>> 16) &&& 0xffff
  let h1 := n &&& 0xffff
  if h4 ≠ 0 then
    "0x" ++ paddedHex 4 h4.toNat ++ "_" ++ paddedHex 4 h3.toNat ++ "_" ++
      paddedHex 4 h2.toNat ++ "_" ++ paddedHex 4 h1.toNat
  else if h3 ≠ 0 then
    "0x" ++ paddedHex 4 h3.toNat ++ "_" ++ paddedHex 4 h2.toNat ++ "_" ++ paddedHex 4 h1.toNat
  else if h2 ≠ 0 then "0x" ++ paddedHex 4 h2.toNat ++ "_" ++ paddedHex 4 h1.toNat
  else if h1 &&& 0xff00 ≠ 0 then "0x" ++ paddedHex 4 h1.toNat
  else if h1 ≠ 0 then "0x" ++ paddedHex 2 (h1 &&& 0xff).toNat
  else "0"

/-- `util::digit_or_hex`. -/
def digitOrHex (n : UInt64) : String := if n < 10 then unsuffixed n else hex n

/-- `util::hex_nonzero`. -/
def hexNonzero (n : UInt64) : Option String := if n ≠ 0 then some (hex n) else none

/-! ## Groups -/

/-- A group is a digit of the number to the base `2 ^ 16`. -/
theorem group_toNat (n shift : UInt64) (hshift : shift.toNat < 64) :
    ((n >>> shift) &&& 0xffff).toNat = n.toNat / 2 ^ shift.toNat % 2 ^ 16 := by
  rw [UInt64.toNat_and, UInt64.toNat_shiftRight, Nat.mod_eq_of_lt hshift,
    Nat.shiftRight_eq_div_pow]
  exact Nat.and_two_pow_sub_one_eq_mod _ 16

theorem lowGroup_toNat (n : UInt64) : (n &&& 0xffff).toNat = n.toNat % 2 ^ 16 := by
  rw [UInt64.toNat_and]
  exact Nat.and_two_pow_sub_one_eq_mod _ 16

theorem lowByte_toNat (h : UInt64) : (h &&& 0xff).toNat = h.toNat % 2 ^ 8 := by
  rw [UInt64.toNat_and]
  exact Nat.and_two_pow_sub_one_eq_mod _ 8

/-- Without bits in its upper byte a group is its lower byte. -/
theorem highByte_of_and_eq_zero {h : UInt64} (hzero : h &&& 0xff00 = 0) :
    h.toNat / 2 ^ 8 % 2 ^ 8 = 0 := by
  have hand : h.toNat &&& 0xff00 = 0 := by
    have hnat := congrArg UInt64.toNat hzero
    rwa [UInt64.toNat_and] at hnat
  have hdiv : (h.toNat &&& 0xff00) / 2 ^ 8 = h.toNat / 2 ^ 8 &&& (2 ^ 8 - 1) :=
    Nat.and_div_two_pow
  rw [Nat.and_two_pow_sub_one_eq_mod, hand, Nat.zero_div] at hdiv
  exact hdiv.symm

/-- A group that a layout leaves out is zero. -/
theorem toNat_of_skipped {g : UInt64} (h : ¬ g ≠ 0) : g.toNat = 0 := by
  rw [not_not.mp h]
  rfl

/-- The groups behind the one that makes up `v`. -/
theorem readFrom_groups {rest : List Nat} (hrest : ∀ h ∈ rest, h < 2 ^ 16) (v : Nat) :
    readFrom 16 v (rest.flatMap fun h => '_' :: (paddedHex 4 h).toList) =
      some (rest.foldl (fun v h => 2 ^ 16 * v + h) v) := by
  induction rest generalizing v with
  | nil => rfl
  | cons h rest ih =>
      have hgroup := @readFrom_paddedHex 4 h (by decide) (hrest h List.mem_cons_self) v
      rw [List.flatMap_cons, List.cons_append, readFrom_underscore, readFrom_append hgroup,
        ih fun g hg => hrest g (List.mem_cons_of_mem _ hg)]
      rfl

/-- A token of groups is the number whose digits they are. -/
theorem intLiteral_groups {s : String} {first v : Nat} {rest : List Nat}
    (hs : s.toList = '0' :: 'x' :: ((paddedHex 4 first).toList ++
      rest.flatMap fun h => '_' :: (paddedHex 4 h).toList))
    (hfirst : first < 2 ^ 16) (hrest : ∀ h ∈ rest, h < 2 ^ 16)
    (hvalue : rest.foldl (fun v h => 2 ^ 16 * v + h) first = v) : intLiteral s = some v := by
  refine intLiteral_hex hs ?_
  rw [readFrom_append (@readFrom_paddedHex 4 _ (by decide) hfirst 0),
    readFrom_groups hrest, ← hvalue]
  simp

/-! ## Tokens -/

/-- Whichever layout the groups select, the token is a literal of the number. -/
theorem intLiteral_hex_eq (n : UInt64) : intLiteral (hex n) = some n.toNat := by
  have hn := n.toNat_lt
  have h4 := group_toNat n 48 (by decide)
  have h3 := group_toNat n 32 (by decide)
  have h2 := group_toNat n 16 (by decide)
  have h1 := lowGroup_toNat n
  unfold hex
  generalize n >>> 48 &&& 0xffff = g4 at h4 ⊢
  generalize n >>> 32 &&& 0xffff = g3 at h3 ⊢
  generalize n >>> 16 &&& 0xffff = g2 at h2 ⊢
  generalize n &&& 0xffff = g1 at h1 ⊢
  simp only [UInt64.reduceToNat] at h4 h3 h2
  have z4 := @toNat_of_skipped g4
  have z3 := @toNat_of_skipped g3
  have z2 := @toNat_of_skipped g2
  have z1 := @toNat_of_skipped g1
  dsimp only
  split_ifs with hg4 hg3 hg2 hhigh hg1
  · refine @intLiteral_groups _ g4.toNat _ [g3.toNat, g2.toNat, g1.toNat] (by simp) (by omega)
      (by simp; omega) ?_
    simp only [List.foldl_cons, List.foldl_nil]
    omega
  · refine @intLiteral_groups _ g3.toNat _ [g2.toNat, g1.toNat] (by simp) (by omega)
      (by simp; omega) ?_
    have hzero := z4 hg4
    simp only [List.foldl_cons, List.foldl_nil]
    omega
  · refine @intLiteral_groups _ g2.toNat _ [g1.toNat] (by simp) (by omega) (by simp; omega) ?_
    have hzero := And.intro (z4 hg4) (z3 hg3)
    simp only [List.foldl_cons, List.foldl_nil]
    omega
  · refine @intLiteral_groups _ g1.toNat _ [] (by simp) (by omega) (by simp) ?_
    have hzero := And.intro (z4 hg4) (And.intro (z3 hg3) (z2 hg2))
    rw [List.foldl_nil]
    omega
  · -- one byte
    have hzero := And.intro (z4 hg4) (And.intro (z3 hg3) (z2 hg2))
    have hbyte := highByte_of_and_eq_zero (not_not.mp hhigh)
    have hlow := lowByte_toNat g1
    have hread := @readFrom_paddedHex 2 (g1 &&& 0xff).toNat (by decide) (by omega) 0
    rw [@intLiteral_hex _ 2 (g1 &&& 0xff).toNat _ [] (by simp) (by rw [List.append_nil, hread])]
    congr 1
    omega
  · have hzero := And.intro (z4 hg4) (And.intro (z3 hg3) (And.intro (z2 hg2) (z1 hg1)))
    have hn : n.toNat = 0 := by omega
    rw [hn]
    decide

theorem intLiteral_unsuffixed (n : UInt64) : intLiteral (unsuffixed n) = some n.toNat :=
  intLiteral_decimal n.toNat

/-- **Tokens.**  Every token of a `u64` is a literal of it, and only zero has no nonzero
token.  The groups of four digits are printed from the first one that is not zero, and the
underscores between them mean nothing to a literal. -/
theorem hexLiterals_faithful (n : UInt64) :
    intLiteral (hex n) = some n.toNat ∧ intLiteral (digitOrHex n) = some n.toNat ∧
      (hexNonzero n).bind intLiteral = if n ≠ 0 then some n.toNat else none := by
  refine ⟨intLiteral_hex_eq n, ?_, ?_⟩
  · unfold digitOrHex
    split
    · exact intLiteral_unsuffixed n
    · exact intLiteral_hex_eq n
  · unfold hexNonzero
    split
    · exact intLiteral_hex_eq n
    · rfl

example : hex 0xdead = "0xdead" ∧ hex 0x40021000 = "0x4002_1000" ∧ hex 0x7f = "0x7f" := by
  decide

end Svd2Rust
