import Mathlib.Algebra.Group.Nat.Defs
import Svd2Rust.RustStrings

/-!
# Integer literals of Rust

The value of an unsuffixed literal: decimal digits, or `0x` and hexadecimal digits,
with underscores anywhere behind the first decimal digit or the prefix.  A literal has
at least one digit.
-/

namespace RustLiterals

open RustStrings

/-- The value of a digit of the base. -/
def digitOf (base : Nat) (c : Char) : Option Nat :=
  let d :=
    if '0' ≤ c ∧ c ≤ '9' then c.toNat - 48
    else if 'a' ≤ c ∧ c ≤ 'f' then c.toNat - 87
    else if 'A' ≤ c ∧ c ≤ 'F' then c.toNat - 55
    else base
  if d < base then some d else none

/-- Read digits behind those that make up `v`. -/
def readFrom (base : Nat) : (v : Nat) → List Char → Option Nat
  | v, [] => some v
  | v, c :: cs =>
      if c = '_' then readFrom base v cs
      else do
        let d ← digitOf base c
        readFrom base (base * v + d) cs

/-- The value of an integer literal. -/
def intLiteral (s : String) : Option Nat :=
  match s.toList with
  | '0' :: 'x' :: digits =>
      if digits.any (· ≠ '_') then readFrom 16 0 digits else none
  | c :: cs => if c = '_' then none else readFrom 10 0 (c :: cs)
  | [] => none

theorem digitOf_digitChar {base d : Nat} (hbase : base ≤ 16) (hd : d < base) :
    digitOf base d.digitChar = some d := by
  have hread : ∀ base ≤ 16, ∀ d < base, digitOf base d.digitChar = some d := by decide
  exact hread base hbase d hd

theorem digitChar_ne_underscore {d : Nat} (hd : d < 16) : d.digitChar ≠ '_' := by
  have hne : ∀ d < 16, Nat.digitChar d ≠ '_' := by decide
  exact hne d hd

section Read

variable {base : Nat}

@[simp] theorem readFrom_nil (v : Nat) : readFrom base v [] = some v := rfl

@[simp] theorem readFrom_underscore (v : Nat) (cs : List Char) :
    readFrom base v ('_' :: cs) = readFrom base v cs := rfl

theorem readFrom_digitChar (hbase : base ≤ 16) {d : Nat} (hd : d < base) (v : Nat)
    (cs : List Char) :
    readFrom base v (d.digitChar :: cs) = readFrom base (base * v + d) cs := by
  rw [readFrom, if_neg (digitChar_ne_underscore (by omega)), digitOf_digitChar hbase hd]
  rfl

/-- Reading on from what was read. -/
theorem readFrom_append {v w : Nat} {cs : List Char} (h : readFrom base v cs = some w)
    (ds : List Char) : readFrom base v (cs ++ ds) = readFrom base w ds := by
  induction cs generalizing v with
  | nil =>
      cases h
      rfl
  | cons c cs ih =>
      rw [List.cons_append, readFrom]
      rw [readFrom] at h
      by_cases hc : c = '_'
      · rw [if_pos hc] at h ⊢
        exact ih h
      · rw [if_neg hc] at h ⊢
        cases hd : digitOf base c with
        | none => simp [hd] at h
        | some d =>
            simp only [hd, Option.bind_eq_bind, Option.bind_some] at h ⊢
            exact ih h

/-- Printed digits shift what is before them and add the number. -/
theorem readFrom_toDigits (hone : 1 < base) (hbase : base ≤ 16) (v n : Nat) :
    readFrom base v (Nat.toDigits base n) =
      some (base ^ (Nat.toDigits base n).length * v + n) := by
  induction n using Nat.strongRecOn with
  | ind n ih =>
      rw [Nat.toDigits_eq_if hone]
      by_cases hn : n < base
      · rw [if_pos hn, readFrom_digitChar hbase hn]
        simp
      · have hdiv : n / base < n := Nat.div_lt_self (by omega) hone
        have hmod : n % base < base := Nat.mod_lt _ (by omega)
        have hsplit := Nat.div_add_mod n base
        rw [if_neg hn, readFrom_append (ih _ hdiv), readFrom_digitChar hbase hmod,
          List.length_append, readFrom_nil]
        congr 1
        calc base * (base ^ (Nat.toDigits base (n / base)).length * v + n / base) + n % base
            = base * base ^ (Nat.toDigits base (n / base)).length * v +
                (base * (n / base) + n % base) := by
              rw [Nat.mul_add, Nat.mul_assoc, Nat.add_assoc]
          _ = base ^ ((Nat.toDigits base (n / base)).length + [(n % base).digitChar].length) * v +
                n := by
              rw [hsplit, List.length_singleton, Nat.pow_succ, Nat.mul_comm base]

theorem readFrom_zeros (hbase : 0 < base) (v k : Nat) :
    readFrom base v (List.replicate k '0') = some (base ^ k * v) := by
  induction k generalizing v with
  | zero => simp
  | succ k ih =>
      have hzero : digitOf base '0' = some 0 := by
        simp [digitOf, hbase]
      rw [List.replicate_succ, readFrom, if_neg (by decide), hzero]
      simp only [Option.bind_eq_bind, Option.bind_some]
      rw [ih, Nat.add_zero, Nat.pow_succ, Nat.mul_assoc]

end Read

/-- A padded group of hexadecimal digits shifts by its width. -/
theorem readFrom_paddedHex {width n : Nat} (hwidth : 0 < width) (hn : n < 16 ^ width) (v : Nat) :
    readFrom 16 v (paddedHex width n).toList = some (16 ^ width * v + n) := by
  have hlength := (Nat.length_toDigits_le_iff (b := 16) (by decide) hwidth).mpr hn
  rw [paddedHex, String.toList_ofList, readFrom_append (readFrom_zeros (by decide) v _),
    readFrom_toDigits (by decide) (by decide), ← Nat.mul_assoc, ← Nat.pow_add]
  congr 4
  omega

/-- A padded group holds a digit. -/
theorem exists_digit_paddedHex (width n : Nat) : ∃ c ∈ (paddedHex width n).toList, c ≠ '_' := by
  refine ⟨(n % 16).digitChar, ?_, digitChar_ne_underscore (Nat.mod_lt _ (by decide))⟩
  rw [paddedHex, String.toList_ofList]
  apply List.mem_append_right
  rw [Nat.toDigits_eq_if (by decide)]
  split
  · rename_i hn
    rw [Nat.mod_eq_of_lt hn]
    exact List.mem_singleton_self _
  · exact List.mem_append_right _ (List.mem_singleton_self _)

/-- A literal of hexadecimal groups, the first of them padded. -/
theorem intLiteral_hex {s : String} {width n v : Nat} {rest : List Char}
    (hs : s.toList = '0' :: 'x' :: ((paddedHex width n).toList ++ rest))
    (hread : readFrom 16 0 ((paddedHex width n).toList ++ rest) = some v) :
    intLiteral s = some v := by
  obtain ⟨c, hc, hne⟩ := exists_digit_paddedHex width n
  have hany : ((paddedHex width n).toList ++ rest).any (· ≠ '_') = true :=
    List.any_eq_true.mpr ⟨c, List.mem_append_left _ hc, by simpa using hne⟩
  rw [intLiteral, hs]
  simp only [hany, if_true, hread]

/-- A number printed in decimal digits is a literal of it. -/
theorem intLiteral_decimal (n : Nat) : intLiteral (String.ofList (Nat.toDigits 10 n)) = some n := by
  have hread : readFrom 10 0 (Nat.toDigits 10 n) = some n := by
    simpa using @readFrom_toDigits 10 (by decide) (by decide) 0 n
  rw [intLiteral, String.toList_ofList]
  split
  · rename_i digits heq
    have hx : 'x' ∈ Nat.toDigits 10 n := by simp [heq]
    have hdigit := Nat.isDigit_of_mem_toDigits (by decide) (by decide) hx
    exact absurd hdigit (by decide)
  · rename_i c cs _ heq
    have hc : c ≠ '_' := by
      intro heq
      obtain rfl := heq
      exact Nat.underscore_not_in_toDigits (n := n) (by simp [heq])
    rw [if_neg hc, ← heq, hread]
  · rename_i heq
    exact absurd heq Nat.toDigits_ne_nil

end RustLiterals
