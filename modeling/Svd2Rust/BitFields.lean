import Mathlib.Data.BitVec

/-!
# Bit fields of a machine word

A field of a word is a run of `w` bits from bit `o` on.  `extract` reads it into
the low bits and `insert` overwrites it; both are written with masks and shifts,
as code does, and every law is read off the two lemmas that say what a single
bit of the result is.
-/

namespace BitFields

variable {n : Nat}

/-- The word whose lowest `w` bits are set: all ones, shifted down. -/
def lowMask (n w : Nat) : BitVec n := BitVec.allOnes n >>> (n - w)

/-- Bits `o` up to `o + w` of the word, as the low bits of a word. -/
def extract (word : BitVec n) (o w : Nat) : BitVec n := (word >>> o) &&& lowMask n w

/-- The word with bits `o` up to `o + w` replaced by the low bits of `value`. -/
def insert (word : BitVec n) (o w : Nat) (value : BitVec n) : BitVec n :=
  (word &&& ~~~(lowMask n w <<< o)) ||| ((value &&& lowMask n w) <<< o)

/-- Bit `i` belongs to the run of `w` bits from bit `o` on. -/
def InRun (o w i : Nat) : Prop := o ≤ i ∧ i < o + w

instance (o w i : Nat) : Decidable (InRun o w i) := inferInstanceAs (Decidable (_ ∧ _))

/-- Two runs without a common bit. -/
def DisjointRuns (o w o' w' : Nat) : Prop := ∀ i, InRun o w i → ¬ InRun o' w' i

theorem DisjointRuns.symm {o w o' w' : Nat} (h : DisjointRuns o w o' w') :
    DisjointRuns o' w' o w := fun i hi hi' => h i hi' hi

theorem getLsbD_lowMask {w : Nat} (hw : w ≤ n) (i : Nat) :
    (lowMask n w).getLsbD i = decide (i < w) := by
  rw [lowMask, BitVec.getLsbD_ushiftRight, BitVec.getLsbD_allOnes]
  by_cases hi : i < w
  · have hlt : n - w + i < n := by omega
    simp [hi, hlt]
  · have hge : ¬ n - w + i < n := by omega
    simp [hi, hge]

/-- **A bit of an extracted field.** -/
theorem getLsbD_extract {w : Nat} (hw : w ≤ n) (word : BitVec n) (o i : Nat) :
    (extract word o w).getLsbD i = (word.getLsbD (o + i) && decide (i < w)) := by
  rw [extract, BitVec.getLsbD_and, BitVec.getLsbD_ushiftRight, getLsbD_lowMask hw]

/-- **A bit after an insertion.**  Inside the run it comes from the value, outside
it is what it was. -/
theorem getLsbD_insert {w i : Nat} (hw : w ≤ n) (hi : i < n) (word value : BitVec n) (o : Nat) :
    (insert word o w value).getLsbD i =
      if InRun o w i then value.getLsbD (i - o) else word.getLsbD i := by
  simp only [insert, BitVec.getLsbD_or, BitVec.getLsbD_and, BitVec.getLsbD_not,
    BitVec.getLsbD_shiftLeft, getLsbD_lowMask hw, hi, decide_true, Bool.true_and]
  by_cases hlow : o ≤ i
  · have hnot : ¬ i < o := by omega
    by_cases hhigh : i < o + w
    · have hin : i - o < w := by omega
      simp [InRun, hlow, hhigh, hnot, hin]
    · have hout : ¬ i - o < w := by omega
      simp [InRun, hlow, hhigh, hnot, hout]
  · have hlt : i < o := by omega
    simp [InRun, hlow, hlt]

/-- Only the low bits of the inserted value count. -/
theorem insert_congr {w : Nat} {value value' : BitVec n}
    (h : value &&& lowMask n w = value' &&& lowMask n w) (word : BitVec n) (o : Nat) :
    insert word o w value = insert word o w value' := by
  rw [insert, insert, h]

/-- Setting the bits of a run. -/
theorem or_shiftLeft_lowMask (word : BitVec n) (o w : Nat) :
    word ||| (lowMask n w <<< o) = insert word o w (BitVec.allOnes n) := by
  rw [insert, BitVec.allOnes_and]
  apply BitVec.eq_of_getLsbD_eq
  intro i hi
  simp only [BitVec.getLsbD_or, BitVec.getLsbD_and, BitVec.getLsbD_not, hi, decide_true,
    Bool.true_and]
  cases (lowMask n w <<< o).getLsbD i <;> simp

/-- Clearing the bits of a run. -/
theorem and_not_shiftLeft_lowMask (word : BitVec n) (o w : Nat) :
    word &&& ~~~(lowMask n w <<< o) = insert word o w 0 := by
  simp [insert]

/-- The word `1` is the mask of one bit. -/
theorem one_eq_lowMask (hn : 0 < n) : (1 : BitVec n) = lowMask n 1 := by
  apply BitVec.eq_of_getLsbD_eq
  intro i hi
  rw [getLsbD_lowMask hn]
  cases i with
  | zero => simp [hn]
  | succ i => simp [BitVec.getLsbD_one]

/-- Two words that agree on a run have the same field there. -/
theorem extract_congr {w o : Nat} (hw : w ≤ n) {word word' : BitVec n}
    (h : ∀ i, InRun o w i → word.getLsbD i = word'.getLsbD i) :
    extract word o w = extract word' o w := by
  apply BitVec.eq_of_getLsbD_eq
  intro i hi
  rw [getLsbD_extract hw, getLsbD_extract hw]
  by_cases hlt : i < w
  · rw [h (o + i) ⟨by omega, by omega⟩]
  · simp [hlt]

/-- **Read after write.**  A field inside the written run, at its start, reads as the
low bits of the value. -/
theorem extract_insert {w w' o : Nat} (hle : w ≤ w') (hw' : w' ≤ n) (h : o + w ≤ n)
    (word value : BitVec n) :
    extract (insert word o w' value) o w = value &&& lowMask n w := by
  have hw : w ≤ n := by omega
  apply BitVec.eq_of_getLsbD_eq
  intro i hi
  rw [getLsbD_extract hw, BitVec.getLsbD_and, getLsbD_lowMask hw]
  by_cases hlt : i < w
  · rw [getLsbD_insert hw' (by omega), if_pos ⟨by omega, by omega⟩, Nat.add_sub_cancel_left]
  · simp [hlt]

/-- The inserted field itself reads as the low bits of the value. -/
theorem extract_insert_self {w o : Nat} (h : o + w ≤ n) (word value : BitVec n) :
    extract (insert word o w value) o w = value &&& lowMask n w :=
  extract_insert le_rfl (by omega) h word value

/-- **Frame.**  A field without a bit in the written run reads as before. -/
theorem extract_insert_of_disjoint {w o w' o' : Nat} (hw : w ≤ n) (hw' : w' ≤ n)
    (h : DisjointRuns o w o' w') (word value : BitVec n) :
    extract (insert word o w value) o' w' = extract word o' w' := by
  apply extract_congr hw'
  intro i hi
  by_cases hlt : i < n
  · have hout : ¬ InRun o w i := fun hin => h i hin hi
    rw [getLsbD_insert hw hlt, if_neg hout]
  · rw [BitVec.getLsbD_of_ge _ _ (by omega), BitVec.getLsbD_of_ge _ _ (by omega)]

/-- Fields that read alike agree on their run. -/
theorem getLsbD_of_extract_eq {w o i : Nat} (hw : w ≤ n) {word word' : BitVec n}
    (h : extract word o w = extract word' o w) (hi : InRun o w i) :
    word.getLsbD i = word'.getLsbD i := by
  have hbit := congrArg (fun x : BitVec n => x.getLsbD (i - o)) h
  have hlt : i - o < w := by
    obtain ⟨hlow, hhigh⟩ := hi
    omega
  simp only [getLsbD_extract hw, hlt, decide_true, Bool.and_true, Nat.add_sub_cancel' hi.1] at hbit
  exact hbit

/-- A field that reads as zero has no bit set. -/
theorem getLsbD_of_toNat_extract_eq_zero {w o i : Nat} (hw : w ≤ n) {word : BitVec n}
    (h : (extract word o w).toNat = 0) (hi : InRun o w i) : word.getLsbD i = false := by
  have hzero : extract word o w = extract 0 o w := by
    apply BitVec.eq_of_toNat_eq
    rw [h, extract]
    simp
  rw [getLsbD_of_extract_eq hw hzero hi]
  simp

/-- The field that reaches the top of the word is a plain shift. -/
theorem extract_top (word : BitVec n) {o : Nat} (ho : o ≤ n) :
    extract word o (n - o) = word >>> o := by
  apply BitVec.eq_of_getLsbD_eq
  intro i hi
  rw [getLsbD_extract (by omega), BitVec.getLsbD_ushiftRight]
  by_cases hlt : i < n - o
  · simp [hlt]
  · rw [BitVec.getLsbD_of_ge _ _ (by omega)]
    rfl

/-- The mask as a number. -/
theorem ofNat_two_pow_sub_one {w : Nat} (hw : w ≤ n) :
    BitVec.ofNat n (2 ^ w - 1) = lowMask n w := by
  apply BitVec.eq_of_getLsbD_eq
  intro i hi
  rw [BitVec.getLsbD_ofNat, Nat.testBit_two_pow_sub_one, getLsbD_lowMask hw]
  simp [hi]

/-- Masking is reduction modulo a power of two. -/
theorem toNat_and_lowMask {w : Nat} (hw : w ≤ n) (value : BitVec n) :
    (value &&& lowMask n w).toNat = value.toNat % 2 ^ w := by
  apply Nat.eq_of_testBit_eq
  intro i
  rw [Nat.testBit_mod_two_pow]
  have hbit := congrArg (fun b => (value.getLsbD i && b)) (getLsbD_lowMask hw i)
  simpa [BitVec.getLsbD, BitVec.toNat_and, Nat.testBit_and, Bool.and_comm] using hbit

/-- A field is smaller than two to its width. -/
theorem toNat_extract_lt {w : Nat} (hw : w ≤ n) (word : BitVec n) (o : Nat) :
    (extract word o w).toNat < 2 ^ w := by
  rw [extract, toNat_and_lowMask hw]
  exact Nat.mod_lt _ (Nat.two_pow_pos w)

end BitFields
