import Svd2Rust.BitFields

/-!
# Words divided into cells

A family of cells places runs of bits in a word.  Code changes a word cell by cell, or
replaces it as a whole; `get_changeAll` reads a cell after any number of changes: it holds
what the last change that names it left, and with no such change what it held before.
Operations that work on each bit alone act on the cells one by one.
-/

namespace WordCells

open BitFields

variable {n : Nat} {ι : Type}

/-- A run of bits. -/
structure Cell where
  offset : Nat
  width : Nat
deriving DecidableEq, Repr

/-- The cell of a word, as low bits. -/
def Cell.get (c : Cell) (word : BitVec n) : BitVec n := extract word c.offset c.width

/-- Bit `i` belongs to the cell. -/
def Cell.Has (c : Cell) (i : Nat) : Prop := InRun c.offset c.width i

/-- It has no bits above its width. -/
theorem get_masked (c : Cell) (word : BitVec n) : c.get word &&& lowMask n c.width = c.get word := by
  rw [Cell.get, extract, BitVec.and_assoc, BitVec.and_self]

/-- The cells lie inside a word, and no two have a common bit. -/
structure Apart (n : Nat) (cell : ι → Cell) (P : ι → Prop) : Prop where
  fits : ∀ e, P e → (cell e).offset + (cell e).width ≤ n
  disjoint : ∀ e f, P e → P f → e ≠ f →
    DisjointRuns (cell e).offset (cell e).width (cell f).offset (cell f).width

/-- A change of a word: the low bits of a value into a cell, or a new word. -/
inductive Change (n : Nat) (ι : Type) where
  | cell (e : ι) (value : BitVec n)
  | whole (value : BitVec n)
deriving DecidableEq

section Changes

variable [DecidableEq ι] (cell : ι → Cell)

def Change.apply (word : BitVec n) : Change n ι → BitVec n
  | .cell e value => insert word (cell e).offset (cell e).width value
  | .whole value => value

/-- Changes one after the other. -/
def changeAll (word : BitVec n) (changes : List (Change n ι)) : BitVec n :=
  changes.foldl (Change.apply cell) word

/-- What a change leaves in the cell `e`. -/
def Change.leaves (e : ι) : Change n ι → Option (BitVec n)
  | .cell f value => if f = e then some (value &&& lowMask n (cell e).width) else none
  | .whole value => some ((cell e).get value)

/-- What the last change that names the cell `e` leaves in it. -/
def lastLeft (e : ι) (changes : List (Change n ι)) : Option (BitVec n) :=
  changes.foldl (fun left change => (change.leaves cell e).or left) none

/-- The changes name cells of the family only. -/
def Change.Names (P : ι → Prop) : Change n ι → Prop
  | .cell e _ => P e
  | .whole _ => True

variable {cell}

/-- The last changes count. -/
theorem lastLeft_concat (e : ι) (changes : List (Change n ι)) (change : Change n ι) :
    lastLeft cell e (changes ++ [change]) =
      (change.leaves cell e).or (lastLeft cell e changes) := by
  rw [lastLeft, List.foldl_append]
  rfl

/-- **One change.**  A value for a cell changes that cell and no other, since the cells are
apart; of a new word every cell has its part. -/
theorem get_apply {P : ι → Prop} (h : Apart n cell P) {e : ι} (he : P e) (word : BitVec n)
    {change : Change n ι} (hnames : change.Names P) :
    (cell e).get (change.apply cell word) =
      (change.leaves cell e).getD ((cell e).get word) := by
  have hfits := h.fits e he
  cases change with
  | whole value => rfl
  | cell f value =>
      simp only [Change.apply, Change.leaves]
      by_cases hfe : f = e
      · subst hfe
        rw [if_pos rfl, Option.getD_some]
        exact extract_insert_self hfits word value
      · rw [if_neg hfe, Option.getD_none]
        have hfits' := h.fits f hnames
        exact extract_insert_of_disjoint (by omega) (by omega) (h.disjoint f e hnames he hfe) word
          value

/-- **Last change.**  A cell holds what the last change that names it left.  The induction
is from the end of the list, where the last change is. -/
theorem get_changeAll {P : ι → Prop} (h : Apart n cell P) {e : ι} (he : P e) (word : BitVec n)
    {changes : List (Change n ι)} (hnames : ∀ change ∈ changes, change.Names P) :
    (cell e).get (changeAll cell word changes) =
      (lastLeft cell e changes).getD ((cell e).get word) := by
  induction changes using List.reverseRecOn with
  | nil => rfl
  | append_singleton changes change ih =>
      have hchange := hnames change (List.mem_append_right _ (List.mem_singleton.mpr rfl))
      have hrest := ih fun c hc => hnames c (List.mem_append_left _ hc)
      rw [changeAll, List.foldl_append, List.foldl_cons, List.foldl_nil, ← changeAll,
        get_apply h he _ hchange, hrest, lastLeft_concat]
      cases change.leaves cell e with
      | none => rfl
      | some value => rfl

/-- **Any contents.**  Cells that are apart can hold what one likes. -/
theorem exists_word {P : ι → Prop} (h : Apart n cell P) {es : List ι} (hes : ∀ e ∈ es, P e)
    (value : ι → BitVec n) :
    ∃ word, ∀ e ∈ es, (cell e).get word = value e &&& lowMask n (cell e).width := by
  induction es with
  | nil => exact ⟨0, List.forall_mem_nil _⟩
  | cons e es ih =>
      obtain ⟨word, hword⟩ := ih fun f hf => hes f (List.mem_cons_of_mem _ hf)
      refine ⟨(Change.cell e (value e)).apply cell word, fun f hf => ?_⟩
      have hnames : (Change.cell e (value e)).Names P := hes e List.mem_cons_self
      rw [get_apply h (hes f hf) word hnames, Change.leaves]
      by_cases hef : e = f
      · subst hef
        rw [if_pos rfl, Option.getD_some]
      · rw [if_neg hef, Option.getD_none]
        exact hword f (List.mem_of_ne_of_mem (Ne.symm hef) hf)

theorem lastLeft_append (e : ι) (changes later : List (Change n ι)) :
    lastLeft cell e (changes ++ later) = (lastLeft cell e later).or (lastLeft cell e changes) := by
  induction later using List.reverseRecOn with
  | nil => rw [List.append_nil]; rfl
  | append_singleton later change ih =>
      rw [← List.append_assoc, lastLeft_concat, ih, lastLeft_concat, Option.or_assoc]

theorem leaves_masked {e : ι} {change : Change n ι} {value : BitVec n}
    (h : change.leaves cell e = some value) : value &&& lowMask n (cell e).width = value := by
  cases change with
  | whole word =>
      obtain rfl := Option.some.inj h
      exact get_masked _ _
  | cell f word =>
      by_cases hfe : f = e
      · rw [Change.leaves, if_pos hfe] at h
        obtain rfl := Option.some.inj h
        rw [BitVec.and_assoc, BitVec.and_self]
      · rw [Change.leaves, if_neg hfe] at h
        cases h

/-- What is left in a cell has no bits above its width. -/
theorem lastLeft_masked {e : ι} {changes : List (Change n ι)} {value : BitVec n}
    (h : lastLeft cell e changes = some value) : value &&& lowMask n (cell e).width = value := by
  induction changes using List.reverseRecOn with
  | nil => cases h
  | append_singleton changes change ih =>
      rw [lastLeft_concat] at h
      cases hleaves : change.leaves cell e with
      | none =>
          rw [hleaves, Option.none_or] at h
          exact ih h
      | some left =>
          rw [hleaves, Option.some_or] at h
          obtain rfl := Option.some.inj h
          exact leaves_masked hleaves

end Changes

/-! ## Operations on single bits -/

/-- The operation works on each bit alone. -/
def Bitwise (f : Bool → Bool → Bool) (op : BitVec n → BitVec n → BitVec n) : Prop :=
  ∀ x y, ∀ i < n, (op x y).getLsbD i = f (x.getLsbD i) (y.getLsbD i)

/-- Such an operation acts on a cell as it does on a word. -/
theorem get_bitwise {f : Bool → Bool → Bool} {op : BitVec n → BitVec n → BitVec n}
    (h : Bitwise f op) {c : Cell} (hfits : c.offset + c.width ≤ n) (x y : BitVec n) :
    c.get (op x y) = op (c.get x) (c.get y) &&& lowMask n c.width := by
  have hwidth : c.width ≤ n := by omega
  apply BitVec.eq_of_getLsbD_eq
  intro i hi
  rw [BitVec.getLsbD_and, getLsbD_lowMask hwidth, Cell.get, getLsbD_extract hwidth,
    h _ _ i hi, Cell.get, Cell.get, getLsbD_extract hwidth, getLsbD_extract hwidth]
  by_cases hlt : i < c.width
  · rw [h x y (c.offset + i) (by omega)]
    simp [hlt]
  · simp [hlt]

/-- Low bits of the result come from low bits. -/
theorem Bitwise.and_lowMask_right {f : Bool → Bool → Bool} {op : BitVec n → BitVec n → BitVec n}
    (h : Bitwise f op) {w : Nat} (hw : w ≤ n) (x y : BitVec n) :
    op x (y &&& lowMask n w) &&& lowMask n w = op x y &&& lowMask n w := by
  apply BitVec.eq_of_getLsbD_eq
  intro i hi
  rw [BitVec.getLsbD_and, BitVec.getLsbD_and, h _ _ i hi, h _ _ i hi, BitVec.getLsbD_and,
    getLsbD_lowMask hw]
  by_cases hlt : i < w
  · simp [hlt]
  · simp [hlt]

/-- Words that agree on the bits of a cell have the same cell. -/
theorem get_congr {c : Cell} (hfits : c.offset + c.width ≤ n) {x y : BitVec n}
    (h : ∀ i, c.Has i → x.getLsbD i = y.getLsbD i) : c.get x = c.get y :=
  extract_congr (by omega) h

theorem get_zero (c : Cell) : c.get (0 : BitVec n) = 0 := by
  simp [Cell.get, extract]

end WordCells
