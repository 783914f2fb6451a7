import Mathlib.Order.Lattice
import Mathlib.Data.List.Basic
import Mathlib.Tactic.Common

/-!
# Binary search as Rust's slices do it

`slice::binary_search_by_key` halves a window without leaving early on a hit,
so on repeated keys it may return any of the matching positions.  This file
keeps the loop of the standard library and proves what its documentation
promises on a sorted list: a hit names a position that holds the key, a miss
names the position where the key can be inserted without breaking the order.
-/

namespace SliceSearch

variable {κ : Type*} [LinearOrder κ]

/-- One comparison: the window moves up to `mid` unless the key there is greater. -/
def probe (keys : List κ) (target : κ) (base mid : Nat) : Nat :=
  match keys[mid]? with
  | some key => if target < key then base else mid
  | none => base

/-- The halving loop: `size` elements from `base` on are still in the window. -/
def searchBase (keys : List κ) (target : κ) : (fuel size base : Nat) → Nat
  | 0, _, base => base
  | fuel + 1, size, base =>
      if 1 < size then
        searchBase keys target fuel (size - size / 2) (probe keys target base (base + size / 2))
      else base

/-- `slice::binary_search`: `Ok` with a matching index, or `Err` with an
insertion index. -/
def binarySearch (keys : List κ) (target : κ) : Except Nat Nat :=
  match keys[searchBase keys target keys.length keys.length 0]? with
  | none => .error 0
  | some key =>
      if key = target then .ok (searchBase keys target keys.length keys.length 0)
      else .error (searchBase keys target keys.length keys.length 0 + if key < target then 1 else 0)

/-- The window invariant: nothing before `base` exceeds the target, and
everything from the window's end on does. -/
structure Window (keys : List κ) (target : κ) (size base : Nat) : Prop where
  size_pos : 0 < size
  inside : base + size ≤ keys.length
  below : base = 0 ∨ ∀ key, keys[base]? = some key → key ≤ target
  above : ∀ j key, base + size ≤ j → keys[j]? = some key → target < key

/-- One halving step keeps the window invariant. -/
theorem Window.halve {keys : List κ} {target : κ} (hsorted : keys.Pairwise (· ≤ ·))
    {size base : Nat} (h : Window keys target size base) (hsize : 1 < size) :
    Window keys target (size - size / 2) (probe keys target base (base + size / 2)) := by
  have hmid : base + size / 2 < keys.length := by have := h.inside; omega
  unfold probe
  rw [List.getElem?_eq_getElem hmid]
  by_cases hgreater : target < keys[base + size / 2]
  · -- the upper half starts above the target: by order all of it does
    simp only [hgreater, if_true]
    refine ⟨by omega, by have := h.inside; omega, h.below, ?_⟩
    intro j key hj hkey
    obtain ⟨hjl, rfl⟩ := List.getElem?_eq_some_iff.mp hkey
    rcases Nat.lt_or_ge (base + size / 2) j with hlt | hge
    · exact hgreater.trans_le (List.pairwise_iff_getElem.mp hsorted _ _ hmid hjl hlt)
    · have heq : j = base + size / 2 := by omega
      subst heq
      exact hgreater
  · simp only [hgreater, if_false]
    refine ⟨by omega, by have := h.inside; omega, Or.inr ?_, ?_⟩
    · intro key hkey
      obtain ⟨_, rfl⟩ := List.getElem?_eq_some_iff.mp hkey
      exact not_lt.mp hgreater
    · intro j key hj
      exact h.above j key (by omega)

/-- The loop ends on a window of one element. -/
theorem searchBase_window {keys : List κ} {target : κ} (hsorted : keys.Pairwise (· ≤ ·)) :
    ∀ fuel size base, Window keys target size base → size ≤ fuel + 1 →
      Window keys target 1 (searchBase keys target fuel size base) := by
  intro fuel
  induction fuel with
  | zero =>
      intro size base h hfuel
      have : size = 1 := by have := h.size_pos; omega
      subst this
      exact h
  | succ fuel ih =>
      intro size base h hfuel
      unfold searchBase
      by_cases hsize : 1 < size
      · simp only [hsize, if_true]
        exact ih _ _ (h.halve hsorted hsize) (by omega)
      · simp only [hsize, if_false]
        have : size = 1 := by have := h.size_pos; omega
        subst this
        exact h

/-- **Hit.**  A returned index holds the target. -/
theorem binarySearch_ok {keys : List κ} {target : κ} {idx : Nat}
    (h : binarySearch keys target = .ok idx) : keys[idx]? = some target := by
  unfold binarySearch at h
  split at h
  · cases h
  · next key hkey =>
      split at h
      · next heq =>
          cases h
          rw [hkey, heq]
      · cases h

/-- **Miss.**  On a sorted list the insertion index separates the smaller keys
from the larger ones, and the target itself is absent. -/
theorem binarySearch_error {keys : List κ} {target : κ} (hsorted : keys.Pairwise (· ≤ ·))
    {idx : Nat} (h : binarySearch keys target = .error idx) :
    idx ≤ keys.length ∧ (∀ key ∈ keys.take idx, key < target) ∧
      ∀ key ∈ keys.drop idx, target < key := by
  unfold binarySearch at h
  by_cases hnil : keys = []
  · subst hnil
    simp only [List.length_nil, List.getElem?_nil] at h
    cases h
    simp
  have hlen : 0 < keys.length := List.length_pos_iff.mpr hnil
  have hstart : Window keys target keys.length 0 := by
    refine ⟨hlen, by omega, Or.inl rfl, ?_⟩
    intro j key hj hkey
    rw [List.getElem?_eq_none (by omega)] at hkey
    cases hkey
  have hwin := searchBase_window hsorted keys.length keys.length 0 hstart (by omega)
  generalize hbase : searchBase keys target keys.length keys.length 0 = base at h hwin
  have hb : base < keys.length := by have := hwin.inside; omega
  rw [List.getElem?_eq_getElem hb] at h
  have hle := List.pairwise_iff_getElem.mp hsorted
  by_cases heq : keys[base] = target
  · simp only [heq, if_true] at h
    cases h
  simp only [heq, if_false, Except.error.injEq] at h
  by_cases hless : keys[base] < target
  · simp only [hless, if_true] at h
    subst h
    refine ⟨by omega, ?_, ?_⟩
    · intro key hkey
      obtain ⟨j, hj, rfl⟩ := List.mem_take_iff_getElem.mp hkey
      rcases Nat.lt_or_ge j base with hlt | hge
      · exact (hle j base (by omega) hb hlt).trans_lt hless
      · have : j = base := by omega
        subst this
        exact hless
    · intro key hkey
      obtain ⟨j, hj, rfl⟩ := List.mem_drop_iff_getElem.mp hkey
      exact hwin.above (base + 1 + j) _ (by omega) (List.getElem?_eq_getElem (by omega))
  · simp only [hless, if_false, Nat.add_zero] at h
    subst h
    -- the window's first key already exceeds the target, so the window is at the front
    have hgt : target < keys[base] := lt_of_le_of_ne (not_lt.mp hless) (Ne.symm heq)
    have hzero : base = 0 := by
      rcases hwin.below with h0 | hb'
      · exact h0
      · exact absurd (hb' _ (List.getElem?_eq_getElem hb)) (not_le.mpr hgt)
    subst hzero
    refine ⟨by omega, by simp, ?_⟩
    intro key hkey
    obtain ⟨j, hj, rfl⟩ := List.mem_iff_getElem.mp hkey
    rcases Nat.eq_zero_or_pos j with rfl | hpos
    · simpa using hgt
    · simp only [List.drop_zero] at hj ⊢
      exact hgt.trans_le (hle 0 j hb hj hpos)

/-- On a sorted list the search misses exactly the absent keys. -/
theorem exists_error_iff {keys : List κ} {target : κ} (hsorted : keys.Pairwise (· ≤ ·)) :
    (∃ idx, binarySearch keys target = .error idx) ↔ target ∉ keys := by
  constructor
  · intro h hmem
    obtain ⟨idx, hmiss⟩ := h
    obtain ⟨-, hsmaller, hlarger⟩ := binarySearch_error hsorted hmiss
    rw [← List.take_append_drop idx keys] at hmem
    rcases List.mem_append.mp hmem with hmem | hmem
    · exact lt_irrefl _ (hsmaller _ hmem)
    · exact lt_irrefl _ (hlarger _ hmem)
  · intro habsent
    cases hsearch : binarySearch keys target with
    | error idx => exact ⟨idx, rfl⟩
    | ok idx => exact absurd (List.mem_of_getElem? (binarySearch_ok hsearch)) habsent

/-- Inserting at an index splits the list there. -/
theorem insertIdx_eq_take_drop {α : Type*} (a : α) (xs : List α) {idx : Nat}
    (h : idx ≤ xs.length) : xs.insertIdx idx a = xs.take idx ++ a :: xs.drop idx := by
  induction xs generalizing idx with
  | nil =>
      have : idx = 0 := by simpa using h
      subst this
      rfl
  | cons x xs ih =>
      cases idx with
      | zero => rfl
      | succ idx => simp [ih (Nat.le_of_succ_le_succ h)]

end SliceSearch
