import Svd2Rust.StepRuns

/-!
# Words in a memory of bytes

`load` and `store` move words of whole bytes, low byte first.  A word that was stored is
loaded back (`load_store`), and words of other bytes are not affected
(`load_store_of_apart`).

A program works on several words, and its events say which.  `eventsOn` picks those for
one word, and `project_run` says that a run whose events change one word each is, seen
from a word, the run of its own events: the others may come in between as they like.
-/

namespace ByteMemory

open StepRuns

/-- The byte at each address. -/
abbrev Memory := Nat → BitVec 8

/-- The word of `n` bits at the address `a`. -/
def load (n : Nat) (m : Memory) (a : Nat) : BitVec n :=
  (BitVec.iunfoldr (fun i _ => ((), (m (a + i / 8)).getLsbD (i % 8))) ()).2

/-- The memory with the word `v` at the address `a`. -/
def store {n : Nat} (m : Memory) (a : Nat) (v : BitVec n) : Memory := fun b =>
  if a ≤ b ∧ b < a + n / 8 then v.extractLsb' (8 * (b - a)) 8 else m b

/-- Bytes from an address on. -/
structure Span where
  address : Nat
  length : Nat
deriving DecidableEq, Repr

def Span.Has (s : Span) (a : Nat) : Prop := s.address ≤ a ∧ a < s.address + s.length

instance (s : Span) (a : Nat) : Decidable (s.Has a) := inferInstanceAs (Decidable (_ ∧ _))

/-- One ends where the other begins, or before. -/
def Span.Apart (s t : Span) : Prop :=
  s.address + s.length ≤ t.address ∨ t.address + t.length ≤ s.address

instance (s t : Span) : Decidable (s.Apart t) := inferInstanceAs (Decidable (_ ∨ _))

theorem getLsbD_load {n : Nat} (m : Memory) (a : Nat) {i : Nat} (hi : i < n) :
    (load n m a).getLsbD i = (m (a + i / 8)).getLsbD (i % 8) :=
  BitVec.iunfoldr_getLsbD (fun _ => ()) ⟨i, hi⟩ fun _ => rfl

theorem store_of_not_has {n : Nat} (m : Memory) {a b : Nat} (v : BitVec n)
    (h : ¬ (Span.mk a (n / 8)).Has b) : store m a v b = m b := if_neg h

/-- **Own word.**  Loading at the address of a store gives the word that was stored, byte by
byte from the least significant one. -/
theorem load_store {n : Nat} (hbytes : 8 ∣ n) (m : Memory) (a : Nat) (v : BitVec n) :
    load n (store m a v) a = v := by
  apply BitVec.eq_of_getLsbD_eq
  intro i hi
  obtain ⟨k, rfl⟩ := hbytes
  have hin : a ≤ a + i / 8 ∧ a + i / 8 < a + 8 * k / 8 := by omega
  have hbyte : i % 8 < 8 := Nat.mod_lt _ (by decide)
  rw [getLsbD_load _ _ hi, store, if_pos hin, BitVec.getLsbD_extractLsb', decide_eq_true hbyte,
    Bool.true_and, Nat.add_sub_cancel_left, Nat.div_add_mod]

/-- **Other words.**  A store changes only the bytes of its span, so a word that shares none
of them is loaded as before. -/
theorem load_store_of_apart {n n' : Nat} (hbytes : 8 ∣ n) (m : Memory) {a a' : Nat} (v : BitVec n')
    (h : (Span.mk a (n / 8)).Apart ⟨a', n' / 8⟩) : load n (store m a' v) a = load n m a := by
  apply BitVec.eq_of_getLsbD_eq
  intro i hi
  obtain ⟨k, rfl⟩ := hbytes
  have hout : ¬ (Span.mk a' (n' / 8)).Has (a + i / 8) := by
    simp only [Span.Apart, Span.Has] at h ⊢
    omega
  rw [getLsbD_load _ _ hi, getLsbD_load _ _ hi, store_of_not_has m v hout]

/-! ## Runs on several words -/

section Runs

variable {κ : Type} {ε : κ → Type} {bits : κ → Nat}

/-- What a program does with its words: the word `k` is loaded, changes in a step and is
stored. -/
inductive WordStep (address : κ → Nat) (step : ∀ k, BitVec (bits k) → ε k → BitVec (bits k) → Prop) :
    Memory → (Σ k, ε k) → Memory → Prop
  | on {m : Memory} {k : κ} {ev : ε k} {b : BitVec (bits k)}
      (hstep : step k (load (bits k) m (address k)) ev b) :
      WordStep address step m ⟨k, ev⟩ (store m (address k) b)

/-- The bytes of a word. -/
def wordSpan (bits address : κ → Nat) (k : κ) : Span := ⟨address k, bits k / 8⟩

variable {address : κ → Nat}
  {step : ∀ k, BitVec (bits k) → ε k → BitVec (bits k) → Prop} {m m' : Memory}
  {events : List (Σ k, ε k)}

/-- **Frame.**  Bytes of no word of the run stay.  Each step stores one word. -/
theorem frame_run (h : Run (WordStep address step) m events m') {a : Nat}
    (hout : ∀ ev ∈ events, ¬ (wordSpan bits address ev.1).Has a) : m' a = m a := by
  induction h with
  | nil => rfl
  | @cons m mid m' ev events hstep _ ih =>
      have hrest := ih fun ev' hev' => hout ev' (List.mem_cons_of_mem _ hev')
      cases hstep with
      | @on k ev b hstep =>
          rw [hrest, store_of_not_has m b (hout ⟨k, ev⟩ List.mem_cons_self)]

variable [DecidableEq κ]

/-- The events for the word `k`. -/
def eventsOn (k : κ) (events : List (Σ k, ε k)) : List (ε k) :=
  events.filterMap fun ev => if h : ev.1 = k then some (h ▸ ev.2) else none

theorem eventsOn_cons_self (k : κ) (ev : ε k) (events : List (Σ k, ε k)) :
    eventsOn k (⟨k, ev⟩ :: events) = ev :: eventsOn k events := by
  simp [eventsOn]

theorem eventsOn_cons_of_ne {k j : κ} (h : j ≠ k) (ev : ε j) (events : List (Σ k, ε k)) :
    eventsOn k (⟨j, ev⟩ :: events) = eventsOn k events := by
  simp [eventsOn, h]

/-- **One word.**  A run is, for a word that is apart from the others in it, a run of the
events for that word. -/
theorem project_run (h : Run (WordStep address step) m events m') {k : κ} (hbytes : 8 ∣ bits k)
    (hapart : ∀ ev ∈ events, ev.1 ≠ k →
      (wordSpan bits address k).Apart (wordSpan bits address ev.1)) :
    Run (step k) (load (bits k) m (address k)) (eventsOn k events)
      (load (bits k) m' (address k)) := by
  induction h with
  | nil => exact .nil
  | @cons m mid m' ev events hstep _ ih =>
      have hrest := ih fun ev' hev' => hapart ev' (List.mem_cons_of_mem _ hev')
      cases hstep with
      | @on j ev b hstep =>
          by_cases hjk : j = k
          · subst hjk
            rw [load_store hbytes] at hrest
            rw [eventsOn_cons_self]
            exact .cons hstep hrest
          · have hother := hapart ⟨j, ev⟩ List.mem_cons_self hjk
            rw [load_store_of_apart hbytes m b hother] at hrest
            rw [eventsOn_cons_of_ne hjk]
            exact hrest

end Runs

end ByteMemory
