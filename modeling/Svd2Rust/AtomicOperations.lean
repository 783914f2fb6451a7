import Svd2Rust.Interleavings
import Svd2Rust.NeutralModify

/-!
# Atomic bit operations

`generic_atomic.rs`: `set_bits`, `clear_bits` and `toggle_bits` build a word with a
closure and apply it to the register in one atomic instruction.  The proxy of the
closure starts with the bits that leave the register alone, so a closure that
touches only some bits changes only those, whatever the other bits are by then
(`AtomicCall.issue_frame`, `AtomicCall.issue_congr`).  Threads with masks of
their own therefore compose without loss (`atomics_compose`).
-/

namespace Svd2Rust

open Interleavings

/-- The generated methods. -/
inductive AtomicMethod where
  | setBits
  | clearBits
  | toggleBits
deriving DecidableEq, Repr

section Methods

variable {n : Nat}

/-- The bits of the write proxy the closure gets. -/
def AtomicMethod.start : AtomicMethod → BitVec n
  | .setBits => 0
  | .clearBits => ~~~0
  | .toggleBits => 0

/-- `atomic_or`, `atomic_and` and `atomic_xor` on a register that holds `reg`. -/
def AtomicMethod.apply (method : AtomicMethod) (bits reg : BitVec n) : BitVec n :=
  match method with
  | .setBits => reg ||| bits
  | .clearBits => reg &&& bits
  | .toggleBits => reg ^^^ bits

end Methods

/-- A call of a method with its closure. -/
structure AtomicCall (n : Nat) where
  method : AtomicMethod
  closure : BitVec n → Gen (BitVec n)

section Calls

variable {n : Nat}

/-- What a call leaves in a register that holds `reg`. -/
def AtomicCall.run (c : AtomicCall n) (reg : BitVec n) : Gen (BitVec n) := do
  let bits ← c.closure c.method.start
  return c.method.apply bits reg

/-- The register after a call; a closure that panics issues no instruction. -/
def AtomicCall.issue (c : AtomicCall n) (reg : BitVec n) : BitVec n :=
  (c.run reg).toOption.getD reg

/-- The closure changes no writer bit outside the mask. -/
def AtomicCall.TouchesOnly (c : AtomicCall n) (mask : BitVec n) : Prop :=
  ∀ bits, c.closure c.method.start = .ok bits →
    ∀ i < n, mask.getLsbD i = false → bits.getLsbD i = (c.method.start : BitVec n).getLsbD i

/-! ## One call -/

theorem AtomicCall.issue_ok {c : AtomicCall n} {bits : BitVec n}
    (h : c.closure c.method.start = .ok bits) (reg : BitVec n) :
    c.issue reg = c.method.apply bits reg := by
  simp [AtomicCall.issue, AtomicCall.run, h, bind, Except.bind, pure, Except.pure, Except.toOption]

theorem AtomicCall.issue_error {c : AtomicCall n} {fault : Fault}
    (h : c.closure c.method.start = .error fault) (reg : BitVec n) : c.issue reg = reg := by
  simp [AtomicCall.issue, AtomicCall.run, h, bind, Except.bind, Except.toOption]

/-- Bits the closure leaves as it found them stay in the register. -/
theorem AtomicMethod.apply_frame (method : AtomicMethod) {bits reg : BitVec n} {i : Nat}
    (hi : i < n) (h : bits.getLsbD i = (method.start : BitVec n).getLsbD i) :
    (method.apply bits reg).getLsbD i = reg.getLsbD i := by
  cases method with
  | setBits =>
      have hzero : bits.getLsbD i = false := by simpa [AtomicMethod.start] using h
      simp [AtomicMethod.apply, hzero]
  | clearBits =>
      have hone : bits.getLsbD i = true := by simpa [AtomicMethod.start, hi] using h
      simp [AtomicMethod.apply, hone]
  | toggleBits =>
      have hzero : bits.getLsbD i = false := by simpa [AtomicMethod.start] using h
      simp [AtomicMethod.apply, hzero]

/-- A bit of the result depends on that bit of the register alone. -/
theorem AtomicMethod.apply_congr (method : AtomicMethod) {bits reg reg' : BitVec n} {i : Nat}
    (h : reg.getLsbD i = reg'.getLsbD i) :
    (method.apply bits reg).getLsbD i = (method.apply bits reg').getLsbD i := by
  cases method <;> simp [AtomicMethod.apply, h]

/-- **Frame.**  A call keeps the bits outside its mask.  Its closure leaves those as the method
starts from, and with them the method passes the old bits through. -/
theorem AtomicCall.issue_frame {c : AtomicCall n} {mask : BitVec n} (h : c.TouchesOnly mask)
    (reg : BitVec n) {i : Nat} (hi : i < n) (hout : mask.getLsbD i = false) :
    (c.issue reg).getLsbD i = reg.getLsbD i := by
  cases hclosure : c.closure c.method.start with
  | error fault => rw [AtomicCall.issue_error hclosure]
  | ok bits =>
      rw [AtomicCall.issue_ok hclosure]
      exact c.method.apply_frame hi (h bits hclosure i hi hout)

/-- What a call leaves in a bit depends on that bit alone. -/
theorem AtomicCall.issue_congr (c : AtomicCall n) {reg reg' : BitVec n} {i : Nat}
    (h : reg.getLsbD i = reg'.getLsbD i) :
    (c.issue reg).getLsbD i = (c.issue reg').getLsbD i := by
  cases hclosure : c.closure c.method.start with
  | error fault => rwa [AtomicCall.issue_error hclosure, AtomicCall.issue_error hclosure]
  | ok bits =>
      rw [AtomicCall.issue_ok hclosure, AtomicCall.issue_ok hclosure]
      exact c.method.apply_congr h

/-- A closure that only calls writer methods of some fields touches only bits their
writers can replace. -/
theorem AtomicCall.touchesOnly_of_onlyCalls {crates : Crates} {config : Config} {access : Access}
    {properties : RegisterProperties} {rmwv : Option ModifiedWriteValues} {code : RegisterCode}
    {env : ProxyEnv} {S : Nat → Prop} {c : AtomicCall n} {mask : BitVec n}
    (hinv : FieldsInv crates config access properties rmwv code.code)
    (hcalls : OnlyCalls env code.code.fields S c.closure)
    (hmask : ∀ k, S k → ∀ i < n, Touches crates code.code.fields env n k i →
      mask.getLsbD i = true) : c.TouchesOnly mask := by
  intro bits hclosure i hi hout
  obtain ⟨calls, hS, hrun⟩ := hcalls _ _ hclosure
  refine runCalls_frame hinv hS hrun hi ?_
  intro k hk htouches
  rw [hmask k hk i hi htouches] at hout
  cases hout

end Calls

/-! ## Threads -/

section Threads

variable {ι : Type*} {n : Nat}

/-- No two threads have a bit in common. -/
def DisjointMasks (masks : ι → BitVec n) : Prop :=
  ∀ i j, i ≠ j → masks i &&& masks j = 0

/-- The bits of a word inside a mask. -/
def maskView (masks : ι → BitVec n) (i : ι) (reg : BitVec n) : BitVec n := reg &&& masks i

/-- Threads with masks of their own are separated. -/
theorem separated_of_touchesOnly {masks : ι → BitVec n} {threads : ι → List (AtomicCall n)}
    (hdisjoint : DisjointMasks masks)
    (honly : ∀ i, ∀ c ∈ threads i, c.TouchesOnly (masks i)) :
    Separated AtomicCall.issue (maskView masks) threads where
  own := by
    intro i c _ reg reg' hview
    apply BitVec.eq_of_getLsbD_eq
    intro b hb
    have hbit := congrArg (·.getLsbD b) hview
    simp only [maskView, BitVec.getLsbD_and] at hbit ⊢
    cases hmask : (masks i).getLsbD b with
    | false => rw [Bool.and_false, Bool.and_false]
    | true =>
        rw [hmask, Bool.and_true, Bool.and_true] at hbit
        rw [Bool.and_true, Bool.and_true]
        exact c.issue_congr hbit
  other := by
    intro i c hc j hji reg
    apply BitVec.eq_of_getLsbD_eq
    intro b hb
    simp only [maskView, BitVec.getLsbD_and]
    cases hmask : (masks j).getLsbD b with
    | false => rw [Bool.and_false, Bool.and_false]
    | true =>
        -- a bit of thread `j` is none of thread `i`
        have hboth := congrArg (·.getLsbD b) (hdisjoint j i hji)
        simp only [BitVec.getLsbD_and, hmask, Bool.true_and] at hboth
        rw [AtomicCall.issue_frame (honly i c hc) reg hb (by simpa using hboth)]

variable [DecidableEq ι]

/-- **Atomic operations compose.**  However the calls of the threads are interleaved, the
register agrees on each thread's mask with running that thread alone, and outside all masks
with the initial value.  An operation that touches only the bits of a mask leaves those of
disjoint masks alone and depends on none of them, so each thread sees its own bits change as
if it ran alone. -/
theorem atomics_compose (masks : ι → BitVec n) (threads : ι → List (AtomicCall n))
    (schedule : List (ι × AtomicCall n)) (hdisjoint : DisjointMasks masks)
    (honly : ∀ i, ∀ c ∈ threads i, c.TouchesOnly (masks i))
    (hschedule : Interleaves threads schedule) (reg : BitVec n) :
    (∀ i, maskView masks i (runSchedule AtomicCall.issue reg schedule) =
      maskView masks i (run AtomicCall.issue reg (threads i))) ∧
    ∀ b < n, (∀ i, (masks i).getLsbD b = false) →
      (runSchedule AtomicCall.issue reg schedule).getLsbD b = reg.getLsbD b := by
  constructor
  · intro i
    exact view_interleaving hschedule (separated_of_touchesOnly hdisjoint honly) i rfl
  · intro b hb hout
    have hframe : ∀ i, ∀ c ∈ threads i, ∀ reg : BitVec n,
        (c.issue reg).getLsbD b = reg.getLsbD b :=
      fun i c hc reg => AtomicCall.issue_frame (honly i c hc) reg hb (hout i)
    exact @frame_interleaving _ _ _ _ AtomicCall.issue _ (fun reg : BitVec n => reg.getLsbD b) _ _
      hschedule hframe reg

end Threads

def toggleLow : AtomicCall 8 := ⟨.toggleBits, fun w => .ok (w ||| 0x05)⟩

def setLow : AtomicCall 8 := ⟨.setBits, fun w => .ok (w ||| 0x02)⟩

def clearHigh : AtomicCall 8 := ⟨.clearBits, fun w => .ok (w &&& 0x7F)⟩

/-- Two threads on a byte: one toggles and sets in the low half, the other clears in
the high half. -/
def halfThreads : Bool → List (AtomicCall 8)
  | true => [toggleLow, setLow]
  | false => [clearHigh]

/-- The halves of a byte. -/
def halfMasks : Bool → BitVec 8
  | true => 0x0F
  | false => 0xF0

theorem atomics_compose_halves :
    runSchedule AtomicCall.issue 0xC1 [(true, toggleLow), (false, clearHigh), (true, setLow)] =
      0x46 ∧
    ∀ i, maskView halfMasks i (runSchedule AtomicCall.issue 0xC1
        [(true, toggleLow), (false, clearHigh), (true, setLow)]) =
      maskView halfMasks i (run AtomicCall.issue 0xC1 (halfThreads i)) := by
  have hdisjoint : DisjointMasks halfMasks := by
    unfold DisjointMasks
    decide
  have honly : ∀ i, ∀ c ∈ halfThreads i, c.TouchesOnly (halfMasks i) := by
    intro i c hc bits hbits
    cases i with
    | true =>
        simp only [halfThreads, List.mem_cons, List.not_mem_nil, or_false] at hc
        rcases hc with rfl | rfl
        · cases hbits
          decide
        · cases hbits
          decide
    | false =>
        obtain rfl := List.mem_singleton.mp hc
        cases hbits
        decide
  refine ⟨by decide, (atomics_compose halfMasks halfThreads _ hdisjoint honly ?_ 0xC1).1⟩
  refine @Interleaves.issue _ _ _ _ true _ _ _ rfl (@Interleaves.issue _ _ _ _ false _ _ _ rfl
    (@Interleaves.issue _ _ _ _ true _ _ _ rfl (.done ?_)))
  intro i
  cases i with
  | true => rfl
  | false => rfl

end Svd2Rust
