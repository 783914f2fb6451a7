import Mathlib.Algebra.Group.Nat.Defs
import Mathlib.Data.List.Forall2

/-!
# Outcomes and checked `u32` arithmetic

The generator stops early in two ways: an `anyhow` error travels up through
`?`, gaining context on the way, and a Rust panic ends the run.  `Gen` records
both.  Arithmetic on `u32`
is Rust's with overflow checks on: a sum, product or difference that does not
fit is a panic, never a wrapped number, so a run that returns has computed the
exact integers.
-/

namespace Svd2Rust

/-- How a run of the generator stops early; the chain of an error has its
outermost context first. -/
inductive Fault where
  | panic (reason : String)
  | bail (chain : List String)
deriving DecidableEq, Repr

/-- A computation of the generator. -/
abbrev Gen (α : Type) := Except Fault α

/-- `anyhow!` and `bail!`. -/
def bail {α : Type} (message : String) : Gen α := .error (.bail [message])

def panicking {α : Type} (reason : String) : Gen α := .error (.panic reason)

/-- `Context::with_context`. -/
def withContext {α : Type} (context : String) : Gen α → Gen α
  | .error (.bail chain) => .error (.bail (context :: chain))
  | .error (.panic reason) => .error (.panic reason)
  | .ok a => .ok a

/-- `Option::ok_or_else`. -/
def okOr {α : Type} (message : String) : Option α → Gen α
  | some a => .ok a
  | none => bail message

/-- `Option::unwrap`. -/
def unwrap {α : Type} : Option α → Gen α
  | some a => .ok a
  | none => panicking "called `Option::unwrap()` on a `None` value"

/-- A bind returns exactly when both of its parts do. -/
theorem gen_bind_ok {α β : Type} {x : Gen α} {f : α → Gen β} {b : β} :
    (x >>= f) = .ok b ↔ ∃ a, x = .ok a ∧ f a = .ok b := by
  cases x with
  | error e => simp [bind, Except.bind]
  | ok a => simp [bind, Except.bind]

theorem gen_pure_ok {α : Type} {a b : α} : (pure a : Gen α) = .ok b ↔ a = b := by
  simp [pure, Except.pure]

theorem gen_map_ok {α β : Type} {x : Gen α} {f : α → β} {b : β} :
    (f <$> x) = .ok b ↔ ∃ a, x = .ok a ∧ f a = b := by
  cases x <;> simp [Functor.map, Except.map]

/-- A loop that collects results returns exactly when every round does. -/
theorem gen_mapM_ok {α β : Type} {f : α → Gen β} {as : List α} {bs : List β} :
    as.mapM f = .ok bs ↔ List.Forall₂ (fun a b => f a = .ok b) as bs := by
  induction as generalizing bs with
  | nil =>
      rw [List.mapM_nil, gen_pure_ok, List.forall₂_nil_left_iff]
      exact eq_comm
  | cons a as ih =>
      simp only [List.mapM_cons, gen_bind_ok, gen_pure_ok, ih]
      constructor
      · intro h
        obtain ⟨b, hb, bs', hbs, rfl⟩ := h
        exact .cons hb hbs
      · intro hcase
        rcases hcase with _ | ⟨hb, hbs⟩
        exact ⟨_, hb, _, hbs, rfl⟩

/-- What is related to a list element by element comes from one of its elements. -/
theorem exists_of_forall₂_mem {α β : Type} {r : α → β → Prop} {as : List α} {bs : List β}
    (h : List.Forall₂ r as bs) {b : β} (hb : b ∈ bs) : ∃ a ∈ as, r a b := by
  induction h with
  | nil => simp at hb
  | cons hab _ ih =>
      obtain rfl | hb := List.mem_cons.mp hb
      · exact ⟨_, List.mem_cons_self, hab⟩
      · obtain ⟨a, ha, hr⟩ := ih hb
        exact ⟨a, List.mem_cons_of_mem _ ha, hr⟩

@[simp] theorem bail_ok {α : Type} {message : String} {a : α} :
    bail message = .ok a ↔ False := by
  simp [bail]

@[simp] theorem panicking_ok {α : Type} {reason : String} {a : α} :
    panicking reason = .ok a ↔ False := by
  simp [panicking]

theorem withContext_ok {α : Type} {context : String} {x : Gen α} {a : α} :
    withContext context x = .ok a ↔ x = .ok a := by
  rcases x with (reason | chain) | b <;> simp [withContext]

theorem okOr_ok {α : Type} {message : String} {x : Option α} {a : α} :
    okOr message x = .ok a ↔ x = some a := by
  cases x <;> simp [okOr]

theorem unwrap_ok {α : Type} {x : Option α} {a : α} : unwrap x = .ok a ↔ x = some a := by
  cases x <;> simp [unwrap]

/-- `u32::MAX`. -/
def u32Max : Nat := 2 ^ 32 - 1

/-- `BITS_PER_BYTE`. -/
def bitsPerByte : Nat := 8

def addU32 (a b : Nat) : Gen Nat :=
  if a + b ≤ u32Max then .ok (a + b) else panicking "attempt to add with overflow"

def subU32 (a b : Nat) : Gen Nat :=
  if b ≤ a then .ok (a - b) else panicking "attempt to subtract with overflow"

def mulU32 (a b : Nat) : Gen Nat :=
  if a * b ≤ u32Max then .ok (a * b) else panicking "attempt to multiply with overflow"

/-- `u32::div_ceil`, which cannot overflow. -/
def divCeil (a b : Nat) : Nat := (a + b - 1) / b

/-- Bytes that hold `bits` bits: `bits.div_ceil(BITS_PER_BYTE)`. -/
def bytesOfBits (bits : Nat) : Nat := divCeil bits bitsPerByte

theorem addU32_ok {a b c : Nat} : addU32 a b = .ok c ↔ a + b ≤ u32Max ∧ a + b = c := by
  unfold addU32
  split
  · simp [*]
  · simp only [panicking_ok, false_iff]; omega

theorem subU32_ok {a b c : Nat} : subU32 a b = .ok c ↔ b ≤ a ∧ a - b = c := by
  unfold subU32
  split
  · simp [*]
  · simp only [panicking_ok, false_iff]; omega

theorem mulU32_ok {a b c : Nat} : mulU32 a b = .ok c ↔ a * b ≤ u32Max ∧ a * b = c := by
  unfold mulU32
  split
  · simp [*]
  · simp only [panicking_ok, false_iff]; omega

theorem bytesOfBits_eq_zero {bits : Nat} : bytesOfBits bits = 0 ↔ bits = 0 := by
  unfold bytesOfBits divCeil bitsPerByte; omega

theorem bytesOfBits_mul_eight (n : Nat) : bytesOfBits (n * 8) = n := by
  unfold bytesOfBits divCeil bitsPerByte; omega

end Svd2Rust
