import Svd2Rust.Identifiers

/-!
# Accessors of a register block

`generate/peripheral/accessor.rs`: the methods through which a block gives out
its registers.  A method either borrows a struct field or computes a raw
pointer from `self`; `Method.byteOffset` reads off the bytes it adds.
-/

namespace Svd2Rust

/-- `RegAccessor`; `ty` is the identifier of the element type. -/
structure RegAccessor where
  doc : String
  name : String
  ty : String
  offset : Nat
deriving DecidableEq, Repr

structure ArrayAccessor where
  doc : String
  name : String
  ty : String
  offset : Nat
  dim : Nat
  increment : Nat
  note : Option String
deriving DecidableEq, Repr

structure ArrayElemAccessor where
  doc : String
  name : String
  ty : String
  basename : String
  i : Nat
deriving DecidableEq, Repr

inductive Accessor where
  | reg (a : RegAccessor)
  | array (a : ArrayAccessor)
  | arrayElem (a : ArrayElemAccessor)
deriving DecidableEq, Repr

inductive AccessType where
  | ref (a : Accessor)
  | rawRef (a : Accessor)
deriving DecidableEq, Repr

def Accessor.rawIf (a : Accessor) (flag : Bool) : AccessType :=
  if flag then .rawRef a else .ref a

def AccessType.raw : AccessType → AccessType
  | .rawRef a => .rawRef a
  | .ref a => .rawRef a

def AccessType.accessor : AccessType → Accessor
  | .rawRef a => a
  | .ref a => a

def AccessType.isRaw : AccessType → Bool
  | .rawRef _ => true
  | .ref _ => false

/-- The type identifier an accessor returns a reference to. -/
def Accessor.ty : Accessor → String
  | .reg a => a.ty
  | .array a => a.ty
  | .arrayElem a => a.ty

/-- The body of a generated method.  `offset` and `increment` are the literals
the source leaves out when they are 0 and 1. -/
inductive MethodBody where
  | field (name : String)
  | fieldIndex (name : String)
  | fieldIter (name : String)
  | rawPtr (offset : Option Nat)
  | rawIndex (dim : Nat) (offset increment : Option Nat)
  | rawIter (dim : Nat) (offset increment : Option Nat)
  | callElem (basename : String) (i : Nat)
deriving DecidableEq, Repr

/-- A generated method: `#[doc]` lines, name, element type and body. -/
structure Method where
  docs : List String
  name : String
  ty : String
  body : MethodBody
deriving DecidableEq, Repr

/-- `(n != 0).then(|| ..)`. -/
def literalUnless (n skipped : Nat) : Option Nat :=
  if n = skipped then none else some n

/-- `impl ToTokens for AccessType`. -/
def AccessType.toTokens : AccessType → List Method
  | .ref (.reg a) => [⟨[a.doc], a.name, a.ty, .field a.name⟩]
  | .rawRef (.reg a) => [⟨[a.doc], a.name, a.ty, .rawPtr (literalUnless a.offset 0)⟩]
  | .ref (.array a) =>
      [⟨a.doc :: a.note.elim [] (["", ·]), a.name, a.ty, .fieldIndex a.name⟩,
       ⟨["Iterator for array of:", a.doc], a.name ++ "_iter", a.ty, .fieldIter a.name⟩]
  | .rawRef (.array a) =>
      [⟨a.doc :: a.note.elim [] (["", ·]), a.name, a.ty,
          .rawIndex a.dim (literalUnless a.offset 0) (literalUnless a.increment 1)⟩,
       ⟨["Iterator for array of:", a.doc], a.name ++ "_iter", a.ty,
          .rawIter a.dim (literalUnless a.offset 0) (literalUnless a.increment 1)⟩]
  | .ref (.arrayElem a) | .rawRef (.arrayElem a) =>
      [⟨[a.doc], a.name, a.ty, .callElem a.basename a.i⟩]

/-- The bytes a raw body adds to `self` for index `n` (an iterator's item `n`; a
plain pointer has item 0 only).  `none` where the body borrows a field, calls a
method or is out of bounds. -/
def MethodBody.byteOffset (n : Nat) : MethodBody → Option Nat
  | .rawPtr offset => if n = 0 then some (offset.getD 0) else none
  | .rawIndex dim offset increment | .rawIter dim offset increment =>
      if n < dim then some (offset.getD 0 + increment.getD 1 * n) else none
  | _ => none

@[simp] theorem literalUnless_zero_getD (n : Nat) : (literalUnless n 0).getD 0 = n := by
  unfold literalUnless; split <;> simp_all

@[simp] theorem literalUnless_one_getD (n : Nat) : (literalUnless n 1).getD 1 = n := by
  unfold literalUnless; split <;> simp_all

end Svd2Rust
