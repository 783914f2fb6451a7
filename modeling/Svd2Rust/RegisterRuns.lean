import Svd2Rust.FieldRoundTrip
import Svd2Rust.StepRuns
import Svd2Rust.WordCells

/-!
# Runs of register operations

A program calls `write`, `modify`, `reset` and their variants on a register, and the
closures call field writers.  The hardware takes every word that is stored and changes
the bits of each field as its `modifiedWriteValues` says.

`FieldStore` is the register as the documentation of these operations has it: fields
with values of their own, where a closure changes the fields it names, and "other
fields will have the value they had before the call to `modify`".  `run_agrees` says
that over any run the register holds what the store does, field by field, whatever the
fields mean by a one or a zero that is written to them.
-/

namespace Svd2Rust

open BitFields StepRuns WordCells

/-! ## What storing a word does to a field -/

/-- What a bit of a field of that kind is after `stored` was written to it. -/
def ModifiedWriteValues.reactBit (old stored : Bool) : ModifiedWriteValues → Bool
  | .oneToClear => old && !stored
  | .oneToSet => old || stored
  | .oneToToggle => old ^^ stored
  | .zeroToClear => old && stored
  | .zeroToSet => old || !stored
  | .zeroToToggle => old ^^ !stored
  | .clear => false
  | .set => true
  | .modify => stored

section Kinds

variable {n : Nat}

/-- The same on words. -/
def ModifiedWriteValues.react (old stored : BitVec n) : ModifiedWriteValues → BitVec n
  | .oneToClear => old &&& ~~~stored
  | .oneToSet => old ||| stored
  | .oneToToggle => old ^^^ stored
  | .zeroToClear => old &&& stored
  | .zeroToSet => old ||| ~~~stored
  | .zeroToToggle => old ^^^ ~~~stored
  | .clear => 0
  | .set => BitVec.allOnes n
  | .modify => stored

theorem ModifiedWriteValues.react_bitwise (mwv : ModifiedWriteValues) :
    Bitwise (fun old stored => mwv.reactBit old stored) fun (old stored : BitVec n) =>
      mwv.react old stored := by
  intro old stored i hi
  cases mwv <;> simp [ModifiedWriteValues.react, ModifiedWriteValues.reactBit, hi]

/-- What a bit of a field is after an operation that does not name it, where a plain
field takes `fresh`. -/
def ModifiedWriteValues.idleBit (old fresh : Bool) : ModifiedWriteValues → Bool
  | .clear => false
  | .set => true
  | .modify => fresh
  | _ => old

/-- The same on words. -/
def ModifiedWriteValues.idle (old fresh : BitVec n) : ModifiedWriteValues → BitVec n
  | .clear => 0
  | .set => BitVec.allOnes n
  | .modify => fresh
  | _ => old

theorem ModifiedWriteValues.idle_bitwise (mwv : ModifiedWriteValues) :
    Bitwise (fun old fresh => mwv.idleBit old fresh) fun (old fresh : BitVec n) =>
      mwv.idle old fresh := by
  intro old fresh i hi
  cases mwv <;> simp [ModifiedWriteValues.idle, ModifiedWriteValues.idleBit, hi]

/-- Storing the neutral bits changes nothing else. -/
theorem ModifiedWriteValues.reactBit_neutralBit (mwv : ModifiedWriteValues) (old fresh : Bool) :
    mwv.reactBit old (neutralBit mwv fresh) = mwv.idleBit old fresh := by
  cases mwv <;> cases old <;> cases fresh <;> rfl

end Kinds

/-! ## Fields as cells of a register -/

/-- An element of a field: the index of the field and the offset of the element. -/
structure Element where
  field : Nat
  offset : Nat
deriving DecidableEq, Repr

section Elements

variable (crates : Crates) (rmwv : Option ModifiedWriteValues) (codes : List FieldCode)

/-- The bits of the element. -/
def Element.cell (e : Element) : Cell := ⟨e.offset, (codes[e.field]?.map FieldCode.width).getD 0⟩

/-- The kind of its field. -/
def Element.kind (e : Element) : ModifiedWriteValues :=
  (codes[e.field]?.map fun fc => fc.field.info.effectiveMwv rmwv).getD .modify

/-- The code has a writer for the element. -/
def IsElement (e : Element) : Prop :=
  ∃ fc, codes[e.field]? = some fc ∧ fc.writer.isSome = true ∧
    e.offset ∈ fc.field.elementOffsets crates

/-- Every writer has the width of its field. -/
def OwnWidths (env : ProxyEnv) : Prop :=
  ∀ fc ∈ codes, ∀ writer ∈ fc.writer, (env.resolve writer.proxy).width = fc.width

variable {crates rmwv codes}

theorem Element.cell_eq {e : Element} {fc : FieldCode} (h : codes[e.field]? = some fc) :
    e.cell codes = ⟨e.offset, fc.width⟩ := by rw [Element.cell, h]; rfl

theorem Element.kind_eq {e : Element} {fc : FieldCode} (h : codes[e.field]? = some fc) :
    e.kind rmwv codes = fc.field.info.effectiveMwv rmwv := by rw [Element.kind, h]; rfl

end Elements

/-! ## Closures -/

/-- What a closure does with the writer: `W::bits`, or `W::set` of a safe register, and
the writers of fields. -/
inductive ClosureCall (n : Nat) where
  | bits (value : BitVec n)
  | field (c : FieldCall)
deriving DecidableEq

section Closures

variable {n : Nat} (env : ProxyEnv) (codes : List FieldCode)

def ClosureCall.run (w : BitVec n) : ClosureCall n → Gen (BitVec n)
  | .bits value => return value
  | .field c => c.run env codes w

/-- A closure that makes these calls. -/
def runClosure (w : BitVec n) (calls : List (ClosureCall n)) : Gen (BitVec n) :=
  calls.foldlM (ClosureCall.run env codes) w

/-- The element a call names and the value it leaves in it. -/
def FieldCall.change (n : Nat) (c : FieldCall) : Option (Change n Element) := do
  let fc ← codes[c.field]?
  let writer ← fc.writer
  let accessor ← writer.accessors[c.accessor]?
  let o ← (accessor.offset c.index).toOption
  let value ← (env.resolve writer.proxy).leaves c.call
  return .cell ⟨c.field, o⟩ (BitVec.ofNat n value)

def ClosureCall.change : ClosureCall n → Option (Change n Element)
  | .bits value => some (.whole value)
  | .field c => c.change env codes n

/-- The changes a closure makes. -/
def closureChanges (calls : List (ClosureCall n)) : List (Change n Element) :=
  calls.filterMap (ClosureCall.change env codes)

end Closures

section Changes

variable {crates : Crates} {config : Config} {access : Access} {properties : RegisterProperties}
  {rmwv : Option ModifiedWriteValues} {code : FieldsCode} {env : ProxyEnv} {n : Nat}

/-- The parts of the code a change goes through. -/
theorem FieldCall.change_eq_some {c : FieldCall} {codes : List FieldCode} {change : Change n Element} :
    c.change env codes n = some change ↔
      ∃ fc writer accessor o value, codes[c.field]? = some fc ∧ fc.writer = some writer ∧
        writer.accessors[c.accessor]? = some accessor ∧ accessor.offset c.index = .ok o ∧
        (env.resolve writer.proxy).leaves c.call = some value ∧
        .cell ⟨c.field, o⟩ (BitVec.ofNat n value) = change := by
  have hok : ∀ {x : Gen Nat} {o : Nat}, x.toOption = some o ↔ x = .ok o := by
    intro x o
    cases x with
    | ok v => simp [Except.toOption]
    | error e => simp [Except.toOption]
  simp only [FieldCall.change, Option.bind_eq_bind, Option.bind_eq_some_iff, hok, Option.pure_def,
    Option.some.injEq]
  constructor
  · intro h
    obtain ⟨fc, hfc, writer, hwriter, accessor, haccessor, o, ho, value, hvalue, hchange⟩ := h
    exact ⟨fc, writer, accessor, o, value, hfc, hwriter, haccessor, ho, hvalue, hchange⟩
  · intro h
    obtain ⟨fc, writer, accessor, o, value, hfc, hwriter, haccessor, ho, hvalue, hchange⟩ := h
    exact ⟨fc, hfc, writer, hwriter, accessor, haccessor, o, ho, value, hvalue, hchange⟩

/-- **One call.**  A call that returns has changed the element it names. -/
theorem fieldCall_change (hinv : FieldsInv crates config access properties rmwv code)
    (hwidths : OwnWidths code.fields env) {c : FieldCall} {w w' : BitVec n}
    (h : c.run env code.fields w = .ok w') :
    ∃ change, c.change env code.fields n = some change ∧
      change.Names (IsElement crates code.fields) ∧
      w' = change.apply (Element.cell code.fields) w := by
  unfold FieldCall.run at h
  cases hwriter : code.fields[c.field]?.bind (·.writer) with
  | none =>
      rw [hwriter] at h
      simp at h
  | some writer =>
      rw [hwriter] at h
      obtain ⟨fc, hfc, hwriter⟩ := Option.bind_eq_some_iff.mp hwriter
      cases haccessor : writer.accessors[c.accessor]? with
      | none =>
          simp only [haccessor] at h
          simp at h
      | some accessor =>
          simp only [haccessor] at h
          obtain ⟨o, ho, hrun⟩ := gen_bind_ok.mp h
          have hmem := List.mem_of_getElem? hfc
          obtain ⟨fty, useCast, useMask, hcode⟩ := hinv.codes fc hmem
          obtain ⟨name, haccessors⟩ := hcode.writer_accessors writer hwriter
          have helement := offset_mem_elementOffsets haccessors
            (List.mem_of_getElem? haccessor) ho
          cases hmethod : (env.resolve writer.proxy).run w o c.call with
          | none =>
              rw [hmethod] at hrun
              simp at hrun
          | some result =>
              rw [hmethod] at hrun
              obtain rfl : result = .ok w' := hrun
              obtain ⟨value, hleaves⟩ := WriterProxy.leaves_of_run hmethod
              obtain ⟨-, -, rfl⟩ := (WriterProxy.run_ok hleaves).mp hmethod
              refine ⟨.cell ⟨c.field, o⟩ (BitVec.ofNat n value), ?_, ?_, ?_⟩
              · exact FieldCall.change_eq_some.mpr
                  ⟨fc, writer, accessor, o, value, hfc, hwriter, haccessor, ho, hleaves, rfl⟩
              · exact ⟨fc, hfc, Option.isSome_iff_exists.mpr ⟨writer, hwriter⟩, helement⟩
              · rw [Change.apply, Element.cell_eq hfc, hwidths fc hmem writer hwriter]

/-- **All calls.**  A closure that returns has made its changes, one after the other. -/
theorem runClosure_changes (hinv : FieldsInv crates config access properties rmwv code)
    (hwidths : OwnWidths code.fields env) {calls : List (ClosureCall n)} {w w' : BitVec n}
    (h : runClosure env code.fields w calls = .ok w') :
    (∀ change ∈ closureChanges env code.fields calls,
        change.Names (IsElement crates code.fields)) ∧
      w' = changeAll (Element.cell code.fields) w (closureChanges env code.fields calls) := by
  induction calls generalizing w with
  | nil =>
      obtain rfl : w = w' := Except.ok.inj h
      exact ⟨by simp [closureChanges], rfl⟩
  | cons call rest ih =>
      obtain ⟨next, hnext, hrest⟩ := FallibleRuns.foldlM_cons_ok.mp h
      obtain ⟨hnames, hw⟩ := ih hrest
      obtain ⟨change, hchange, hname, hnext⟩ : ∃ change,
          call.change env code.fields = some change ∧
            change.Names (IsElement crates code.fields) ∧
            next = change.apply (Element.cell code.fields) w := by
        cases call with
        | bits value => exact ⟨.whole value, rfl, trivial, (gen_pure_ok.mp hnext).symm⟩
        | field c => exact fieldCall_change hinv hwidths hnext
      have hcons : closureChanges env code.fields (call :: rest) =
          change :: closureChanges env code.fields rest := List.filterMap_cons_some hchange
      rw [hcons]
      exact ⟨List.forall_mem_cons.mpr ⟨hname, hnames⟩, by rw [hw, hnext]; rfl⟩

end Changes

/-! ## The register and its hardware -/

section Machine

variable {n : Nat}

/-- An operation that was called, with the calls its closure made. -/
inductive RegEvent (n : Nat) where
  | reset
  | write (calls : List (ClosureCall n))
  | writeWithZero (calls : List (ClosureCall n))
  | modify (calls : List (ClosureCall n))

/-- What a register that held one word and was written another holds then. -/
abbrev Hardware (n : Nat) := BitVec n → BitVec n → BitVec n → Prop

/-- The stores of an operation, one after the other. -/
inductive Stored (hw : Hardware n) : BitVec n → List (Store n) → BitVec n → Prop
  | nil {b : BitVec n} : Stored hw b [] b
  | register {b v m b' : BitVec n} {rest : List (Store n)} (hreacts : hw b v m)
      (hrest : Stored hw m rest b') : Stored hw b (.register v :: rest) b'
  | ccp {b b' : BitVec n} {magic : BitVec 8} {rest : List (Store n)}
      (hrest : Stored hw b rest b') : Stored hw b (.ccp magic :: rest) b'

section Steps

variable (env : ProxyEnv) (codes : List FieldCode) (spec : RegisterSpec n) (hw : Hardware n)

/-- One operation.  Its closure may do anything that amounts to the calls. -/
inductive RegStep : BitVec n → RegEvent n → BitVec n → Prop
  | reset {b b' : BitVec n} (hstored : Stored hw b (Reg.reset spec).stores b') :
      RegStep b .reset b'
  | write {b b' : BitVec n} {f : BitVec n → Gen (BitVec n)} {calls : List (ClosureCall n)}
      {effect : Effect n (BitVec n)}
      (hcalls : f (startWord spec spec.resetValue) =
        runClosure env codes (startWord spec spec.resetValue) calls)
      (h : Reg.write spec f = .ok effect) (hstored : Stored hw b effect.stores b') :
      RegStep b (.write calls) b'
  | fromWrite {T : Type} {b b' : BitVec n} {f : BitVec n → Gen (BitVec n × T)}
      {calls : List (ClosureCall n)} {effect : Effect n T}
      (hcalls : Prod.fst <$> f (startWord spec spec.resetValue) =
        runClosure env codes (startWord spec spec.resetValue) calls)
      (h : Reg.fromWrite spec f = .ok effect) (hstored : Stored hw b effect.stores b') :
      RegStep b (.write calls) b'
  | writeWithZero {b b' : BitVec n} {f : BitVec n → Gen (BitVec n)}
      {calls : List (ClosureCall n)} {effect : Effect n (BitVec n)}
      (hcalls : f 0 = runClosure env codes 0 calls)
      (h : Reg.writeWithZero f = .ok effect) (hstored : Stored hw b effect.stores b') :
      RegStep b (.writeWithZero calls) b'
  | fromWriteWithZero {T : Type} {b b' : BitVec n} {f : BitVec n → Gen (BitVec n × T)}
      {calls : List (ClosureCall n)} {effect : Effect n T}
      (hcalls : Prod.fst <$> f 0 = runClosure env codes 0 calls)
      (h : Reg.fromWriteWithZero f = .ok effect) (hstored : Stored hw b effect.stores b') :
      RegStep b (.writeWithZero calls) b'
  | modify {b b' : BitVec n} {f : BitVec n → BitVec n → Gen (BitVec n)}
      {calls : List (ClosureCall n)} {effect : Effect n (BitVec n)}
      (hcalls : f b (startWord spec b) = runClosure env codes (startWord spec b) calls)
      (h : Reg.modify spec b f = .ok effect) (hstored : Stored hw b effect.stores b') :
      RegStep b (.modify calls) b'
  | fromModify {T : Type} {b b' : BitVec n} {f : BitVec n → BitVec n → Gen (BitVec n × T)}
      {calls : List (ClosureCall n)} {effect : Effect n T}
      (hcalls : Prod.fst <$> f b (startWord spec b) =
        runClosure env codes (startWord spec b) calls)
      (h : Reg.fromModify spec b f = .ok effect) (hstored : Stored hw b effect.stores b') :
      RegStep b (.modify calls) b'

/-- Operations one after the other. -/
abbrev RegRun : BitVec n → List (RegEvent n) → BitVec n → Prop := Run (RegStep env codes spec hw)

end Steps

/-- The word an operation starts from in a register that holds `b`. -/
def RegEvent.start (spec : RegisterSpec n) (b : BitVec n) : RegEvent n → BitVec n
  | .reset => spec.resetValue
  | .write _ => startWord spec spec.resetValue
  | .writeWithZero _ => 0
  | .modify _ => startWord spec b

def RegEvent.calls : RegEvent n → List (ClosureCall n)
  | .reset => []
  | .write calls => calls
  | .writeWithZero calls => calls
  | .modify calls => calls

section Steps

variable {env : ProxyEnv} {codes : List FieldCode} {spec : RegisterSpec n} {hw : Hardware n}

theorem Stored.of_register {b v b' : BitVec n} (h : Stored hw b [.register v] b') : hw b v b' := by
  cases h with
  | register hreacts hrest =>
      cases hrest
      exact hreacts

/-- A closure that makes these calls and nothing else. -/
theorem RegStep.of_runClosure {b v b' : BitVec n} {calls : List (ClosureCall n)}
    (hv : runClosure env codes (startWord spec b) calls = .ok v) (hreacts : hw b v b') :
    RegStep env codes spec hw b (.modify calls) b' := by
  have heffect : Reg.modify spec b (fun _ w => runClosure env codes w calls) =
      .ok ⟨[.register v], v⟩ := gen_bind_ok.mpr ⟨v, hv, rfl⟩
  exact .modify rfl heffect (.register hreacts .nil)

/-- **One operation.**  All of them store once what the calls make of the word they
start from. -/
theorem RegStep.stored {b b' : BitVec n} {ev : RegEvent n}
    (h : RegStep env codes spec hw b ev b') :
    ∃ v, runClosure env codes (ev.start spec b) ev.calls = .ok v ∧ hw b v b' := by
  cases h with
  | reset hstored => exact ⟨spec.resetValue, rfl, hstored.of_register⟩
  | write hcalls h hstored =>
      obtain ⟨v, hv, h⟩ := gen_bind_ok.mp h
      obtain rfl := gen_pure_ok.mp h
      exact ⟨v, hcalls.symm.trans hv, hstored.of_register⟩
  | fromWrite hcalls h hstored =>
      obtain ⟨⟨v, result⟩, hv, h⟩ := gen_bind_ok.mp h
      obtain rfl := gen_pure_ok.mp h
      exact ⟨v, hcalls.symm.trans (gen_map_ok.mpr ⟨_, hv, rfl⟩), hstored.of_register⟩
  | writeWithZero hcalls h hstored =>
      obtain ⟨v, hv, h⟩ := gen_bind_ok.mp h
      obtain rfl := gen_pure_ok.mp h
      exact ⟨v, hcalls.symm.trans hv, hstored.of_register⟩
  | fromWriteWithZero hcalls h hstored =>
      obtain ⟨⟨v, result⟩, hv, h⟩ := gen_bind_ok.mp h
      obtain rfl := gen_pure_ok.mp h
      exact ⟨v, hcalls.symm.trans (gen_map_ok.mpr ⟨_, hv, rfl⟩), hstored.of_register⟩
  | modify hcalls h hstored =>
      obtain ⟨v, hv, h⟩ := gen_bind_ok.mp h
      obtain rfl := gen_pure_ok.mp h
      exact ⟨v, hcalls.symm.trans hv, hstored.of_register⟩
  | fromModify hcalls h hstored =>
      obtain ⟨⟨v, result⟩, hv, h⟩ := gen_bind_ok.mp h
      obtain rfl := gen_pure_ok.mp h
      exact ⟨v, hcalls.symm.trans (gen_map_ok.mpr ⟨_, hv, rfl⟩), hstored.of_register⟩

end Steps

end Machine

/-! ## The store of fields -/

/-- What every element of a field holds. -/
abbrev FieldStore (n : Nat) := Element → BitVec n

section Store

variable {n : Nat} (env : ProxyEnv) (rmwv : Option ModifiedWriteValues) (codes : List FieldCode)
  (spec : RegisterSpec n)

/-- What an element that a closure does not name holds after the operation. -/
def RegEvent.unnamed (kind : ModifiedWriteValues) (old reset : BitVec n) : RegEvent n → BitVec n
  | .reset => kind.react old reset
  | .write _ => kind.idle old reset
  | .writeWithZero _ => kind.react old 0
  | .modify _ => kind.idle old old

/-- An operation on the store: the elements the closure names react to what it left in
them, the others to nothing but the operation itself. -/
def FieldStore.apply (σ : FieldStore n) (ev : RegEvent n) : FieldStore n := fun e =>
  (match lastLeft (Element.cell codes) e (closureChanges env codes ev.calls) with
    | some value => (e.kind rmwv codes).react (σ e) value
    | none => ev.unnamed (e.kind rmwv codes) (σ e) ((e.cell codes).get spec.resetValue)) &&&
      lowMask n (e.cell codes).width

/-- The store of a register that holds `b`. -/
def FieldStore.of (b : BitVec n) : FieldStore n := fun e => (e.cell codes).get b

end Store

/-- Hardware that changes every writable field as its kind says.  What it does to other
bits is open. -/
def FollowsKinds (crates : Crates) (rmwv : Option ModifiedWriteValues) (codes : List FieldCode)
    {n : Nat} (hw : Hardware n) : Prop :=
  ∀ old stored new, hw old stored new → ∀ e, IsElement crates codes e →
    (e.cell codes).get new = (e.cell codes).get ((e.kind rmwv codes).react old stored)

section Refinement

variable {crates : Crates} {config : Config} {access : Access} {properties : RegisterProperties}
  {rmwv : Option ModifiedWriteValues} {code : RegisterCode} {env : ProxyEnv} {n : Nat}

/-- A bit of an element is a bit of its field only. -/
theorem Element.covers_unique {codes : List FieldCode}
    (hapart : Apart n (Element.cell codes) (IsElement crates codes)) {e : Element} {fc : FieldCode}
    (hfc : codes[e.field]? = some fc) (he : IsElement crates codes e) {i : Nat}
    (hi : (e.cell codes).Has i) :
    CoveredBy crates codes i e.field fc ∧ ∀ k, Covers crates codes k i → k = e.field := by
  obtain ⟨fc', hfc', hwritable, hoffset⟩ := he
  obtain rfl := Option.some.inj (hfc.symm.trans hfc')
  rw [Element.cell_eq hfc] at hi
  refine ⟨⟨hfc, hwritable, e.offset, hoffset, hi⟩, fun k hk => ?_⟩
  obtain ⟨gc, hgc, hgcWritable, o, ho, hin⟩ := hk
  by_contra hne
  have hdisjoint := hapart.disjoint e ⟨k, o⟩ ⟨fc, hfc, hwritable, hoffset⟩
    ⟨gc, hgc, hgcWritable, ho⟩ fun heq => hne (congrArg Element.field heq).symm
  rw [Element.cell_eq hfc, Element.cell_eq hgc] at hdisjoint
  exact hdisjoint i hi hin

/-- What an element holds after a word that starts neutral, or from the bits of `fresh`,
was stored. -/
theorem get_react_startWord
    (hinv : FieldsInv crates config access properties rmwv code.code)
    (hunion : BitmaskIsUnion crates)
    (hapart : Apart n (Element.cell code.code.fields) (IsElement crates code.code.fields))
    {e : Element} (he : IsElement crates code.code.fields e) (old fresh : BitVec n) :
    (e.cell code.code.fields).get
        ((e.kind rmwv code.code.fields).react old (startWord (code.spec n) fresh)) =
      (e.cell code.code.fields).get ((e.kind rmwv code.code.fields).idle old fresh) := by
  have hfits := hapart.fits e he
  refine get_congr hfits fun i hi => ?_
  have hlt : i < n := by
    have hrun := hi.2
    omega
  obtain ⟨fc, hfc, -⟩ := id he
  obtain ⟨hcovered, hunique⟩ := Element.covers_unique hapart hfc he hi
  rw [(e.kind rmwv code.code.fields).react_bitwise _ _ i hlt,
    (e.kind rmwv code.code.fields).idle_bitwise _ _ i hlt, Element.kind_eq hfc,
    startWord_of_unique hinv hunion fresh hlt hcovered hunique]
  exact ModifiedWriteValues.reactBit_neutralBit _ _ _

/-- **Closure.**  An element holds what the last call that names it left.  Calls that name
other elements change other bits, because the cells are apart. -/
theorem get_runClosure (hinv : FieldsInv crates config access properties rmwv code.code)
    (hwidths : OwnWidths code.code.fields env)
    (hapart : Apart n (Element.cell code.code.fields) (IsElement crates code.code.fields))
    {e : Element} (he : IsElement crates code.code.fields e) {calls : List (ClosureCall n)}
    {w v : BitVec n} (h : runClosure env code.code.fields w calls = .ok v) :
    (e.cell code.code.fields).get v =
      (lastLeft (Element.cell code.code.fields) e
        (closureChanges env code.code.fields calls)).getD ((e.cell code.code.fields).get w) := by
  obtain ⟨hnames, hchanges⟩ := runClosure_changes hinv hwidths h
  rw [hchanges]
  exact get_changeAll hapart he w hnames

/-- **Hardware.**  An element reacts to what is stored in it.  The reaction works bit by bit,
so it can be read off the cell alone. -/
theorem FollowsKinds.get_reacts {codes : List FieldCode} {hw : Hardware n}
    (hfollows : FollowsKinds crates rmwv codes hw)
    (hapart : Apart n (Element.cell codes) (IsElement crates codes)) {e : Element}
    (he : IsElement crates codes e) {b v b' : BitVec n} (h : hw b v b') :
    (e.cell codes).get b' =
      (e.kind rmwv codes).react ((e.cell codes).get b) ((e.cell codes).get v) &&&
        lowMask n (e.cell codes).width := by
  rw [hfollows _ _ _ h e he]
  exact get_bitwise (e.kind rmwv codes).react_bitwise (hapart.fits e he) b v

/-- An element that was stored as it starts, from the bits of `fresh`. -/
theorem get_reacts_startWord
    (hinv : FieldsInv crates config access properties rmwv code.code)
    (hunion : BitmaskIsUnion crates)
    (hapart : Apart n (Element.cell code.code.fields) (IsElement crates code.code.fields))
    {hw : Hardware n} (hfollows : FollowsKinds crates rmwv code.code.fields hw) {e : Element}
    (he : IsElement crates code.code.fields e) {b v b' fresh : BitVec n} (h : hw b v b')
    (hv : (e.cell code.code.fields).get v =
      (e.cell code.code.fields).get (startWord (code.spec n) fresh)) :
    (e.cell code.code.fields).get b' =
      (e.kind rmwv code.code.fields).idle ((e.cell code.code.fields).get b)
        ((e.cell code.code.fields).get fresh) &&& lowMask n (e.cell code.code.fields).width := by
  have hfits := hapart.fits e he
  rw [hfollows.get_reacts hapart he h, hv,
    ← get_bitwise (e.kind rmwv code.code.fields).react_bitwise hfits,
    get_react_startWord hinv hunion hapart he]
  exact get_bitwise (e.kind rmwv code.code.fields).idle_bitwise hfits b fresh

/-- **One operation.**  The register and the store hold the same in every element after it, if
they did before.  The cases are the operations, which differ in the word they start from. -/
theorem RegStep.agrees (hinv : FieldsInv crates config access properties rmwv code.code)
    (hunion : BitmaskIsUnion crates) (hwidths : OwnWidths code.code.fields env)
    (hapart : Apart n (Element.cell code.code.fields) (IsElement crates code.code.fields))
    {hw : Hardware n} (hfollows : FollowsKinds crates rmwv code.code.fields hw)
    {b b' : BitVec n} {ev : RegEvent n}
    (h : RegStep env code.code.fields (code.spec n) hw b ev b') {σ : FieldStore n}
    (hσ : ∀ e, IsElement crates code.code.fields e → σ e = FieldStore.of code.code.fields b e) :
    ∀ e, IsElement crates code.code.fields e →
      σ.apply env rmwv code.code.fields (code.spec n) ev e =
        FieldStore.of code.code.fields b' e := by
  intro e he
  obtain ⟨v, hv, hreacts⟩ := h.stored
  have hlast := get_runClosure hinv hwidths hapart he hv
  have hstored := hfollows.get_reacts hapart he hreacts
  rw [FieldStore.apply, hσ e he, FieldStore.of, FieldStore.of]
  cases hleft : lastLeft (Element.cell code.code.fields) e
      (closureChanges env code.code.fields ev.calls) with
  | some value =>
      rw [hleft, Option.getD_some] at hlast
      rw [hstored, hlast]
  | none =>
      rw [hleft, Option.getD_none] at hlast
      cases ev with
      | reset =>
          rw [hstored, hlast]
          rfl
      | write calls =>
          exact (get_reacts_startWord hinv hunion hapart hfollows he hreacts hlast).symm
      | writeWithZero calls =>
          rw [hstored, hlast, RegEvent.start, get_zero]
          rfl
      | modify calls =>
          exact (get_reacts_startWord hinv hunion hapart hfollows he hreacts hlast).symm

/-- **All operations.**  So do they after a run.  The step lemma carries the agreement through
the run, by induction on the events. -/
theorem RegRun.agrees (hinv : FieldsInv crates config access properties rmwv code.code)
    (hunion : BitmaskIsUnion crates) (hwidths : OwnWidths code.code.fields env)
    (hapart : Apart n (Element.cell code.code.fields) (IsElement crates code.code.fields))
    {hw : Hardware n} (hfollows : FollowsKinds crates rmwv code.code.fields hw)
    {b b' : BitVec n} {events : List (RegEvent n)}
    (h : RegRun env code.code.fields (code.spec n) hw b events b') {σ : FieldStore n}
    (hσ : ∀ e, IsElement crates code.code.fields e → σ e = FieldStore.of code.code.fields b e) :
    ∀ e, IsElement crates code.code.fields e →
      events.foldl (FieldStore.apply env rmwv code.code.fields (code.spec n)) σ e =
        FieldStore.of code.code.fields b' e :=
  h.simulates (R := fun b (σ : FieldStore n) => ∀ e, IsElement crates code.code.fields e →
      σ e = FieldStore.of code.code.fields b e)
    (fun hstep hagrees => hstep.agrees hinv hunion hwidths hapart hfollows hagrees) hσ

end Refinement

section Rendered

variable {crates : Crates} {config : Config} {register : Register} {access : Access}
  {rpath : RegisterPath} {index : Index} {code : RegisterCode} {env : ProxyEnv}

/-- **Runs of operations.**  Whatever the operations of a run are and whatever their closures
do, a rendered register and the store of its fields go through the run alike.  The elements
have no bit in common and every writer has the width of its element, so that each call changes
one cell of the word, and hardware that follows the kinds acts on each cell alone; one
operation agrees with the store, and the run by induction. -/
theorem registerRun_refines (hunion : BitmaskIsUnion crates)
    (hrender : renderRegisterMod crates config register access rpath index = .ok code)
    (hwidths : OwnWidths code.code.fields env)
    (hapart : Apart code.rty.bits (Element.cell code.code.fields)
      (IsElement crates code.code.fields))
    {hw : Hardware code.rty.bits}
    (hfollows : FollowsKinds crates register.info.modifiedWriteValues code.code.fields hw)
    {b b' : BitVec code.rty.bits} {events : List (RegEvent code.rty.bits)}
    (h : RegRun env code.code.fields (code.spec code.rty.bits) hw b events b') {e : Element}
    (he : IsElement crates code.code.fields e) :
    FieldStore.of code.code.fields b' e =
      events.foldl (FieldStore.apply env register.info.modifiedWriteValues code.code.fields
        (code.spec code.rty.bits)) (FieldStore.of code.code.fields b) e :=
  (h.agrees (renderRegisterMod_ok hrender).1 hunion hwidths hapart hfollows
    (fun _ _ => rfl) e he).symm

end Rendered

/-! ## Registers one can list the elements of -/

section Elements

variable (crates : Crates) (rmwv : Option ModifiedWriteValues) (codes : List FieldCode) (n : Nat)

/-- All elements the code has a writer for. -/
def elementsOf : List Element :=
  codes.zipIdx.flatMap fun (fc, k) =>
    if fc.writer.isSome then (fc.field.elementOffsets crates).map (⟨k, ·⟩) else []

/-- Every element ends inside a word, and before or behind every other one. -/
def ElementsApart : Prop :=
  (∀ e ∈ elementsOf crates codes, (e.cell codes).offset + (e.cell codes).width ≤ n) ∧
    ∀ e ∈ elementsOf crates codes, ∀ f ∈ elementsOf crates codes, e ≠ f →
      (e.cell codes).offset + (e.cell codes).width ≤ (f.cell codes).offset ∨
        (f.cell codes).offset + (f.cell codes).width ≤ (e.cell codes).offset

instance : Decidable (ElementsApart crates codes n) := inferInstanceAs (Decidable (_ ∧ _))

/-- Hardware that follows the kinds and does nothing else in particular. -/
def kindsHardware : Hardware n := fun old stored new =>
  ∀ e ∈ elementsOf crates codes, (e.cell codes).get new =
    (e.cell codes).get ((e.kind rmwv codes).react old stored)

instance (old stored new : BitVec n) : Decidable (kindsHardware crates rmwv codes n old stored new) :=
  inferInstanceAs (Decidable (∀ e ∈ elementsOf crates codes, _))

variable {crates rmwv codes n}

theorem mem_elementsOf {e : Element} : e ∈ elementsOf crates codes ↔ IsElement crates codes e := by
  unfold elementsOf
  rw [List.mem_flatMap]
  constructor
  · intro h
    obtain ⟨⟨fc, k⟩, hmem, he⟩ := h
    have hfc : codes[k]? = some fc := List.mem_zipIdx_iff_getElem?.mp hmem
    by_cases hwritable : fc.writer.isSome = true
    · simp only [if_pos hwritable] at he
      obtain ⟨o, ho, rfl⟩ := List.mem_map.mp he
      exact ⟨fc, hfc, hwritable, ho⟩
    · simp [hwritable] at he
  · intro h
    obtain ⟨fc, hfc, hwritable, ho⟩ := h
    refine ⟨(fc, e.field), List.mem_zipIdx_iff_getElem?.mpr hfc, ?_⟩
    simp only [if_pos hwritable]
    exact List.mem_map.mpr ⟨e.offset, ho, rfl⟩

theorem ElementsApart.apart (h : ElementsApart crates codes n) :
    Apart n (Element.cell codes) (IsElement crates codes) where
  fits e he := h.1 e (mem_elementsOf.mpr he)
  disjoint := by
    intro e f he hf hne i hi hi'
    obtain ⟨hlow, hhigh⟩ := hi
    obtain ⟨hlow', hhigh'⟩ := hi'
    rcases h.2 e (mem_elementsOf.mpr he) f (mem_elementsOf.mpr hf) hne with hle | hle
    · omega
    · omega

theorem kindsHardware_followsKinds :
    FollowsKinds crates rmwv codes (kindsHardware crates rmwv codes n) :=
  fun _ _ _ h e he => h e (mem_elementsOf.mpr he)

end Elements

/-- A plain field, a flag that a one clears and a line that a zero toggles. -/
def lineRegister : RegisterInfo :=
  { plainRegister "LR" 0 8 with
    fields := some [
      .single (bitField "MODE" 0 4),
      .single { bitField "FLAG" 6 1 with modifiedWriteValues := some .oneToClear },
      .single { bitField "LINE" 7 1 with modifiedWriteValues := some .zeroToToggle }] }

/-- The code of a register of the examples. -/
def exampleCode (info : RegisterInfo) : RegisterCode :=
  match renderRegisterMod asciiCrates defaultConfig (.single info) .readWrite controlPath
    levelIndex with
  | .ok code => code
  | .error _ => ⟨.u8, false, false, .safe, ⟨[], 0, 0⟩, none⟩

def lineCode : RegisterCode := exampleCode lineRegister

theorem lineCode_eq : renderRegisterMod asciiCrates defaultConfig (.single lineRegister)
    .readWrite controlPath levelIndex = .ok lineCode := rfl

theorem lineCode_apart : ElementsApart asciiCrates lineCode.code.fields lineCode.rty.bits := by
  decide +kernel

theorem lineCode_ownWidths : OwnWidths lineCode.code.fields modeEnv := by
  have hall : ∀ fc ∈ lineCode.code.fields, ∀ writer ∈ fc.writer,
      (modeEnv.resolve writer.proxy).width = fc.width := by decide +kernel
  exact hall

def lineHardware : Hardware lineCode.rty.bits :=
  kindsHardware asciiCrates none lineCode.code.fields lineCode.rty.bits

/-- MODE becomes 5, FLAG is cleared and LINE toggled. -/
def lineEvents : List (RegEvent lineCode.rty.bits) :=
  [.modify [.field ⟨0, 0, 0, .bits 5⟩], .modify [.field ⟨1, 0, 0, .method .clearBitByOne⟩],
    .modify [.field ⟨2, 0, 0, .method .toggleBit⟩]]

/-- The second of them. -/
theorem clearStep : RegStep modeEnv lineCode.code.fields (lineCode.spec lineCode.rty.bits)
    lineHardware 0x45 (.modify [.field ⟨1, 0, 0, .method .clearBitByOne⟩]) 0x05 := by
  have hreacts : lineHardware 0x45 0xC5 0x05 := by unfold lineHardware; decide +kernel
  exact .of_runClosure rfl hreacts

theorem lineRun : RegRun modeEnv lineCode.code.fields (lineCode.spec lineCode.rty.bits)
    lineHardware 0x48 lineEvents 0x85 := by
  have hfirst : lineHardware 0x48 0x85 0x45 := by unfold lineHardware; decide +kernel
  have hthird : lineHardware 0x05 0x05 0x85 := by unfold lineHardware; decide +kernel
  exact .cons (.of_runClosure rfl hfirst) (.cons clearStep (.cons (.of_runClosure rfl hthird) .nil))

/-- After the run LINE holds what it does in the store of the fields, a one. -/
theorem registerRun_refines_line :
    FieldStore.of lineCode.code.fields (0x85 : BitVec lineCode.rty.bits) ⟨2, 7⟩ =
      lineEvents.foldl (FieldStore.apply modeEnv none lineCode.code.fields
        (lineCode.spec lineCode.rty.bits)) (FieldStore.of lineCode.code.fields 0x48) ⟨2, 7⟩ :=
  registerRun_refines bitmaskIsUnion_asciiCrates lineCode_eq lineCode_ownWidths
    lineCode_apart.apart kindsHardware_followsKinds lineRun ⟨_, rfl, rfl, by decide +kernel⟩

end Svd2Rust
