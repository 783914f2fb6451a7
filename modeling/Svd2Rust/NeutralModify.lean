import Svd2Rust.FieldAccess

/-!
# Neutral read-modify-write

`modify`, `write` and their variants start from the value read, or the reset
value, with the bits of the fields in the two bitmaps forced to the value that
changes nothing.  A closure then calls writers of some fields.  Bits of the
other fields stay neutral as long as the writers it calls stay inside the bits
of their own fields; a writer that is re-exported from the field its enumeration
is derived from has that field's width, and `neutralModify_iff` says which runs
of bits it may take.
-/

namespace Svd2Rust

open BitFields

/-! ## Closures that call field writers -/

/-- A call of a writer method: the field, the accessor and index that hand out its
writer, and the method. -/
structure FieldCall where
  field : Nat
  accessor : Nat
  index : Nat
  call : WriterCall
deriving DecidableEq, Repr

section Calls

variable {n : Nat} (env : ProxyEnv) (codes : List FieldCode)

/-- The call on the word to be stored. -/
def FieldCall.run (w : BitVec n) (c : FieldCall) : Gen (BitVec n) :=
  match codes[c.field]?.bind (·.writer) with
  | none => panicking "no such writer"
  | some writer => match writer.accessors[c.accessor]? with
      | none => panicking "no such accessor"
      | some accessor => writer.write env (accessor, c.index) c.call w

/-- A run of calls. -/
def runCalls (w : BitVec n) (calls : List FieldCall) : Gen (BitVec n) :=
  calls.foldlM (FieldCall.run env codes) w

/-- A closure that does nothing to the writer but call writer methods of the fields
of `S`.  The calls may depend on anything. -/
def OnlyCalls (S : Nat → Prop) (f : BitVec n → Gen (BitVec n)) : Prop :=
  ∀ w w', f w = .ok w' → ∃ calls : List FieldCall, (∀ c ∈ calls, S c.field) ∧
    runCalls env codes w calls = .ok w'

end Calls

/-! ## Bits of fields -/

section Bits

variable (crates : Crates) (codes : List FieldCode)

/-- Bit `i` belongs to an element of the field. -/
def Field.HasBit (field : Field) (i : Nat) : Prop :=
  ∃ o ∈ field.elementOffsets crates, InRun o field.info.bitRange.width i

/-- Bit `i` belongs to field `k`, whose code that is, and the field is writable. -/
def CoveredBy (i k : Nat) (fc : FieldCode) : Prop :=
  codes[k]? = some fc ∧ fc.writer.isSome = true ∧ fc.field.HasBit crates i

/-- Bit `i` belongs to writable field `k`. -/
def Covers (k i : Nat) : Prop := ∃ fc, CoveredBy crates codes i k fc

instance (field : Field) (i : Nat) : Decidable (field.HasBit crates i) :=
  inferInstanceAs (Decidable (∃ o ∈ field.elementOffsets crates, _))

instance (k i : Nat) : Decidable (Covers crates codes k i) :=
  decidable_of_iff
    (∃ fc ∈ codes[k]?, fc.writer.isSome = true ∧ fc.field.HasBit crates i) Iff.rfl

theorem Covers.lt_length {crates : Crates} {codes : List FieldCode} {k i : Nat}
    (h : Covers crates codes k i) : k < codes.length := by
  obtain ⟨fc, hfc, -⟩ := h
  exact (List.getElem?_eq_some_iff.mp hfc).1

/-- A writer of field `k` can replace bit `i` of a word of `n` bits. -/
def Touches (env : ProxyEnv) (n k i : Nat) : Prop :=
  ∃ fc writer, codes[k]? = some fc ∧ fc.writer = some writer ∧
    (env.resolve writer.proxy).width ≤ n ∧
    ∃ o ∈ fc.field.elementOffsets crates, o < n ∧ InRun o (env.resolve writer.proxy).width i

/-- The bit that changes nothing, for a field of that kind that reads as `b`. -/
def neutralBit (mwv : ModifiedWriteValues) (b : Bool) : Bool :=
  if mwv.oneToModify then false else if mwv.zeroToModify then true else b

/-- The kind of a field: its own `modifiedWriteValues`, else the register's, else
`modify`. -/
def FieldInfo.effectiveMwv (info : FieldInfo) (rmwv : Option ModifiedWriteValues) :
    ModifiedWriteValues :=
  (info.modifiedWriteValues.or rmwv).getD .modify

/-- The bits of `v` that are promised for `b`: those of exactly one writable field
outside `S` are neutral, those of no writable field are the bits of `b`. -/
structure NeutralBits {n : Nat} (rmwv : Option ModifiedWriteValues) (S : Nat → Prop)
    (b v : BitVec n) : Prop where
  others : ∀ i < n, ∀ k fc, ¬ S k → CoveredBy crates codes i k fc →
    (∀ k', Covers crates codes k' i → k' = k) →
      v.getLsbD i = neutralBit (fc.field.info.effectiveMwv rmwv) (b.getLsbD i)
  rest : ∀ i < n, (∀ k, ¬ Covers crates codes k i) → v.getLsbD i = b.getLsbD i

/-- The bitmask of a field holds the bits of its elements. -/
def BitmaskIsUnion : Prop :=
  ∀ (field : Field) (i : Nat), (crates.bitmask field).testBit i = true ↔ field.HasBit crates i

end Bits

/-- The constants of the generated instances. -/
def RegisterCode.spec (code : RegisterCode) (n : Nat) : RegisterSpec n where
  resetValue := BitVec.ofNat n (code.resetValue.getD 0)
  zeroToModifyFieldsBitmap := BitVec.ofNat n code.code.zeroToModifyFieldsBitmap
  oneToModifyFieldsBitmap := BitVec.ofNat n code.code.oneToModifyFieldsBitmap

/-- **Neutral read-modify-write.**  Every operation the register has stores neutral
bits for the fields outside `S`: the `modify` family of a register that can be
read, and the `write` family, on the reset value, of one that can be reset. -/
structure NeutralModify (crates : Crates) (env : ProxyEnv) (rmwv : Option ModifiedWriteValues)
    (code : RegisterCode) (n : Nat) (S : Nat → Prop) : Prop where
  modify : code.canRead = true → ∀ (b v : BitVec n) f effect,
    (∀ r, OnlyCalls env code.code.fields S (f r)) →
    Reg.modify (code.spec n) b f = .ok effect → .register v ∈ effect.stores →
      NeutralBits crates code.code.fields rmwv S b v
  fromModify : code.canRead = true → ∀ (T : Type) (b v : BitVec n)
    (f : BitVec n → BitVec n → Gen (BitVec n × T)) effect,
    (∀ r, OnlyCalls env code.code.fields S fun w => Prod.fst <$> f r w) →
    Reg.fromModify (code.spec n) b f = .ok effect → .register v ∈ effect.stores →
      NeutralBits crates code.code.fields rmwv S b v
  write : code.resetValue.isSome = true → ∀ (v : BitVec n) f effect,
    OnlyCalls env code.code.fields S f →
    Reg.write (code.spec n) f = .ok effect → .register v ∈ effect.stores →
      NeutralBits crates code.code.fields rmwv S (code.spec n).resetValue v
  fromWrite : code.resetValue.isSome = true → ∀ (T : Type) (v : BitVec n)
    (f : BitVec n → Gen (BitVec n × T)) effect,
    (OnlyCalls env code.code.fields S fun w => Prod.fst <$> f w) →
    Reg.fromWrite (code.spec n) f = .ok effect → .register v ∈ effect.stores →
      NeutralBits crates code.code.fields rmwv S (code.spec n).resetValue v
  modifyProtected : n = 8 → code.canRead = true → ∀ (magic b v : BitVec 8) f effect,
    (∀ r, OnlyCalls env code.code.fields S (f r)) →
    Reg.modifyProtected (code.spec 8) magic b f = .ok effect → .register v ∈ effect.stores →
      NeutralBits crates code.code.fields rmwv S b v
  writeProtected : n = 8 → code.resetValue.isSome = true → ∀ (magic v : BitVec 8) f effect,
    OnlyCalls env code.code.fields S f →
    Reg.writeProtected (code.spec 8) magic f = .ok effect → .register v ∈ effect.stores →
      NeutralBits crates code.code.fields rmwv S (code.spec 8).resetValue v

/-- Writers of `S` take no bit of another field: every bit they can replace belongs
to a field of `S`, or to two writable fields, for which nothing is promised. -/
def WritersStayInside (crates : Crates) (env : ProxyEnv) (codes : List FieldCode) (n : Nat)
    (S : Nat → Prop) : Prop :=
  ∀ k, S k → ∀ i < n, Touches crates codes env n k i →
    (∃ k', S k' ∧ Covers crates codes k' i) ∨
      ∃ k' k'', k' ≠ k'' ∧ Covers crates codes k' i ∧ Covers crates codes k'' i

/-! ## The word a closure starts from -/

section Start

variable {crates : Crates} {config : Config} {access : Access} {properties : RegisterProperties}
  {rmwv : Option ModifiedWriteValues} {code : FieldsCode}

/-- The bitmaps hold the bits of the writable fields of their kinds. -/
theorem modifiedBits_iff (hinv : FieldsInv crates config access properties rmwv code)
    (hunion : BitmaskIsUnion crates) (kind : ModifiedWriteValues → Bool) (i : Nat) :
    modifiedBits kind code.fields i ↔
      ∃ k fc, CoveredBy crates code.fields i k fc ∧
        kind (fc.field.info.effectiveMwv rmwv) = true := by
  have hwriters : ∀ fc ∈ code.fields, ∀ writer ∈ fc.writer,
      writer.modifiedWriteValues = fc.field.info.effectiveMwv rmwv ∧
        (writer.bitmask.testBit i = true ↔ fc.field.HasBit crates i) := by
    intro fc hfc writer hwriter
    obtain ⟨fty, useCast, useMask, hcode⟩ := hinv.codes fc hfc
    rw [hcode.writer_bitmask writer hwriter]
    exact ⟨hcode.writer_mwv writer hwriter, hunion fc.field i⟩
  constructor
  · intro h
    obtain ⟨fc, hfc, writer, hwriter, hkind, hbit⟩ := h
    obtain ⟨hmwv, hmask⟩ := hwriters fc hfc writer hwriter
    obtain ⟨k, hk⟩ := List.mem_iff_getElem?.mp hfc
    exact ⟨k, fc, ⟨hk, Option.isSome_iff_exists.mpr ⟨writer, hwriter⟩, hmask.mp hbit⟩,
      hmwv ▸ hkind⟩
  · intro h
    obtain ⟨k, fc, ⟨hk, hsome, hbit⟩, hkind⟩ := h
    obtain ⟨writer, hwriter⟩ := Option.isSome_iff_exists.mp hsome
    have hfc := List.mem_of_getElem? hk
    obtain ⟨hmwv, hmask⟩ := hwriters fc hfc writer hwriter
    exact ⟨fc, hfc, writer, hwriter, hmwv ▸ hkind, hmask.mpr hbit⟩

/-- The word every operation hands to its closure. -/
def startWord {n : Nat} (spec : RegisterSpec n) (b : BitVec n) : BitVec n :=
  b &&& ~~~spec.oneToModifyFieldsBitmap ||| spec.zeroToModifyFieldsBitmap

theorem getLsbD_startWord {n i : Nat} (code : RegisterCode) (b : BitVec n) (hi : i < n) :
    (startWord (code.spec n) b).getLsbD i =
      (b.getLsbD i && !code.code.oneToModifyFieldsBitmap.testBit i ||
        code.code.zeroToModifyFieldsBitmap.testBit i) := by
  simp only [startWord, RegisterCode.spec, BitVec.getLsbD_or, BitVec.getLsbD_and,
    BitVec.getLsbD_not, BitVec.getLsbD_ofNat, hi, decide_true, Bool.true_and]

end Start

section Neutral

variable {crates : Crates} {config : Config} {access : Access} {properties : RegisterProperties}
  {rmwv : Option ModifiedWriteValues} {code : RegisterCode} {n : Nat}

/-- **The start is neutral.**  A bit of a single writable field starts from the value
that changes nothing. -/
theorem startWord_of_unique (hinv : FieldsInv crates config access properties rmwv code.code)
    (hunion : BitmaskIsUnion crates) (b : BitVec n) {i k : Nat} {fc : FieldCode} (hi : i < n)
    (hcovered : CoveredBy crates code.code.fields i k fc)
    (hunique : ∀ k', Covers crates code.code.fields k' i → k' = k) :
    (startWord (code.spec n) b).getLsbD i =
      neutralBit (fc.field.info.effectiveMwv rmwv) (b.getLsbD i) := by
  have hkinds : ∀ kind, modifiedBits kind code.code.fields i ↔
      kind (fc.field.info.effectiveMwv rmwv) = true := by
    intro kind
    rw [modifiedBits_iff hinv hunion]
    constructor
    · intro h
      obtain ⟨k', fc', hcovered', hkind⟩ := h
      obtain rfl := hunique k' ⟨fc', hcovered'⟩
      obtain rfl : fc = fc' := Option.some.inj (hcovered.1.symm.trans hcovered'.1)
      exact hkind
    · intro hkind
      exact ⟨k, fc, hcovered, hkind⟩
  have hone := (hinv.one_bits i).trans (hkinds _)
  have hzero := (hinv.zero_bits i).trans (hkinds _)
  rw [getLsbD_startWord code b hi, Bool.eq_iff_iff.mpr hone, Bool.eq_iff_iff.mpr hzero]
  cases fc.field.info.effectiveMwv rmwv <;>
    simp [neutralBit, ModifiedWriteValues.oneToModify, ModifiedWriteValues.zeroToModify]

/-- A bit of no writable field starts from the value read. -/
theorem startWord_of_uncovered (hinv : FieldsInv crates config access properties rmwv code.code)
    (hunion : BitmaskIsUnion crates) (b : BitVec n) {i : Nat} (hi : i < n)
    (hnone : ∀ k, ¬ Covers crates code.code.fields k i) :
    (startWord (code.spec n) b).getLsbD i = b.getLsbD i := by
  have hkinds : ∀ kind, ¬ modifiedBits kind code.code.fields i := by
    intro kind h
    obtain ⟨k, fc, hcovered, -⟩ := (modifiedBits_iff hinv hunion kind i).mp h
    exact hnone k ⟨fc, hcovered⟩
  have hone : code.code.oneToModifyFieldsBitmap.testBit i = false := by
    simpa using mt (hinv.one_bits i).mp (hkinds _)
  have hzero : code.code.zeroToModifyFieldsBitmap.testBit i = false := by
    simpa using mt (hinv.zero_bits i).mp (hkinds _)
  rw [getLsbD_startWord code b hi, hone, hzero]
  simp

/-! ## The calls of a closure -/

variable {env : ProxyEnv} {S : Nat → Prop}

/-- **One call.**  A call changes bits its field's writer touches, and no others.  The writer
replaces the run of its own width at the offset of the element, whatever the width of the
field. -/
theorem fieldCall_frame (hinv : FieldsInv crates config access properties rmwv code.code)
    {w w' : BitVec n} {c : FieldCall} (h : c.run env code.code.fields w = .ok w') {i : Nat}
    (hi : i < n) (hout : ¬ Touches crates code.code.fields env n c.field i) :
    w'.getLsbD i = w.getLsbD i := by
  unfold FieldCall.run at h
  cases hwriter : code.code.fields[c.field]?.bind (·.writer) with
  | none =>
      rw [hwriter] at h
      simp at h
  | some writer =>
      rw [hwriter] at h
      simp only at h
      obtain ⟨fc, hfc, hwriter⟩ := Option.bind_eq_some_iff.mp hwriter
      cases haccessor : writer.accessors[c.accessor]? with
      | none =>
          rw [haccessor] at h
          simp at h
      | some accessor =>
          rw [haccessor] at h
          obtain ⟨o, ho, hrun⟩ := gen_bind_ok.mp h
          obtain ⟨fty, useCast, useMask, hcode⟩ := hinv.codes fc (List.mem_of_getElem? hfc)
          obtain ⟨name, haccessors⟩ := hcode.writer_accessors writer hwriter
          have helement := offset_mem_elementOffsets haccessors
            (List.mem_of_getElem? haccessor) ho
          cases hmethod : (env.resolve writer.proxy).run w o c.call with
          | none =>
              rw [hmethod] at hrun
              simp at hrun
          | some result =>
              rw [hmethod] at hrun
              obtain rfl : result = .ok w' := hrun
              obtain ⟨value, hleaves⟩ := WriterProxy.leaves_of_run hmethod
              obtain ⟨hwidth, hlt, rfl⟩ := (WriterProxy.run_ok hleaves).mp hmethod
              rw [getLsbD_insert hwidth hi, if_neg]
              intro hin
              exact hout ⟨fc, writer, hfc, hwriter, hwidth, o, helement, hlt, hin⟩

/-- **All calls.**  A closure leaves the bits its fields' writers do not touch. -/
theorem runCalls_frame (hinv : FieldsInv crates config access properties rmwv code.code)
    {w w' : BitVec n} {calls : List FieldCall} (hS : ∀ c ∈ calls, S c.field)
    (h : runCalls env code.code.fields w calls = .ok w') {i : Nat} (hi : i < n)
    (hout : ∀ k, S k → ¬ Touches crates code.code.fields env n k i) :
    w'.getLsbD i = w.getLsbD i := by
  induction calls generalizing w with
  | nil =>
      obtain rfl : w = w' := Except.ok.inj h
      rfl
  | cons c rest ih =>
      obtain ⟨next, hnext, hrest⟩ := FallibleRuns.foldlM_cons_ok.mp h
      have hfirst := fieldCall_frame hinv hnext hi (hout c.field (hS c List.mem_cons_self))
      have hlast := ih (fun d hd => hS d (List.mem_cons_of_mem _ hd)) hrest
      exact hlast.trans hfirst

/-- **Neutral bits.**  A closure on the start word leaves every promised bit, when
its writers take no bit of another field. -/
theorem neutralBits_of_staysInside (hinv : FieldsInv crates config access properties rmwv code.code)
    (hunion : BitmaskIsUnion crates)
    (hinside : WritersStayInside crates env code.code.fields n S) {b v : BitVec n}
    {f : BitVec n → Gen (BitVec n)} (hf : OnlyCalls env code.code.fields S f)
    (h : f (startWord (code.spec n) b) = .ok v) :
    NeutralBits crates code.code.fields rmwv S b v := by
  obtain ⟨calls, hcalls, hrun⟩ := hf _ _ h
  have hframe := fun {i : Nat} (hi : i < n) => @runCalls_frame _ _ _ _ _ _ _ env S hinv _ _ _
    hcalls hrun i hi
  constructor
  · intro i hi k fc hk hcovered hunique
    rw [hframe hi, startWord_of_unique hinv hunion b hi hcovered hunique]
    intro k' hk' htouch
    rcases hinside k' hk' i hi htouch with hmember | htwo
    · obtain ⟨m, hm, hcovers⟩ := hmember
      exact hk (hunique m hcovers ▸ hm)
    · obtain ⟨l, m, hne, hl, hm⟩ := htwo
      exact hne ((hunique l hl).trans (hunique m hm).symm)
  · intro i hi hnone
    rw [hframe hi, startWord_of_uncovered hinv hunion b hi hnone]
    intro k' hk' htouch
    rcases hinside k' hk' i hi htouch with hmember | htwo
    · obtain ⟨m, -, hcovers⟩ := hmember
      exact hnone m hcovers
    · obtain ⟨l, m, -, hl, -⟩ := htwo
      exact hnone l hl

/-- **Any value.**  A bit a writer touches can be given either value by one call. -/
theorem exists_call_of_touches (hinv : FieldsInv crates config access properties rmwv code.code)
    {k i : Nat} (h : Touches crates code.code.fields env n k i) (hi : i < n) (bit : Bool) :
    ∃ c : FieldCall, c.field = k ∧ ∀ w : BitVec n, ∃ w',
      c.run env code.code.fields w = .ok w' ∧ w'.getLsbD i = bit := by
  obtain ⟨fc, writer, hfc, hwriter, hwidth, o, helement, hlt, hin⟩ := h
  obtain ⟨fty, useCast, useMask, hcode⟩ := hinv.codes fc (List.mem_of_getElem? hfc)
  obtain ⟨name, haccessors⟩ := hcode.writer_accessors writer hwriter
  obtain ⟨accessor, hmem, hoffset⟩ := exists_accessor_of_element haccessors helement
  obtain ⟨a, ha⟩ := List.mem_iff_getElem?.mp hmem
  have hcall : ∃ call value, (env.resolve writer.proxy).leaves call = some value ∧
      (BitVec.ofNat n value).getLsbD (i - o) = bit := by
    have hin' : InRun o (env.resolve writer.proxy).width i := hin
    cases hproxy : env.resolve writer.proxy with
    | fieldWriter wi valueTy marker =>
        refine ⟨.bits (if bit then 2 ^ (i - o) else 0), _, rfl, ?_⟩
        have hsmall : i - o < n := by omega
        rw [BitVec.getLsbD_ofNat]
        cases bit <;> simp [hsmall]
    | bitWriter marker valueTy =>
        rw [hproxy] at hin'
        have hio : i - o = 0 := by
          obtain ⟨hlow, hhigh⟩ := hin'
          simp only [WriterProxy.width] at hhigh
          omega
        refine ⟨.bit bit, _, rfl, ?_⟩
        rw [hio]
        have hpos : 0 < n := by omega
        cases bit <;> simp [hpos]
  obtain ⟨call, value, hleaves, hbit⟩ := hcall
  refine ⟨⟨k, a, 0, call⟩, rfl, fun w => ?_⟩
  have hok := (@WriterProxy.run_ok n _ _ w _ o _ hleaves).mpr ⟨hwidth, hlt, rfl⟩
  refine ⟨insert w o (env.resolve writer.proxy).width (BitVec.ofNat n value), ?_, ?_⟩
  · simp only [FieldCall.run, hfc, Option.bind_some, hwriter, ha]
    refine gen_bind_ok.mpr ⟨o, hoffset, ?_⟩
    rw [hok]
    rfl
  · rw [getLsbD_insert hwidth hi, if_pos hin, hbit]

/-- **Escaping bits.**  Neutral bits after every closure of `S` force its writers to
stay inside: a bit that belongs to no field of `S` and to one field at most would
be promised one value and can be given the other. -/
theorem staysInside_of_neutralBits
    (hinv : FieldsInv crates config access properties rmwv code.code) (b : BitVec n)
    (h : ∀ (f : BitVec n → Gen (BitVec n)) v, OnlyCalls env code.code.fields S f →
      f (startWord (code.spec n) b) = .ok v → NeutralBits crates code.code.fields rmwv S b v) :
    WritersStayInside crates env code.code.fields n S := by
  intro k hk i hi htouch
  by_contra hnot
  push Not at hnot
  obtain ⟨hmember, htwo⟩ := hnot
  have hreach : ∀ bit, ∃ v, NeutralBits crates code.code.fields rmwv S b v ∧ v.getLsbD i = bit := by
    intro bit
    obtain ⟨c, hc, hrun⟩ := exists_call_of_touches hinv htouch hi bit
    obtain ⟨v, hv, hbit⟩ := hrun (startWord (code.spec n) b)
    refine ⟨v, h (fun w => runCalls env code.code.fields w [c]) v ?_ ?_, hbit⟩
    · intro w w' hw
      refine ⟨[c], fun d hd => ?_, hw⟩
      rw [List.mem_singleton.mp hd, hc]
      exact hk
    · exact FallibleRuns.foldlM_cons_ok.mpr ⟨v, hv, rfl⟩
  obtain ⟨zero, hzero, hzerobit⟩ := hreach false
  obtain ⟨one, hone, honebit⟩ := hreach true
  by_cases hnone : ∀ m, ¬ Covers crates code.code.fields m i
  · have hzero' := hzero.rest i hi hnone
    have hone' := hone.rest i hi hnone
    rw [hzerobit] at hzero'
    rw [honebit, ← hzero'] at hone'
    cases hone'
  · push Not at hnone
    obtain ⟨m, fc, hcovered⟩ := hnone
    have hm : ¬ S m := fun hm => hmember m hm ⟨fc, hcovered⟩
    have hunique : ∀ m', Covers crates code.code.fields m' i → m' = m := by
      intro m' hcovers
      by_contra hne
      exact htwo m' m hne hcovers ⟨fc, hcovered⟩
    have hzero' := hzero.others i hi m fc hm hcovered hunique
    have hone' := hone.others i hi m fc hm hcovered hunique
    rw [hzerobit] at hzero'
    rw [honebit, ← hzero'] at hone'
    cases hone'

end Neutral

/-! ## The six operations -/

section Operations

variable {n : Nat} {spec : RegisterSpec n}

/-- Every operation stores what the closure makes of the start word. -/
theorem modify_stores {b v : BitVec n} {f : BitVec n → BitVec n → Gen (BitVec n)}
    {effect : Effect n (BitVec n)} (h : Reg.modify spec b f = .ok effect)
    (hv : .register v ∈ effect.stores) : f b (startWord spec b) = .ok v := by
  obtain ⟨value, hvalue, h⟩ := gen_bind_ok.mp h
  obtain rfl := gen_pure_ok.mp h
  obtain rfl : v = value := by simpa using hv
  exact hvalue

theorem write_stores {v : BitVec n} {f : BitVec n → Gen (BitVec n)}
    {effect : Effect n (BitVec n)} (h : Reg.write spec f = .ok effect)
    (hv : .register v ∈ effect.stores) : f (startWord spec spec.resetValue) = .ok v := by
  obtain ⟨value, hvalue, h⟩ := gen_bind_ok.mp h
  obtain rfl := gen_pure_ok.mp h
  obtain rfl : v = value := by simpa using hv
  exact hvalue

theorem fromModify_stores {T : Type} {b v : BitVec n}
    {f : BitVec n → BitVec n → Gen (BitVec n × T)} {effect : Effect n T}
    (h : Reg.fromModify spec b f = .ok effect) (hv : .register v ∈ effect.stores) :
    (Prod.fst <$> f b (startWord spec b)) = .ok v := by
  obtain ⟨⟨writer, result⟩, hwriter, h⟩ := gen_bind_ok.mp h
  obtain rfl := gen_pure_ok.mp h
  obtain rfl : v = writer := by simpa using hv
  exact gen_map_ok.mpr ⟨(v, result), hwriter, rfl⟩

theorem fromWrite_stores {T : Type} {v : BitVec n} {f : BitVec n → Gen (BitVec n × T)}
    {effect : Effect n T} (h : Reg.fromWrite spec f = .ok effect)
    (hv : .register v ∈ effect.stores) :
    (Prod.fst <$> f (startWord spec spec.resetValue)) = .ok v := by
  obtain ⟨⟨writer, result⟩, hwriter, h⟩ := gen_bind_ok.mp h
  obtain rfl := gen_pure_ok.mp h
  obtain rfl : v = writer := by simpa using hv
  exact gen_map_ok.mpr ⟨(v, result), hwriter, rfl⟩

theorem modifyProtected_stores {spec : RegisterSpec 8} {magic b v : BitVec 8}
    {f : BitVec 8 → BitVec 8 → Gen (BitVec 8)} {effect : Effect 8 Unit}
    (h : Reg.modifyProtected spec magic b f = .ok effect) (hv : .register v ∈ effect.stores) :
    f b (startWord spec b) = .ok v := by
  obtain ⟨value, hvalue, h⟩ := gen_bind_ok.mp h
  obtain rfl := gen_pure_ok.mp h
  obtain rfl : v = value := by simpa [ccpProtectedWrite] using hv
  exact hvalue

theorem writeProtected_stores {spec : RegisterSpec 8} {magic v : BitVec 8}
    {f : BitVec 8 → Gen (BitVec 8)} {effect : Effect 8 Unit}
    (h : Reg.writeProtected spec magic f = .ok effect) (hv : .register v ∈ effect.stores) :
    f (startWord spec spec.resetValue) = .ok v := by
  obtain ⟨value, hvalue, h⟩ := gen_bind_ok.mp h
  obtain rfl := gen_pure_ok.mp h
  obtain rfl : v = value := by simpa [ccpProtectedWrite] using hv
  exact hvalue

end Operations

/-- **Neutral read-modify-write.**  The operations of a rendered register keep the bits of the
other fields neutral exactly when the writers of `S` take no bit of another field, or the
register has none of the operations.  The operations start from the reset value or the word
read, with the bits of the neutral kinds cleared or set by the two bitmaps, so that only a
writer of `S` can change a bit, and it changes its whole run. -/
theorem neutralModify_iff {crates : Crates} {config : Config} {register : Register}
    {access : Access} {rpath : RegisterPath} {index : Index} {code : RegisterCode}
    (env : ProxyEnv) (S : Nat → Prop) (hunion : BitmaskIsUnion crates)
    (h : renderRegisterMod crates config register access rpath index = .ok code) :
    NeutralModify crates env register.info.modifiedWriteValues code code.rty.bits S ↔
      (code.canRead = true ∨ code.resetValue.isSome = true →
        WritersStayInside crates env code.code.fields code.rty.bits S) := by
  obtain ⟨hinv, -⟩ := renderRegisterMod_ok h
  constructor
  · intro hneutral hhas
    rcases hhas with hread | hreset
    · apply staysInside_of_neutralBits hinv 0
      intro f v hf hv
      refine hneutral.modify hread 0 v (fun _ => f) ⟨[.register v], v⟩ (fun _ => hf) ?_
        (by simp)
      exact gen_bind_ok.mpr ⟨v, hv, rfl⟩
    · apply staysInside_of_neutralBits hinv (code.spec _).resetValue
      intro f v hf hv
      refine hneutral.write hreset v f ⟨[.register v], v⟩ hf ?_ (by simp)
      exact gen_bind_ok.mpr ⟨v, hv, rfl⟩
  · intro hinside
    exact {
      modify := fun hread b v f effect hf hop hv =>
        neutralBits_of_staysInside hinv hunion (hinside (Or.inl hread)) (hf b)
          (modify_stores hop hv)
      fromModify := fun hread T b v f effect hf hop hv =>
        neutralBits_of_staysInside hinv hunion (hinside (Or.inl hread)) (hf b)
          (fromModify_stores hop hv)
      write := fun hreset v f effect hf hop hv =>
        neutralBits_of_staysInside hinv hunion (hinside (Or.inr hreset)) hf
          (write_stores hop hv)
      fromWrite := fun hreset T v f effect hf hop hv =>
        neutralBits_of_staysInside hinv hunion (hinside (Or.inr hreset)) hf
          (fromWrite_stores hop hv)
      modifyProtected := fun hn hread magic b v f effect hf hop hv =>
        neutralBits_of_staysInside hinv hunion (hn ▸ hinside (Or.inl hread)) (hf b)
          (modifyProtected_stores hop hv)
      writeProtected := fun hn hreset magic v f effect hf hop hv =>
        neutralBits_of_staysInside hinv hunion (hn ▸ hinside (Or.inr hreset)) hf
          (writeProtected_stores hop hv) }

/-- A writer that is not re-exported has the width of its field. -/
theorem writerProxy_width (width : Nat) (mwv : ModifiedWriteValues) (valueTy : String)
    (safety : Safety) : (writerProxy width mwv valueTy safety).width = width := by
  unfold writerProxy
  split
  · rename_i hone
    exact hone.symm
  split
  · rfl
  · rfl

/-- Writers that are not re-exported stay inside their fields. -/
theorem staysInside_of_own {crates : Crates} {config : Config} {access : Access}
    {properties : RegisterProperties} {rmwv : Option ModifiedWriteValues} {code : FieldsCode}
    (hinv : FieldsInv crates config access properties rmwv code) (env : ProxyEnv) (n : Nat)
    {S : Nat → Prop}
    (hown : ∀ k, S k → ∀ fc ∈ code.fields[k]?, ∀ writer ∈ fc.writer, ∀ base,
      writer.proxy ≠ .reexport base) :
    WritersStayInside crates env code.fields n S := by
  intro k hk i _ htouch
  obtain ⟨fc, writer, hfc, hwriter, -, o, ho, -, hin⟩ := htouch
  obtain ⟨fty, useCast, useMask, hcode⟩ := hinv.codes fc (List.mem_of_getElem? hfc)
  refine Or.inl ⟨k, hk, fc, hfc, Option.isSome_iff_exists.mpr ⟨writer, hwriter⟩, o, ho, ?_⟩
  rcases hcode.writer_proxy writer hwriter with hproxy | hproxy
  · obtain ⟨valueTy, safety, hproxy⟩ := hproxy
    rw [hproxy, ProxyEnv.resolve, writerProxy_width] at hin
    exact hin
  · obtain ⟨base, hproxy⟩ := hproxy
    exact absurd hproxy (hown k hk fc hfc writer hwriter base)

/-! ## A writer of another field's width -/

namespace AsciiCrates

theorem testBit_fieldBits (info : FieldInfo) (i : Nat) :
    (fieldBits info).testBit i = true ↔ InRun info.bitRange.offset info.bitRange.width i := by
  rw [fieldBits, Nat.testBit_shiftLeft, Nat.testBit_two_pow_sub_one]
  simp only [Bool.and_eq_true, decide_eq_true_eq, InRun]
  omega

theorem testBit_foldl_or (infos : List FieldInfo) (bits i : Nat) :
    ((infos.map fieldBits).foldl (· ||| ·) bits).testBit i = true ↔
      bits.testBit i = true ∨ ∃ info ∈ infos, (fieldBits info).testBit i = true := by
  induction infos generalizing bits with
  | nil => simp
  | cons info rest ih =>
      rw [List.map_cons, List.foldl_cons, ih, Nat.testBit_or, Bool.or_eq_true,
        List.exists_mem_cons_iff, or_assoc]

end AsciiCrates

/-- The bitmask of plain input is the union of the elements. -/
theorem bitmaskIsUnion_asciiCrates : BitmaskIsUnion asciiCrates := by
  intro field i
  cases field with
  | single info =>
      have hone : Field.HasBit asciiCrates (.single info) i ↔
          InRun info.bitRange.offset info.bitRange.width i := by
        simp [Field.HasBit, Field.elementOffsets]
      exact (AsciiCrates.testBit_fieldBits info i).trans hone.symm
  | array info dim =>
      have hranges := congrArg (List.map BitRange.width)
        (asciiCrates.fieldExpand_bitRanges info dim)
      have hwidth : ∀ element ∈ asciiCrates.fieldExpand info dim,
          element.bitRange.width = info.bitRange.width := by
        intro element helement
        have hmem := List.mem_map_of_mem (f := fun e : FieldInfo => e.bitRange.width) helement
        simp only [List.map_map, Function.comp_def] at hranges
        rw [hranges] at hmem
        obtain ⟨_, -, heq⟩ := List.mem_map.mp hmem
        exact heq.symm
      have hbits := AsciiCrates.testBit_foldl_or (asciiCrates.fieldExpand info dim) 0 i
      simp only [Nat.zero_testBit, Bool.false_eq_true, false_or,
        AsciiCrates.testBit_fieldBits] at hbits
      refine hbits.trans ?_
      constructor
      · intro h
        obtain ⟨element, helement, hin⟩ := h
        rw [hwidth element helement] at hin
        exact ⟨_, List.mem_map_of_mem helement, hin⟩
      · intro h
        obtain ⟨o, ho, hin⟩ := h
        obtain ⟨element, helement, rfl⟩ := List.mem_map.mp ho
        exact ⟨element, helement, (hwidth element helement).symm ▸ hin⟩

/-- Two levels, named by value. -/
def levelEnum : EnumeratedValues :=
  { plainEnum [valuedEntry "Low" 0, valuedEntry "High" 1] with name := some "Level" }

/-- The place of the register of the examples. -/
def controlPath : RegisterPath := ⟨⟨"P", []⟩, "CR"⟩

/-- An index that knows the enumeration of the field MODE. -/
def levelIndex : Index where
  registers _ := none
  clusters _ := none
  evs path := if path = (controlPath.newField "MODE").newEnum "Level" then some levelEnum else none

/-- A four-bit field with an enumeration, a two-bit field that derives it and a
flag beside that is cleared by ones. -/
def sharedEnumRegister : RegisterInfo :=
  { plainRegister "CR" 0 8 with
    fields := some [
      .single { bitField "MODE" 0 4 with enumeratedValues := [levelEnum] },
      .single { bitField "SEL" 4 2 with
        enumeratedValues := [{ levelEnum with derivedFrom := some "MODE.Level" }] },
      .single { bitField "FLAG" 6 2 with modifiedWriteValues := some .oneToClear }] }

/-- The code of its fields. -/
def sharedEnumFields : List FieldCode :=
  match renderRegisterMod asciiCrates defaultConfig (.single sharedEnumRegister) .readWrite
    controlPath levelIndex with
  | .ok code => code.code.fields
  | .error _ => []

/-- The proxies of MODE. -/
def modeEnv : ProxyEnv where
  writer _ := .fieldWriter 4 "Level" .unsafe_

theorem neutralModify_modeField : ∃ code,
    renderRegisterMod asciiCrates defaultConfig (.single sharedEnumRegister) .readWrite
      controlPath levelIndex = .ok code ∧
    NeutralModify asciiCrates modeEnv none code code.rty.bits (· = 0) := by
  have hrender : renderRegisterMod asciiCrates defaultConfig (.single sharedEnumRegister)
    .readWrite controlPath levelIndex = .ok _ := rfl
  refine ⟨_, hrender, (neutralModify_iff modeEnv (· = 0) bitmaskIsUnion_asciiCrates hrender).mpr ?_⟩
  intro _
  apply staysInside_of_own (renderRegisterMod_ok hrender).1
  intro k hk fc hfc writer hwriter base
  subst hk
  obtain rfl := Option.some.inj hfc
  obtain rfl := Option.some.inj hwriter
  exact nofun

/-- SEL re-exports the four-bit writer of MODE, which overwrites FLAG. -/
theorem not_neutralModify_wideWriter : ∃ code,
    renderRegisterMod asciiCrates defaultConfig (.single sharedEnumRegister) .readWrite
      controlPath levelIndex = .ok code ∧
    (code.code.fields.map fun fc => fc.writer.map (·.proxy)) =
      [some (.own (modeEnv.writer ((controlPath.newField "MODE").newEnum "Level"))),
        some (.reexport ((controlPath.newField "MODE").newEnum "Level")),
        some (.own (.fieldWriter 2 "u8" .unsafe_))] ∧
    ¬ NeutralModify asciiCrates modeEnv none code code.rty.bits (· = 1) := by
  have hrender : renderRegisterMod asciiCrates defaultConfig (.single sharedEnumRegister)
    .readWrite controlPath levelIndex = .ok _ := rfl
  refine ⟨_, hrender, rfl, fun h => ?_⟩
  have hinside : WritersStayInside asciiCrates modeEnv sharedEnumFields 8 (· = 1) :=
    staysInside_of_neutralBits (renderRegisterMod_ok hrender).1 0
      fun f v hf hv => h.modify rfl 0 v (fun _ => f) ⟨[.register v], v⟩ (fun _ => hf)
        (gen_bind_ok.mpr ⟨v, hv, rfl⟩) (by simp)
  have honly : ∀ {m}, Covers asciiCrates sharedEnumFields m 6 → m = 2 := by
    intro m hm
    have hlt : m < 3 := hm.lt_length
    have hall : ∀ m < 3, Covers asciiCrates sharedEnumFields m 6 → m = 2 := by decide
    exact hall m hlt hm
  rcases hinside 1 rfl 6 (by decide)
    ⟨_, _, rfl, rfl, by decide, 4, by decide, by decide, by decide⟩ with hmember | htwo
  · obtain ⟨k, rfl, hcovers⟩ := hmember
    exact absurd (honly hcovers) (by decide)
  · obtain ⟨k, l, hne, hk, hl⟩ := htwo
    exact hne ((honly hk).trans (honly hl).symm)

end Svd2Rust
