import Svd2Rust.RegisterRuns

/-!
# What a program sees of its register operations

Two consequences of the store of fields, in the words of the documentation.  After any
number of read-modify-writes a plain field reads as the last value that was written to it,
and a field that nothing named reads as at the start.  And the methods of bit fields do
what their comments say, whether the hardware wants a one or a zero for it.
-/

namespace Svd2Rust

open BitFields WordCells

/-! ## Reads after read-modify-writes -/

section Modifies

variable {n : Nat} (env : ProxyEnv) (rmwv : Option ModifiedWriteValues) (codes : List FieldCode)
  (spec : RegisterSpec n)

/-- All changes the closures of a run make. -/
def runChanges (events : List (RegEvent n)) : List (Change n Element) :=
  events.flatMap fun ev => closureChanges env codes ev.calls

/-- The operations are `modify` and `from_modify` only. -/
def OnlyModifies (events : List (RegEvent n)) : Prop := ∀ ev ∈ events, ∃ calls, ev = .modify calls

variable {env rmwv codes spec}

/-- A plain element takes what is written to it and keeps it. -/
theorem apply_modify_plain {e : Element} (hkind : e.kind rmwv codes = .modify)
    (calls : List (ClosureCall n)) (σ : FieldStore n) :
    σ.apply env rmwv codes spec (.modify calls) e =
      (lastLeft (Element.cell codes) e (closureChanges env codes calls)).getD (σ e) &&&
        lowMask n (e.cell codes).width := by
  rw [FieldStore.apply, hkind, RegEvent.calls]
  cases lastLeft (Element.cell codes) e (closureChanges env codes calls) with
  | none => rfl
  | some value => rfl

/-- An element that is not named keeps what it holds, unless every write changes it. -/
theorem apply_modify_unnamed {e : Element} (hclear : e.kind rmwv codes ≠ .clear)
    (hset : e.kind rmwv codes ≠ .set) {calls : List (ClosureCall n)}
    (hnone : lastLeft (Element.cell codes) e (closureChanges env codes calls) = none)
    (σ : FieldStore n) :
    σ.apply env rmwv codes spec (.modify calls) e = σ e &&& lowMask n (e.cell codes).width := by
  rw [FieldStore.apply, RegEvent.calls, hnone]
  simp only [RegEvent.unnamed]
  generalize e.kind rmwv codes = kind at hclear hset
  cases kind <;> first | rfl | contradiction

/-- **Last write.**  After a run a plain element holds the last value written to it. -/
theorem foldl_modify_plain {e : Element} (hkind : e.kind rmwv codes = .modify)
    {events : List (RegEvent n)} (hmodifies : OnlyModifies events) (σ : FieldStore n)
    (hσ : σ e &&& lowMask n (e.cell codes).width = σ e) :
    events.foldl (FieldStore.apply env rmwv codes spec) σ e =
      (lastLeft (Element.cell codes) e (runChanges env codes events)).getD (σ e) := by
  induction events using List.reverseRecOn with
  | nil => rfl
  | append_singleton events ev ih =>
      obtain ⟨calls, rfl⟩ := hmodifies ev (List.mem_append_right _ (List.mem_singleton.mpr rfl))
      have hbefore := ih fun ev' hev' => hmodifies ev' (List.mem_append_left _ hev')
      have hchanges : runChanges env codes (events ++ [.modify calls]) =
          runChanges env codes events ++ closureChanges env codes calls := by
        simp [runChanges, RegEvent.calls]
      rw [List.foldl_append, List.foldl_cons, List.foldl_nil, apply_modify_plain hkind, hbefore,
        hchanges, lastLeft_append]
      cases hlast : lastLeft (Element.cell codes) e (closureChanges env codes calls) with
      | some value => exact lastLeft_masked hlast
      | none =>
          rw [Option.getD_none, Option.none_or]
          cases hfirst : lastLeft (Element.cell codes) e (runChanges env codes events) with
          | some value => exact lastLeft_masked hfirst
          | none => exact hσ

/-- **Frame.**  After a run an element that was never named holds what it held. -/
theorem foldl_modify_unnamed {e : Element} (hclear : e.kind rmwv codes ≠ .clear)
    (hset : e.kind rmwv codes ≠ .set) {events : List (RegEvent n)}
    (hmodifies : OnlyModifies events)
    (hnone : lastLeft (Element.cell codes) e (runChanges env codes events) = none)
    (σ : FieldStore n) (hσ : σ e &&& lowMask n (e.cell codes).width = σ e) :
    events.foldl (FieldStore.apply env rmwv codes spec) σ e = σ e := by
  induction events using List.reverseRecOn with
  | nil => rfl
  | append_singleton events ev ih =>
      obtain ⟨calls, rfl⟩ := hmodifies ev (List.mem_append_right _ (List.mem_singleton.mpr rfl))
      have hchanges : runChanges env codes (events ++ [.modify calls]) =
          runChanges env codes events ++ closureChanges env codes calls := by
        simp [runChanges, RegEvent.calls]
      rw [hchanges, lastLeft_append, Option.or_eq_none_iff] at hnone
      obtain ⟨hlast, hfirst⟩ := hnone
      have hbefore := ih (fun ev' hev' => hmodifies ev' (List.mem_append_left _ hev')) hfirst
      rw [List.foldl_append, List.foldl_cons, List.foldl_nil,
        apply_modify_unnamed hclear hset hlast, hbefore, hσ]

end Modifies

section Reads

variable {crates : Crates} {config : Config} {register : Register} {access : Access}
  {rpath : RegisterPath} {index : Index} {code : RegisterCode} {env : ProxyEnv} {size : Nat}

/-- The readers of an element return what its cell holds. -/
theorem read_cell
    (hrender : renderRegisterMod crates config register access rpath index = .ok code)
    (hsize : register.info.properties.size = some size) {e : Element} {fc : FieldCode}
    (hfc : code.code.fields[e.field]? = some fc) {i : Nat}
    (hat : fc.ElementAt crates code.rty i e.offset) (hown : ReadsOwnRun size fc)
    {reader : ReaderCode} (hreader : reader ∈ fc.reader) {fty : RustTy}
    (hfty : toTy fc.width = .ok fty) {path : ReadAccessor × Nat}
    (hpath : path ∈ readPaths fc.field reader.accessors i) (bits : BitVec code.rty.bits) :
    path.1.read code.rty bits path.2 =
      .ok ⟨fty, ((e.cell code.code.fields).get bits).toNat⟩ := by
  obtain ⟨hinv, size', hsize', hrty⟩ := renderRegisterMod_ok hrender
  obtain rfl := Option.some.inj (hsize'.symm.trans hsize)
  obtain ⟨fty', hfty', hreads⟩ := hinv.reads hsize hrty (List.mem_of_getElem? hfc) hreader hat
  obtain rfl := Except.ok.inj (hfty'.symm.trans hfty)
  rw [Element.cell_eq hfc]
  exact hreads.reads_own hrty hfty hown hpath bits

section Runs

variable (hunion : BitmaskIsUnion crates)
  (hrender : renderRegisterMod crates config register access rpath index = .ok code)
  (hsize : register.info.properties.size = some size) (hwidths : OwnWidths code.code.fields env)
  (hapart : Apart code.rty.bits (Element.cell code.code.fields)
    (IsElement crates code.code.fields))
  {hw : Hardware code.rty.bits}
  (hfollows : FollowsKinds crates register.info.modifiedWriteValues code.code.fields hw)
  {b b' : BitVec code.rty.bits} {events : List (RegEvent code.rty.bits)}
  (hmodifies : OnlyModifies events)
  (h : RegRun env code.code.fields (code.spec code.rty.bits) hw b events b') {e : Element}
  {fc : FieldCode} (hfc : code.code.fields[e.field]? = some fc)
  (hwritable : fc.writer.isSome = true) {i : Nat} (hat : fc.ElementAt crates code.rty i e.offset)
  (hown : ReadsOwnRun size fc) {reader : ReaderCode} (hreader : reader ∈ fc.reader)
  {path : ReadAccessor × Nat} (hpath : path ∈ readPaths fc.field reader.accessors i)

include hunion hrender hsize hwidths hapart hfollows hmodifies h hfc hwritable hat hown hreader hpath

/-- A plain field reads as the last value that was left in it. -/
theorem read_of_lastLeft
    (hkind : fc.field.info.effectiveMwv register.info.modifiedWriteValues = .modify)
    {value : BitVec code.rty.bits}
    (hlast : lastLeft (Element.cell code.code.fields) e
      (runChanges env code.code.fields events) = some value) :
    ∃ fty, toTy fc.width = .ok fty ∧ path.1.read code.rty b' path.2 = .ok ⟨fty, value.toNat⟩ := by
  have he : IsElement crates code.code.fields e :=
    ⟨fc, hfc, hwritable, List.mem_of_getElem? hat.1⟩
  have hinv := (renderRegisterMod_ok hrender).1
  have hagrees := h.agrees hinv hunion hwidths hapart hfollows (fun _ _ => rfl) e he
  obtain ⟨fty, useCast, useMask, hcode⟩ := hinv.codes fc (List.mem_of_getElem? hfc)
  have hread := read_cell hrender hsize hfc hat hown hreader hcode.fty_ok hpath
  rw [← @Element.kind_eq register.info.modifiedWriteValues code.code.fields e fc hfc] at hkind
  rw [foldl_modify_plain hkind hmodifies _ (get_masked _ _), hlast, Option.getD_some] at hagrees
  refine ⟨fty, hcode.fty_ok, ?_⟩
  rw [hread, hagrees]
  rfl

/-- **Read-modify-writes.**  After a run of them every reader of a plain field returns the
last value that a closure left in the field, and a field that no closure named reads as it did
before, unless it is of the kinds that every write changes.  The run amounts to a run of the
store of fields, where a plain field takes what was left in it and keeps it, and the readers
extract the run of the element. -/
theorem modifyRun_reads :
    (fc.field.info.effectiveMwv register.info.modifiedWriteValues = .modify →
      ∀ value, lastLeft (Element.cell code.code.fields) e
          (runChanges env code.code.fields events) = some value →
        ∃ fty, toTy fc.width = .ok fty ∧
          path.1.read code.rty b' path.2 = .ok ⟨fty, value.toNat⟩) ∧
    (fc.field.info.effectiveMwv register.info.modifiedWriteValues ≠ .clear →
      fc.field.info.effectiveMwv register.info.modifiedWriteValues ≠ .set →
      lastLeft (Element.cell code.code.fields) e
          (runChanges env code.code.fields events) = none →
        path.1.read code.rty b' path.2 = path.1.read code.rty b path.2) := by
  refine ⟨fun hkind value hlast => read_of_lastLeft hunion hrender hsize hwidths hapart hfollows
    hmodifies h hfc hwritable hat hown hreader hpath hkind hlast, fun hclear hset hnone => ?_⟩
  have he : IsElement crates code.code.fields e :=
    ⟨fc, hfc, hwritable, List.mem_of_getElem? hat.1⟩
  have hinv := (renderRegisterMod_ok hrender).1
  have hagrees := h.agrees hinv hunion hwidths hapart hfollows (fun _ _ => rfl) e he
  obtain ⟨fty, useCast, useMask, hcode⟩ := hinv.codes fc (List.mem_of_getElem? hfc)
  have hread := read_cell hrender hsize hfc hat hown hreader hcode.fty_ok hpath
  rw [← @Element.kind_eq register.info.modifiedWriteValues code.code.fields e fc hfc] at hclear hset
  rw [foldl_modify_unnamed hclear hset hmodifies hnone _ (get_masked _ _)] at hagrees
  rw [hread, hread]
  exact congrArg (fun cell : BitVec code.rty.bits => Except.ok (ReadValue.mk fty cell.toNat))
    hagrees.symm

end Runs

end Reads

/-- The plain field of the register with the line. -/
def modeCode : FieldCode :=
  (lineCode.code.fields[0]?).getD ⟨.single (bitField "" 0 0), none, none⟩

def modeReader : ReaderCode := modeCode.reader.getD ⟨"", .bitReader "", "", none, none, []⟩

/-- After the three operations MODE reads as 5 through every accessor. -/
theorem modifyRun_reads_mode : ∃ path, readPaths modeCode.field modeReader.accessors 0 = [path] ∧
    path.1.read lineCode.rty 0x85 path.2 = .ok ⟨.u8, 5⟩ := by
  have hmodifies : OnlyModifies lineEvents := by
    intro ev hev
    simp only [lineEvents, List.mem_cons, List.not_mem_nil, or_false] at hev
    rcases hev with rfl | rfl | rfl
    · exact ⟨_, rfl⟩
    · exact ⟨_, rfl⟩
    · exact ⟨_, rfl⟩
  have hat : modeCode.ElementAt asciiCrates lineCode.rty 0 0 := ⟨rfl, by decide +kernel⟩
  have hown : ReadsOwnRun 8 modeCode := fun hone => absurd hone.1 (by decide)
  have hfield : lineCode.code.fields[(⟨0, 0⟩ : Element).field]? = some modeCode := rfl
  refine ⟨_, rfl, ?_⟩
  obtain ⟨fty, hfty, hread⟩ := (modifyRun_reads bitmaskIsUnion_asciiCrates lineCode_eq rfl
    lineCode_ownWidths lineCode_apart.apart kindsHardware_followsKinds hmodifies lineRun hfield rfl hat
    hown rfl List.mem_cons_self).1 rfl 5 rfl
  obtain rfl : RustTy.u8 = fty := Except.ok.inj hfty
  exact hread

/-! ## The methods of bit fields -/

/-- What the comment of a method says it does to the bit. -/
def BitMethod.effect (old : Bool) : BitMethod → Bool
  | .setBit => true
  | .clearBit => false
  | .clearBitByOne => false
  | .setBitByZero => true
  | .toggleBit => !old

/-- The value a method leaves has the effect of the method on a field of that kind. -/
theorem ModifiedWriteValues.reactBit_method {mwv : ModifiedWriteValues} (hclear : mwv ≠ .clear)
    (hset : mwv ≠ .set) {method : BitMethod} {leaves : Bool}
    (h : BitWriter.method (bitMarkerOf mwv) method = some leaves) (old : Bool) :
    mwv.reactBit old leaves = method.effect old := by
  cases mwv <;> cases method <;>
    simp_all [bitMarkerOf, BitWriter.method, ModifiedWriteValues.reactBit, BitMethod.effect]

/-- A method of a writer that is not re-exported: the field is a single bit, and the value
the method leaves is that of the kind of the field. -/
theorem FieldCall.change_method {crates : Crates} {config : Config} {access : Access}
    {properties : RegisterProperties} {rmwv : Option ModifiedWriteValues} {code : FieldsCode}
    {env : ProxyEnv} {n : Nat} (hinv : FieldsInv crates config access properties rmwv code)
    {c : FieldCall} {method : BitMethod} (hmethod : c.call = .method method) {fc : FieldCode}
    (hfc : code.fields[c.field]? = some fc) {writer : WriterCode} (hwriter : writer ∈ fc.writer)
    (hown : ∀ base, writer.proxy ≠ .reexport base) {o : Nat} {value : BitVec n}
    (h : c.change env code.fields n = some (.cell ⟨c.field, o⟩ value)) :
    fc.width = 1 ∧ ∃ leaves,
      BitWriter.method (bitMarkerOf (fc.field.info.effectiveMwv rmwv)) method = some leaves ∧
        value = BitVec.ofNat n leaves.toNat := by
  obtain ⟨fty, useCast, useMask, hcode⟩ := hinv.codes fc (List.mem_of_getElem? hfc)
  have hmwv : writer.modifiedWriteValues = fc.field.info.effectiveMwv rmwv :=
    hcode.writer_mwv writer hwriter
  have hproxy : ∃ valueTy safety, writer.proxy =
      .own (writerProxy fc.width (fc.field.info.effectiveMwv rmwv) valueTy safety) := by
    rcases hcode.writer_proxy writer hwriter with hproxy | ⟨base, hproxy⟩
    · rw [← hmwv]
      exact hproxy
    · exact absurd hproxy (hown base)
  obtain ⟨valueTy, safety, hproxy⟩ := hproxy
  obtain ⟨fc', writer', accessor, o', leaves, hfc', hwriter', -, -, hleaves, hchange⟩ :=
    FieldCall.change_eq_some.mp h
  obtain rfl := Option.some.inj (hfc.symm.trans hfc')
  obtain rfl : writer = writer' := Option.some.inj (Option.mem_def.mp hwriter ▸ hwriter')
  obtain ⟨-, rfl⟩ := Change.cell.inj hchange
  rw [hproxy, hmethod, ProxyEnv.resolve, writerProxy] at hleaves
  by_cases hwidth : fc.width = 1
  · rw [if_pos hwidth] at hleaves
    obtain ⟨bit, hbit, rfl⟩ := Option.map_eq_some_iff.mp hleaves
    exact ⟨hwidth, bit, hbit, rfl⟩
  · -- the writer of a wider field has no methods
    rw [if_neg hwidth] at hleaves
    split at hleaves <;> cases hleaves

section Methods

variable {crates : Crates} {config : Config} {register : Register} {access : Access}
  {rpath : RegisterPath} {index : Index} {code : RegisterCode} {env : ProxyEnv}

/-- **Methods of bit fields.**  `set_bit`, `clear_bit`, `toggle_bit` and their relatives do to
the bit what they say, in whatever operation they are called and whatever else the closure
does: after the operation the bit is set, clear or the other one.  Each kind has a method for
the effect a one or a zero has on it, and the bit that the method leaves is the one that has
this effect on the old bit. -/
theorem bitMethod_effect (hunion : BitmaskIsUnion crates)
    (hrender : renderRegisterMod crates config register access rpath index = .ok code)
    (hwidths : OwnWidths code.code.fields env)
    (hapart : Apart code.rty.bits (Element.cell code.code.fields)
      (IsElement crates code.code.fields))
    {hw : Hardware code.rty.bits}
    (hfollows : FollowsKinds crates register.info.modifiedWriteValues code.code.fields hw)
    {b b' : BitVec code.rty.bits} {ev : RegEvent code.rty.bits}
    (h : RegStep env code.code.fields (code.spec code.rty.bits) hw b ev b')
    {c : FieldCall} {method : BitMethod} (hmethod : c.call = .method method)
    {before after : List (ClosureCall code.rty.bits)}
    (hcalls : ev.calls = before ++ .field c :: after) {o : Nat} {value : BitVec code.rty.bits}
    (hchange : c.change env code.code.fields code.rty.bits = some (.cell ⟨c.field, o⟩ value))
    (hafter : lastLeft (Element.cell code.code.fields) ⟨c.field, o⟩
      (closureChanges env code.code.fields after) = none)
    {fc : FieldCode} (hfc : code.code.fields[c.field]? = some fc) {writer : WriterCode}
    (hwriter : writer ∈ fc.writer) (hown : ∀ base, writer.proxy ≠ .reexport base)
    (hclear : fc.field.info.effectiveMwv register.info.modifiedWriteValues ≠ .clear)
    (hset : fc.field.info.effectiveMwv register.info.modifiedWriteValues ≠ .set) :
    b'.getLsbD o = method.effect (b.getLsbD o) := by
  have hinv := (renderRegisterMod_ok hrender).1
  obtain ⟨hwidth, leaves, hleaves, rfl⟩ :=
    FieldCall.change_method hinv hmethod hfc hwriter hown hchange
  have hsplit : closureChanges env code.code.fields ev.calls =
      closureChanges env code.code.fields before ++
        .cell ⟨c.field, o⟩ (BitVec.ofNat _ leaves.toNat) ::
          closureChanges env code.code.fields after := by
    rw [hcalls, closureChanges, List.filterMap_append, List.filterMap_cons, ClosureCall.change,
      hchange]
    rfl
  have he : IsElement crates code.code.fields ⟨c.field, o⟩ := by
    obtain ⟨v, hv, -⟩ := h.stored
    refine (runClosure_changes hinv hwidths hv).1
      (.cell ⟨c.field, o⟩ (BitVec.ofNat _ leaves.toNat)) ?_
    rw [hsplit]
    exact List.mem_append_right _ List.mem_cons_self
  have hcell : Element.cell code.code.fields ⟨c.field, o⟩ = ⟨o, 1⟩ := by
    rw [Element.cell_eq hfc, hwidth]
  -- the call is the last one that names the bit
  have hlast : lastLeft (Element.cell code.code.fields) ⟨c.field, o⟩
      (closureChanges env code.code.fields ev.calls) =
        some (BitVec.ofNat _ leaves.toNat &&& lowMask _ 1) := by
    rw [hsplit, ← List.singleton_append, lastLeft_append, lastLeft_append, hafter, Option.none_or]
    simp [lastLeft, Change.leaves, hcell]
  have hagrees := h.agrees hinv hunion hwidths hapart hfollows (fun _ _ => rfl) _ he
  have hfits := hapart.fits _ he
  have hkind : Element.kind register.info.modifiedWriteValues code.code.fields ⟨c.field, o⟩ =
      fc.field.info.effectiveMwv register.info.modifiedWriteValues := Element.kind_eq hfc
  rw [FieldStore.apply, hlast, hkind] at hagrees
  simp only [FieldStore.of, hcell, Cell.get] at hagrees hfits
  have hbit := congrArg (fun cell : BitVec code.rty.bits => cell.getLsbD 0) hagrees
  have hpos : 0 < code.rty.bits := by omega
  simp only [BitVec.getLsbD_and] at hbit
  rw [ModifiedWriteValues.react_bitwise _ _ _ 0 hpos, BitVec.getLsbD_and,
    getLsbD_lowMask hpos, getLsbD_extract hpos, getLsbD_extract hpos] at hbit
  have hleft : (BitVec.ofNat code.rty.bits leaves.toNat).getLsbD 0 = leaves := by
    cases leaves <;> simp [hpos]
  rw [hleft] at hbit
  simpa [← ModifiedWriteValues.reactBit_method hclear hset hleaves] using hbit.symm

end Methods

/-- The flag that a one clears is clear after `clear_bit_by_one`. -/
theorem bitMethod_effect_flag : (0x45 : BitVec lineCode.rty.bits).getLsbD 6 = true ∧
    (0x05 : BitVec lineCode.rty.bits).getLsbD 6 = false := by
  have hfield : lineCode.code.fields[1]? = some ((lineCode.code.fields[1]?).getD modeCode) := rfl
  have hcalls : (RegEvent.modify [ClosureCall.field ⟨1, 0, 0, .method .clearBitByOne⟩] :
      RegEvent lineCode.rty.bits).calls = [] ++ .field ⟨1, 0, 0, .method .clearBitByOne⟩ :: [] := rfl
  refine ⟨rfl, ?_⟩
  exact bitMethod_effect bitmaskIsUnion_asciiCrates lineCode_eq lineCode_ownWidths
    lineCode_apart.apart kindsHardware_followsKinds clearStep rfl hcalls rfl rfl hfield rfl (fun _ => nofun)
    (by decide +kernel) (by decide +kernel)

end Svd2Rust
