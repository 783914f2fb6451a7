import Svd2Rust.AtomicOperations
import Svd2Rust.RegisterRuns

/-!
# A register that threads and hardware share

`modify` reads the register, and writes it back later.  In between an interrupt handler or
another thread may use the register, and the hardware may raise a flag.  The atomic
operations read and write in one instruction.

`sharedRun_refines` gives every interleaving a meaning in terms of the fields: a write-back
brings a plain field that it does not name to what the thread has read of it.
`sharedRun_serializes_iff` says when it is the meaning of a run in which every `modify` is
one step.  A field where one of the two bits does nothing needs no care: its bits in what is
written back do not come from what was read.
-/

namespace Svd2Rust

open BitFields StepRuns WordCells

/-! ## Steps -/

/-- The register, and what each thread has read of it for a `modify` that it is in. -/
structure SharedState (ι : Type) (n : Nat) where
  reg : BitVec n
  loaded : ι → Option (BitVec n)

/-- What happens to the register.  `single` stands for operations nothing comes in between
of: those that only write, and a `modify` in a critical section. -/
inductive SharedEvent (ι : Type) (n : Nat) where
  | device (update : Element → BitVec n → BitVec n)
  | load (i : ι)
  | store (i : ι) (calls : List (ClosureCall n))
  | single (ev : RegEvent n)
  | atomic (method : AtomicMethod) (calls : List (ClosureCall n))

section Machine

variable {n : Nat}

/-- The rest of a `modify` that has read `r`, in a register that holds `b` by now. -/
inductive WriteBack (env : ProxyEnv) (codes : List FieldCode) (spec : RegisterSpec n)
    (hw : Hardware n) (r b : BitVec n) (calls : List (ClosureCall n)) (b' : BitVec n) : Prop
  | modify {f : BitVec n → BitVec n → Gen (BitVec n)} {effect : Effect n (BitVec n)}
      (hcalls : f r (startWord spec r) = runClosure env codes (startWord spec r) calls)
      (h : Reg.modify spec r f = .ok effect) (hstored : Stored hw b effect.stores b')
  | fromModify {T : Type} {f : BitVec n → BitVec n → Gen (BitVec n × T)} {effect : Effect n T}
      (hcalls : Prod.fst <$> f r (startWord spec r) =
        runClosure env codes (startWord spec r) calls)
      (h : Reg.fromModify spec r f = .ok effect) (hstored : Stored hw b effect.stores b')

variable (crates : Crates) {ι : Type} [DecidableEq ι] (env : ProxyEnv) (codes : List FieldCode)
  (spec : RegisterSpec n) (hw : Hardware n)

/-- One event. -/
inductive SharedStep : SharedState ι n → SharedEvent ι n → SharedState ι n → Prop
  | device {s : SharedState ι n} {update : Element → BitVec n → BitVec n} {b' : BitVec n}
      (h : ∀ e, IsElement crates codes e →
        (e.cell codes).get b' = update e ((e.cell codes).get s.reg)) :
      SharedStep s (.device update) ⟨b', s.loaded⟩
  | load {s : SharedState ι n} {i : ι} :
      SharedStep s (.load i) ⟨s.reg, Function.update s.loaded i (some s.reg)⟩
  | store {s : SharedState ι n} {i : ι} {r b' : BitVec n} {calls : List (ClosureCall n)}
      (hloaded : s.loaded i = some r) (h : WriteBack env codes spec hw r s.reg calls b') :
      SharedStep s (.store i calls) ⟨b', Function.update s.loaded i none⟩
  | single {s : SharedState ι n} {ev : RegEvent n} {b' : BitVec n}
      (h : RegStep env codes spec hw s.reg ev b') : SharedStep s (.single ev) ⟨b', s.loaded⟩
  | atomic {s : SharedState ι n} {c : AtomicCall n} {calls : List (ClosureCall n)}
      {v b' : BitVec n}
      (hcalls : c.closure c.method.start = runClosure env codes c.method.start calls)
      (h : c.run s.reg = .ok v) (hreacts : hw s.reg v b') :
      SharedStep s (.atomic c.method calls) ⟨b', s.loaded⟩

/-- Events one after the other. -/
abbrev SharedRun : SharedState ι n → List (SharedEvent ι n) → SharedState ι n → Prop :=
  Run (SharedStep crates env codes spec hw)

/-- No thread is in a `modify`. -/
def SharedState.idle (b : BitVec n) : SharedState ι n := ⟨b, fun _ => none⟩

end Machine

/-! ## The fields -/

/-- The store, and the store as each thread has read it. -/
structure SharedStore (ι : Type) (n : Nat) where
  now : FieldStore n
  seen : ι → FieldStore n

section Store

variable {n : Nat} {ι : Type} [DecidableEq ι] (env : ProxyEnv) (rmwv : Option ModifiedWriteValues)
  (codes : List FieldCode) (spec : RegisterSpec n)

/-- The write-back of a `modify`: the elements the closure names react to what it left in
them; of the others the plain ones are again what the thread has seen. -/
def FieldStore.writeBack (σ seen : FieldStore n) (calls : List (ClosureCall n)) : FieldStore n :=
  fun e =>
    (match lastLeft (Element.cell codes) e (closureChanges env codes calls) with
      | some value => (e.kind rmwv codes).react (σ e) value
      | none => (e.kind rmwv codes).idle (σ e) (seen e)) &&& lowMask n (e.cell codes).width

/-- An atomic operation: every element reacts to what it holds itself, with the bits of the
closure. -/
def FieldStore.atomic (σ : FieldStore n) (method : AtomicMethod) (calls : List (ClosureCall n)) :
    FieldStore n := fun e =>
  (e.kind rmwv codes).react (σ e)
    (method.apply ((lastLeft (Element.cell codes) e (closureChanges env codes calls)).getD
      ((e.cell codes).get method.start)) (σ e)) &&& lowMask n (e.cell codes).width

/-- An event on the store. -/
def SharedStore.apply (s : SharedStore ι n) : SharedEvent ι n → SharedStore ι n
  | .device update => { s with now := fun e => update e (s.now e) }
  | .load i => { s with seen := Function.update s.seen i s.now }
  | .store i calls => { s with now := s.now.writeBack env rmwv codes (s.seen i) calls }
  | .single ev => { s with now := s.now.apply env rmwv codes spec ev }
  | .atomic method calls => { s with now := s.now.atomic env rmwv codes method calls }

/-- The same where a `modify` is one step, when it writes. -/
def FieldStore.serial (σ : FieldStore n) : SharedEvent ι n → FieldStore n
  | .device update => fun e => update e (σ e)
  | .load _ => σ
  | .store _ calls => σ.apply env rmwv codes spec (.modify calls)
  | .single ev => σ.apply env rmwv codes spec ev
  | .atomic method calls => σ.atomic env rmwv codes method calls

end Store

/-! ## Refinement -/

/-- What an atomic operation does to a bit. -/
def AtomicMethod.applyBit (bit old : Bool) : AtomicMethod → Bool
  | .setBits => old || bit
  | .clearBits => old && bit
  | .toggleBits => old ^^ bit

theorem AtomicMethod.apply_bitwise {n : Nat} (method : AtomicMethod) :
    Bitwise (fun bit old => method.applyBit bit old) fun (bits reg : BitVec n) =>
      method.apply bits reg := by
  intro bits reg i _
  cases method <;> simp [AtomicMethod.apply, AtomicMethod.applyBit]

section Refinement

variable {crates : Crates} {config : Config} {access : Access} {properties : RegisterProperties}
  {rmwv : Option ModifiedWriteValues} {code : RegisterCode} {env : ProxyEnv} {n : Nat} {ι : Type}
  [DecidableEq ι] {hw : Hardware n}

/-- A write-back stores once what the calls make of the word that was read. -/
theorem WriteBack.stored {codes : List FieldCode} {spec : RegisterSpec n} {r b b' : BitVec n}
    {calls : List (ClosureCall n)} (h : WriteBack env codes spec hw r b calls b') :
    ∃ v, runClosure env codes (startWord spec r) calls = .ok v ∧ hw b v b' := by
  cases h with
  | modify hcalls h hstored =>
      obtain ⟨v, hv, h⟩ := gen_bind_ok.mp h
      obtain rfl := gen_pure_ok.mp h
      exact ⟨v, hcalls.symm.trans hv, hstored.of_register⟩
  | fromModify hcalls h hstored =>
      obtain ⟨⟨v, result⟩, hv, h⟩ := gen_bind_ok.mp h
      obtain rfl := gen_pure_ok.mp h
      exact ⟨v, hcalls.symm.trans (gen_map_ok.mpr ⟨_, hv, rfl⟩), hstored.of_register⟩

/-- The store and the register hold the same, now and when a thread has read it. -/
structure SharedAgrees (crates : Crates) (codes : List FieldCode) (s : SharedState ι n)
    (store : SharedStore ι n) : Prop where
  now : ∀ e, IsElement crates codes e → store.now e = FieldStore.of codes s.reg e
  seen : ∀ i, ∀ r ∈ s.loaded i, ∀ e, IsElement crates codes e →
    store.seen i e = FieldStore.of codes r e

variable (hinv : FieldsInv crates config access properties rmwv code.code)
  (hunion : BitmaskIsUnion crates) (hwidths : OwnWidths code.code.fields env)
  (hapart : Apart n (Element.cell code.code.fields) (IsElement crates code.code.fields))
  (hfollows : FollowsKinds crates rmwv code.code.fields hw)

include hinv hwidths hapart hfollows

/-- **Atomic operation.**  The closure starts from the neutral word of the method, and the
method applies what it leaves to the word the register holds by then. -/
theorem atomic_agrees {c : AtomicCall n} {calls : List (ClosureCall n)} {b v b' : BitVec n}
    (hcalls : c.closure c.method.start = runClosure env code.code.fields c.method.start calls)
    (h : c.run b = .ok v) (hreacts : hw b v b') {σ : FieldStore n} {e : Element}
    (he : IsElement crates code.code.fields e) (hσ : σ e = FieldStore.of code.code.fields b e) :
    σ.atomic env rmwv code.code.fields c.method calls e =
      FieldStore.of code.code.fields b' e := by
  obtain ⟨bits, hbits, h⟩ := gen_bind_ok.mp h
  obtain rfl := gen_pure_ok.mp h
  have hlast := get_runClosure hinv hwidths hapart he (hcalls.symm.trans hbits)
  have hfits := hapart.fits e he
  rw [FieldStore.atomic, hσ, FieldStore.of, FieldStore.of, hfollows.get_reacts hapart he hreacts,
    get_bitwise c.method.apply_bitwise hfits, hlast]
  exact ((e.kind rmwv code.code.fields).react_bitwise.and_lowMask_right (by omega) _ _).symm

include hunion

/-- **Write-back.**  The word stored is made from the one that was loaded; the hardware acts
on the one that is there now. -/
theorem WriteBack.agrees {r b b' : BitVec n} {calls : List (ClosureCall n)}
    (h : WriteBack env code.code.fields (code.spec n) hw r b calls b') {σ seen : FieldStore n}
    {e : Element} (he : IsElement crates code.code.fields e)
    (hσ : σ e = FieldStore.of code.code.fields b e)
    (hseen : seen e = FieldStore.of code.code.fields r e) :
    σ.writeBack env rmwv code.code.fields seen calls e =
      FieldStore.of code.code.fields b' e := by
  obtain ⟨v, hv, hreacts⟩ := h.stored
  have hlast := get_runClosure hinv hwidths hapart he hv
  rw [FieldStore.writeBack, hσ, hseen, FieldStore.of, FieldStore.of, FieldStore.of]
  cases hleft : lastLeft (Element.cell code.code.fields) e
      (closureChanges env code.code.fields calls) with
  | some value =>
      rw [hleft, Option.getD_some] at hlast
      rw [hfollows.get_reacts hapart he hreacts, hlast]
  | none =>
      rw [hleft, Option.getD_none] at hlast
      exact (get_reacts_startWord hinv hunion hapart hfollows he hreacts hlast).symm

/-- **One event.**  A load changes only what its thread has seen, a store only what the fields
hold now. -/
theorem SharedStep.agrees {s s' : SharedState ι n} {ev : SharedEvent ι n}
    (h : SharedStep crates env code.code.fields (code.spec n) hw s ev s')
    {store : SharedStore ι n} (hstore : SharedAgrees crates code.code.fields s store) :
    SharedAgrees crates code.code.fields s'
      (store.apply env rmwv code.code.fields (code.spec n) ev) := by
  cases h with
  | device h =>
      refine ⟨fun e he => ?_, hstore.seen⟩
      simp only [SharedStore.apply, hstore.now e he]
      exact (h e he).symm
  | @load i =>
      refine ⟨hstore.now, fun j r hr e he => ?_⟩
      by_cases hij : j = i
      · subst hij
        simp only [Function.update_self, Option.mem_def, Option.some.injEq] at hr
        simp only [SharedStore.apply, Function.update_self, ← hr]
        exact hstore.now e he
      · simp only [Function.update_of_ne hij] at hr
        simp only [SharedStore.apply, Function.update_of_ne hij]
        exact hstore.seen j r hr e he
  | @store i r b' calls hloaded h =>
      refine ⟨fun e he => h.agrees hinv hunion hwidths hapart hfollows he (hstore.now e he)
        (hstore.seen i r hloaded e he), fun j r' hr' => ?_⟩
      by_cases hij : j = i
      · subst hij
        simp only [Function.update_self, Option.mem_def, reduceCtorEq] at hr'
      · simp only [Function.update_of_ne hij] at hr'
        exact hstore.seen j r' hr'
  | single h => exact ⟨h.agrees hinv hunion hwidths hapart hfollows hstore.now, hstore.seen⟩
  | atomic hcalls h hreacts =>
      exact ⟨fun e he => atomic_agrees hinv hwidths hapart hfollows hcalls h hreacts he
        (hstore.now e he), hstore.seen⟩

/-- **All events.**  By induction on the events, with the agreement on what every thread has
seen as part of the invariant. -/
theorem SharedRun.agrees {s s' : SharedState ι n} {events : List (SharedEvent ι n)}
    (h : SharedRun crates env code.code.fields (code.spec n) hw s events s')
    {store : SharedStore ι n} (hstore : SharedAgrees crates code.code.fields s store) :
    SharedAgrees crates code.code.fields s'
      (events.foldl (SharedStore.apply env rmwv code.code.fields (code.spec n)) store) :=
  h.simulates (R := SharedAgrees crates code.code.fields)
    (fun hstep hagrees => hstep.agrees hinv hunion hwidths hapart hfollows hagrees) hstore

omit hunion

end Refinement

/-! ## Lost updates -/

section Serial

variable {n : Nat} {ι : Type} [DecidableEq ι] {env : ProxyEnv} {rmwv : Option ModifiedWriteValues}
  {codes : List FieldCode} {spec : RegisterSpec n}

/-- Only for a plain field it matters what was read. -/
theorem idle_congr {kind : ModifiedWriteValues} {old fresh fresh' : BitVec n}
    (h : kind = .modify → fresh = fresh') : kind.idle old fresh = kind.idle old fresh' := by
  cases kind with
  | modify => exact h rfl
  | _ => rfl

/-- An event does the same in both when a write-back finds a plain element as it was read. -/
theorem now_apply_eq_serial {store : SharedStore ι n} {σ : FieldStore n} {e : Element}
    (hσ : store.now e = σ e) {ev : SharedEvent ι n}
    (hseen : e.kind rmwv codes = .modify → ∀ i calls, ev = .store i calls →
      lastLeft (Element.cell codes) e (closureChanges env codes calls) = none →
        store.seen i e = σ e) :
    (store.apply env rmwv codes spec ev).now e = σ.serial env rmwv codes spec ev e := by
  cases ev with
  | device update => simp only [SharedStore.apply, FieldStore.serial, hσ]
  | load i => exact hσ
  | store i calls =>
      simp only [SharedStore.apply, FieldStore.serial, FieldStore.writeBack, FieldStore.apply,
        RegEvent.calls, RegEvent.unnamed, hσ]
      cases hleft : lastLeft (Element.cell codes) e (closureChanges env codes calls) with
      | some value => rfl
      | none => rw [idle_congr fun hkind => hseen hkind i calls rfl hleft]
  | single ev => simp only [SharedStore.apply, FieldStore.serial, FieldStore.apply, hσ]
  | atomic method calls => simp only [SharedStore.apply, FieldStore.serial, FieldStore.atomic, hσ]

end Serial

section Rendered

variable {crates : Crates} {config : Config} {register : Register} {access : Access}
  {rpath : RegisterPath} {index : Index} {code : RegisterCode} {env : ProxyEnv} {ι : Type}
  [DecidableEq ι]

/-- **Interleavings.**  However the threads, the hardware and the atomic operations take
turns, a rendered register and the store of its fields go through it alike.  A `modify` is two
steps, and its store starts from the word its thread has loaded: so the abstract store keeps
what each thread has seen beside what the fields hold now. -/
theorem sharedRun_refines (hunion : BitmaskIsUnion crates)
    (hrender : renderRegisterMod crates config register access rpath index = .ok code)
    (hwidths : OwnWidths code.code.fields env)
    (hapart : Apart code.rty.bits (Element.cell code.code.fields)
      (IsElement crates code.code.fields))
    {hw : Hardware code.rty.bits}
    (hfollows : FollowsKinds crates register.info.modifiedWriteValues code.code.fields hw)
    {b : BitVec code.rty.bits} {s : SharedState ι code.rty.bits}
    {events : List (SharedEvent ι code.rty.bits)}
    (h : SharedRun crates env code.code.fields (code.spec code.rty.bits) hw (.idle b) events s)
    {e : Element} (he : IsElement crates code.code.fields e) :
    FieldStore.of code.code.fields s.reg e =
      (events.foldl (SharedStore.apply env register.info.modifiedWriteValues code.code.fields
        (code.spec code.rty.bits))
        ⟨FieldStore.of code.code.fields b, fun _ => FieldStore.of code.code.fields b⟩).now e := by
  have hstart : SharedAgrees crates code.code.fields (.idle b : SharedState ι code.rty.bits)
      ⟨FieldStore.of code.code.fields b, fun _ => FieldStore.of code.code.fields b⟩ :=
    ⟨fun _ _ => rfl, fun _ _ hr => by cases hr⟩
  exact ((h.agrees (renderRegisterMod_ok hrender).1 hunion hwidths hapart hfollows hstart).now e
    he).symm

section Serial

variable (crates : Crates) (env : ProxyEnv) (rmwv : Option ModifiedWriteValues)
  (codes : List FieldCode) {n : Nat} (spec : RegisterSpec n) (hw : Hardware n)
  (start : SharedState ι n) (events : List (SharedEvent ι n)) (e : Element)

/-- Up to every point of the run the element holds what it would if every `modify` were one
step. -/
def Serializes : Prop :=
  ∀ before after, events = before ++ after → ∀ s,
    SharedRun crates env codes spec hw start before s →
      FieldStore.of codes s.reg e = before.foldl (FieldStore.serial env rmwv codes spec)
        (FieldStore.of codes start.reg) e

/-- When a thread writes back and does not name the element, it is as the thread has read it. -/
def Undisturbed : Prop :=
  ∀ before i calls after, events = before ++ .store i calls :: after →
    lastLeft (Element.cell codes) e (closureChanges env codes calls) = none → ∀ s r,
      SharedRun crates env codes spec hw start before s → s.loaded i = some r →
        FieldStore.of codes r e = FieldStore.of codes s.reg e

end Serial

/-- **Lost updates.**  A field that is not plain goes through every interleaving as if each
`modify` were one step; a plain one does exactly if no write-back that leaves it alone comes
after a change of it that the thread has not seen.  A write-back puts a plain field that it
does not name back to the value its thread has loaded, which differs from one step only if the
field has changed since. -/
theorem sharedRun_serializes_iff (hunion : BitmaskIsUnion crates)
    (hrender : renderRegisterMod crates config register access rpath index = .ok code)
    (hwidths : OwnWidths code.code.fields env)
    (hapart : Apart code.rty.bits (Element.cell code.code.fields)
      (IsElement crates code.code.fields))
    {hw : Hardware code.rty.bits}
    (hfollows : FollowsKinds crates register.info.modifiedWriteValues code.code.fields hw)
    {b : BitVec code.rty.bits} {s : SharedState ι code.rty.bits}
    {events : List (SharedEvent ι code.rty.bits)}
    (h : SharedRun crates env code.code.fields (code.spec code.rty.bits) hw (.idle b) events s)
    {e : Element} (he : IsElement crates code.code.fields e) :
    Serializes crates env register.info.modifiedWriteValues code.code.fields
        (code.spec code.rty.bits) hw (.idle b) events e ↔
      (e.kind register.info.modifiedWriteValues code.code.fields = .modify →
        Undisturbed crates env code.code.fields (code.spec code.rty.bits) hw (.idle b) events e) := by
  have hinv := (renderRegisterMod_ok hrender).1
  have hstart : SharedAgrees crates code.code.fields (.idle b : SharedState ι code.rty.bits)
      ⟨FieldStore.of code.code.fields b, fun _ => FieldStore.of code.code.fields b⟩ :=
    ⟨fun _ _ => rfl, fun _ _ hr => by cases hr⟩
  constructor
  · intro hserial hkind before i calls after hevents hnone mid r hmid hloaded
    -- some run up to the write-back goes on with it
    rw [hevents] at h
    obtain ⟨mid', hmid', hrest⟩ := Run.append_iff.mp h
    cases hrest with
    | @cons _ next _ _ _ hstep _ =>
        have hagrees := SharedRun.agrees hinv hunion hwidths hapart hfollows hmid hstart
        have hagrees' := SharedRun.agrees hinv hunion hwidths hapart hfollows hmid' hstart
        have hbefore := hserial before _ hevents mid' hmid'
        have hnext := hserial (before ++ [.store i calls]) after (by rw [hevents]; simp) next
          (Run.append_iff.mpr ⟨mid', hmid', Run.singleton_iff.mpr hstep⟩)
        rw [List.foldl_append, List.foldl_cons, List.foldl_nil,
          ← (hstep.agrees hinv hunion hwidths hapart hfollows hagrees').now e he] at hnext
        simp only [SharedStore.apply, FieldStore.serial, FieldStore.writeBack, FieldStore.apply,
          RegEvent.calls, RegEvent.unnamed, hnone, hkind, ModifiedWriteValues.idle, ← hbefore] at hnext
        have hseen := get_masked (e.cell code.code.fields) r
        have hnow := get_masked (e.cell code.code.fields) mid.reg
        rw [← FieldStore.of, ← hagrees.seen i r hloaded e he] at hseen
        rw [← FieldStore.of, ← hagrees.now e he] at hnow
        rw [← hagrees'.now e he] at hnext
        rw [← hagrees.seen i r hloaded e he, ← hagrees.now e he, ← hseen, ← hnow]
        exact hnext
  · intro hundisturbed before
    induction before using List.reverseRecOn with
    | nil =>
        intro after _ mid hmid
        cases hmid
        rfl
    | append_singleton before ev ih =>
        intro after hevents mid hmid
        obtain ⟨mid', hmid', hstep⟩ := Run.append_iff.mp hmid
        rw [List.append_assoc] at hevents
        have hbefore := ih _ hevents mid' hmid'
        have hagrees := SharedRun.agrees hinv hunion hwidths hapart hfollows hmid' hstart
        have hstep := Run.singleton_iff.mp hstep
        rw [List.foldl_append, List.foldl_cons, List.foldl_nil]
        have hnow := (hstep.agrees hinv hunion hwidths hapart hfollows hagrees).now e he
        rw [← hnow]
        refine now_apply_eq_serial ((hagrees.now e he).trans hbefore) fun hkind i calls hev hnone => ?_
        subst hev
        cases hstep with
        | @store _ r b' _ hloaded _ =>
            rw [hagrees.seen i r hloaded e he,
              hundisturbed hkind before i calls after hevents hnone mid' r hmid' hloaded, hbefore]

end Rendered

/-! ## What atomic operations leave alone -/

section Atomics

variable {crates : Crates} {config : Config} {register : Register} {access : Access}
  {rpath : RegisterPath} {index : Index} {code : RegisterCode} {env : ProxyEnv} {ι : Type}
  [DecidableEq ι]

end Atomics

/-! ## A flag that is raised during a `modify` -/

/-- The hardware raises FLAG. -/
def raiseFlag (e : Element) (old : BitVec lineCode.rty.bits) : BitVec lineCode.rty.bits :=
  if e = ⟨1, 6⟩ then 1 else old

/-- It does so while one thread is about to write MODE back. -/
def flagEvents : List (SharedEvent Bool lineCode.rty.bits) :=
  [.load true, .device raiseFlag, .store true [.field ⟨0, 0, 0, .bits 5⟩]]

theorem flagRun : ∃ loaded, SharedRun asciiCrates modeEnv lineCode.code.fields
    (lineCode.spec lineCode.rty.bits) lineHardware (.idle 0x08) flagEvents ⟨0x45, loaded⟩ := by
  have hraised : ∀ e, IsElement asciiCrates lineCode.code.fields e →
      (e.cell lineCode.code.fields).get (0x48 : BitVec lineCode.rty.bits) =
        raiseFlag e ((e.cell lineCode.code.fields).get 0x08) := by
    have hall : ∀ e ∈ elementsOf asciiCrates lineCode.code.fields,
        (e.cell lineCode.code.fields).get (0x48 : BitVec lineCode.rty.bits) =
          raiseFlag e ((e.cell lineCode.code.fields).get 0x08) := by decide +kernel
    exact fun e he => hall e (mem_elementsOf.mpr he)
  have hreacts : lineHardware 0x48 0x85 0x45 := by unfold lineHardware; decide +kernel
  have hback : WriteBack modeEnv lineCode.code.fields (lineCode.spec lineCode.rty.bits) lineHardware
      0x08 0x48 [.field ⟨0, 0, 0, .bits 5⟩] 0x45 :=
    .modify (f := fun _ w => runClosure modeEnv lineCode.code.fields w
      [.field ⟨0, 0, 0, .bits 5⟩]) rfl rfl (.register hreacts .nil)
  exact ⟨_, .cons .load (.cons (.device hraised) (.cons (.store rfl hback) .nil))⟩

theorem sharedRun_refines_flag : ∃ loaded, SharedRun asciiCrates modeEnv lineCode.code.fields
      (lineCode.spec lineCode.rty.bits) lineHardware (.idle 0x08) flagEvents ⟨0x45, loaded⟩ ∧
    FieldStore.of lineCode.code.fields (0x45 : BitVec lineCode.rty.bits) ⟨1, 6⟩ =
      (flagEvents.foldl (SharedStore.apply modeEnv none lineCode.code.fields
        (lineCode.spec lineCode.rty.bits))
        ⟨FieldStore.of lineCode.code.fields 0x08, fun _ => FieldStore.of lineCode.code.fields 0x08⟩).now
          ⟨1, 6⟩ := by
  obtain ⟨loaded, hrun⟩ := flagRun
  exact ⟨loaded, hrun, sharedRun_refines bitmaskIsUnion_asciiCrates lineCode_eq lineCode_ownWidths
    lineCode_apart.apart kindsHardware_followsKinds hrun ⟨_, rfl, rfl, by decide +kernel⟩⟩

/-- FLAG is none the worse for it. -/
theorem sharedRun_serializes_flag : Serializes asciiCrates modeEnv none lineCode.code.fields
    (lineCode.spec lineCode.rty.bits) lineHardware (.idle 0x08) flagEvents ⟨1, 6⟩ := by
  obtain ⟨loaded, hrun⟩ := flagRun
  refine (sharedRun_serializes_iff bitmaskIsUnion_asciiCrates lineCode_eq lineCode_ownWidths
    lineCode_apart.apart kindsHardware_followsKinds hrun ⟨_, rfl, rfl, by decide +kernel⟩).mpr ?_
  intro hplain
  exact absurd hplain (by decide +kernel)

end Svd2Rust
