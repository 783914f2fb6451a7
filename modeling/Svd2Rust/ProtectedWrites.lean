import Svd2Rust.AvrUnlock
import Svd2Rust.RegisterRuns

/-!
# Runs on a protected register

"After this write access has been performed, the protected register has to be written within
the next four instruction for the write to take effect."  `write_protected` and
`modify_protected` send the magic value and the store from one block of instructions.  The
other operations send the store alone, and interrupt handlers run whenever they like.

`protectedRun_refines` says which operations a run amounts to.  `guardedRun_refines` says
when they are those that unlock the register, and no others.
-/

namespace Svd2Rust

open StepRuns

/-! ## The core -/

/-- The address of the unlock register and the magic value: those the hardware waits for, or
the constants `ADDR` and `MAGIC`. -/
structure Unlock where
  addr : Nat
  magic : BitVec 8
deriving DecidableEq

/-- An instruction, as far as it concerns the protected register.  Those of interrupt handlers
are among the `other` ones: handlers that use the register themselves are left out. -/
inductive Instr where
  | out (addr : Nat) (value : BitVec 8)
  | st (value : BitVec 8)
  | other

/-- The protected register, and for how many instructions it still takes stores. -/
structure Core where
  reg : BitVec 8
  window : Nat

def unlockWindow : Nat := 4

section Core

variable (guard : Unlock) (hw : Hardware 8)

/-- What one instruction does. -/
inductive Exec : Core → Instr → Core → Prop
  | unlock {c : Core} {addr : Nat} {value : BitVec 8} (hunlocks : (⟨addr, value⟩ : Unlock) = guard) :
      Exec c (.out addr value) ⟨c.reg, unlockWindow⟩
  | out {c : Core} {addr : Nat} {value : BitVec 8} (hother : (⟨addr, value⟩ : Unlock) ≠ guard) :
      Exec c (.out addr value) ⟨c.reg, c.window - 1⟩
  | st {c : Core} {value reg : BitVec 8} (hopen : 0 < c.window) (hreacts : hw c.reg value reg) :
      Exec c (.st value) ⟨reg, c.window - 1⟩
  | lost {c : Core} {value : BitVec 8} (hclosed : c.window = 0) : Exec c (.st value) c
  | other {c : Core} : Exec c .other ⟨c.reg, c.window - 1⟩

end Core

/-- The instructions for a store; `held` of interrupt handlers come after an `out`. -/
def Store.instrs (addr held : Nat) : Store 8 → List Instr
  | .register value => [.st value]
  | .ccp magic => .out addr magic :: List.replicate held .other

/-- Instructions of other code, an operation that only stores, and one that unlocks the
register before. -/
inductive ProtectedEvent where
  | pause (count : Nat)
  | plain (ev : RegEvent 8)
  | unlocked (ev : RegEvent 8) (held : Nat)

section Steps

variable (key guard : Unlock) (env : ProxyEnv) (codes : List FieldCode) (spec : RegisterSpec 8)
  (hw : Hardware 8)

/-- One event.  The word that a plain operation stores is what a register without protection
would take. -/
inductive ProtectedStep : Core → ProtectedEvent → Core → Prop
  | pause {c c' : Core} {count : Nat}
      (hrun : Run (Exec guard hw) c (List.replicate count .other) c') :
      ProtectedStep c (.pause count) c'
  | plain {c c' : Core} {ev : RegEvent 8} {value : BitVec 8}
      (h : RegStep env codes spec (fun _ stored reg => reg = stored) c.reg ev value)
      (hrun : Run (Exec guard hw) c [.st value] c') : ProtectedStep c (.plain ev) c'
  | write {c c' : Core} {f : BitVec 8 → Gen (BitVec 8)} {calls : List (ClosureCall 8)}
      {held : Nat} {effect : Effect 8 Unit}
      (hcalls : f (startWord spec spec.resetValue) =
        runClosure env codes (startWord spec spec.resetValue) calls)
      (h : Reg.writeProtected spec key.magic f = .ok effect)
      (hrun : Run (Exec guard hw) c (effect.stores.flatMap (·.instrs key.addr held)) c') :
      ProtectedStep c (.unlocked (.write calls) held) c'
  | modify {c c' : Core} {f : BitVec 8 → BitVec 8 → Gen (BitVec 8)}
      {calls : List (ClosureCall 8)} {held : Nat} {effect : Effect 8 Unit}
      (hcalls : f c.reg (startWord spec c.reg) =
        runClosure env codes (startWord spec c.reg) calls)
      (h : Reg.modifyProtected spec key.magic c.reg f = .ok effect)
      (hrun : Run (Exec guard hw) c (effect.stores.flatMap (·.instrs key.addr held)) c') :
      ProtectedStep c (.unlocked (.modify calls) held) c'

/-- Events one after the other. -/
abbrev ProtectedRun : Core → List ProtectedEvent → Core → Prop :=
  Run (ProtectedStep key guard env codes spec hw)

end Steps

/-! ## The operations that take effect -/

section Window

variable (key guard : Unlock)

/-- The window after the `out` of the block. -/
def windowAfterOut (window : Nat) : Nat := if key = guard then unlockWindow else window - 1

/-- The window after an event. -/
def ProtectedEvent.after (window : Nat) : ProtectedEvent → Nat
  | .pause count => window - count
  | .plain _ => window - 1
  | .unlocked _ held => windowAfterOut key guard window - held - 1

/-- The operation that the register sees of an event. -/
def ProtectedEvent.taken (window : Nat) : ProtectedEvent → Option (RegEvent 8)
  | .pause _ => none
  | .plain ev => if 0 < window then some ev else none
  | .unlocked ev held => if held < windowAfterOut key guard window then some ev else none

/-- All operations that the register sees. -/
def takenAll : Nat → List ProtectedEvent → List (RegEvent 8)
  | _, [] => []
  | window, ev :: events =>
      (ev.taken key guard window).toList ++ takenAll (ev.after key guard window) events

end Window

section Refinement

variable {key guard : Unlock} {env : ProxyEnv} {codes : List FieldCode} {spec : RegisterSpec 8}
  {hw : Hardware 8} {c c' : Core}

/-- Instructions of other code. -/
theorem exec_others {count : Nat} (h : Run (Exec guard hw) c (List.replicate count .other) c') :
    c' = ⟨c.reg, c.window - count⟩ := by
  induction count generalizing c with
  | zero =>
      cases h
      rfl
  | succ count ih =>
      cases h with
      | cons hstep hrest =>
          cases hstep
          rw [ih hrest, Nat.sub_sub, Nat.add_comm 1 count]

/-- The `out` of the block. -/
theorem exec_out (h : Exec guard hw c (.out key.addr key.magic) c') :
    c' = ⟨c.reg, windowAfterOut key guard c.window⟩ := by
  unfold windowAfterOut
  cases h with
  | unlock hunlocks => rw [if_pos hunlocks]
  | out hother => rw [if_neg hother]

/-- A store. -/
theorem exec_st {value : BitVec 8} (h : Exec guard hw c (.st value) c') :
    c'.window = c.window - 1 ∧
      (0 < c.window ∧ hw c.reg value c'.reg ∨ c.window = 0 ∧ c'.reg = c.reg) := by
  cases h with
  | st hopen hreacts => exact ⟨rfl, .inl ⟨hopen, hreacts⟩⟩
  | lost hclosed => exact ⟨by omega, .inr ⟨hclosed, rfl⟩⟩

/-- **The block.**  The `out` opens the window, the handlers that come in between use up one
instruction each, and the store is taken if any is left. -/
theorem exec_block {value : BitVec 8} {held : Nat}
    (h : Run (Exec guard hw) c
      ((ccpProtectedWrite key.magic value).flatMap (·.instrs key.addr held)) c') :
    c'.window = windowAfterOut key guard c.window - held - 1 ∧
      (held < windowAfterOut key guard c.window ∧ hw c.reg value c'.reg ∨
        windowAfterOut key guard c.window ≤ held ∧ c'.reg = c.reg) := by
  simp only [ccpProtectedWrite, List.flatMap_cons, List.flatMap_nil, Store.instrs,
    List.append_nil, List.cons_append] at h
  cases h with
  | cons hout hrest =>
      obtain rfl := exec_out hout
      obtain ⟨m, hheld, hst⟩ := Run.append_iff.mp hrest
      obtain rfl := exec_others hheld
      obtain ⟨hwindow, hstored⟩ := exec_st (Run.singleton_iff.mp hst)
      simp only [Nat.sub_pos_iff_lt, Nat.sub_eq_zero_iff_le] at hstored
      exact ⟨hwindow, hstored⟩

/-- An operation stores once what its closure makes of the word it starts from. -/
theorem RegStep.of_stored {n : Nat} {spec : RegisterSpec n} {hw : Hardware n} {b v b' : BitVec n}
    {ev : RegEvent n} (hv : runClosure env codes (ev.start spec b) ev.calls = .ok v)
    (hreacts : hw b v b') : RegStep env codes spec hw b ev b' := by
  cases ev with
  | reset =>
      obtain rfl : spec.resetValue = v := Except.ok.inj hv
      exact .reset (.register hreacts .nil)
  | write calls =>
      have heffect : Reg.write spec (fun w => runClosure env codes w calls) =
          .ok ⟨[.register v], v⟩ := gen_bind_ok.mpr ⟨v, hv, rfl⟩
      exact .write rfl heffect (.register hreacts .nil)
  | writeWithZero calls =>
      have heffect : Reg.writeWithZero (fun w => runClosure env codes w calls) =
          .ok ⟨[.register v], v⟩ := gen_bind_ok.mpr ⟨v, hv, rfl⟩
      exact .writeWithZero rfl heffect (.register hreacts .nil)
  | modify calls => exact .of_runClosure hv hreacts

/-- **One event.**  What is left of it is the operation that a register without protection
would have seen, or nothing when the window is closed. -/
theorem protectedStep_taken {ev : ProtectedEvent}
    (h : ProtectedStep key guard env codes spec hw c ev c') :
    c'.window = ev.after key guard c.window ∧
      RegRun env codes spec hw c.reg (ev.taken key guard c.window).toList c'.reg := by
  -- an operation that is taken is a step of the register, one that is lost is none
  have hstep : ∀ {p : Prop} [Decidable p] {op : RegEvent 8} {v : BitVec 8},
      runClosure env codes (op.start spec c.reg) op.calls = .ok v →
      (p ∧ hw c.reg v c'.reg ∨ ¬ p ∧ c'.reg = c.reg) →
      RegRun env codes spec hw c.reg (if p then some op else none).toList c'.reg := by
    intro p _ op v hv hcases
    rcases hcases with htaken | hlost
    · rw [if_pos htaken.1]
      exact Run.singleton_iff.mpr (.of_stored hv htaken.2)
    · rw [if_neg hlost.1, hlost.2]
      exact .nil
  cases h with
  | pause hrun =>
      obtain rfl := exec_others hrun
      exact ⟨rfl, .nil⟩
  | plain h hrun =>
      obtain ⟨v, hv, rfl⟩ := h.stored
      obtain ⟨hwindow, hstored⟩ := exec_st (Run.singleton_iff.mp hrun)
      exact ⟨hwindow, hstep hv (hstored.imp_right fun h => ⟨by omega, h.2⟩)⟩
  | write hcalls h hrun =>
      obtain ⟨v, hv, h⟩ := gen_bind_ok.mp h
      obtain rfl := gen_pure_ok.mp h
      obtain ⟨hwindow, hstored⟩ := exec_block hrun
      exact ⟨hwindow, hstep (hcalls.symm.trans hv) (hstored.imp_right fun h => ⟨by omega, h.2⟩)⟩
  | modify hcalls h hrun =>
      obtain ⟨v, hv, h⟩ := gen_bind_ok.mp h
      obtain rfl := gen_pure_ok.mp h
      obtain ⟨hwindow, hstored⟩ := exec_block hrun
      exact ⟨hwindow, hstep (hcalls.symm.trans hv) (hstored.imp_right fun h => ⟨by omega, h.2⟩)⟩

/-- **Refinement.**  A run on a protected register is a run of the operations that fall into
the window, on a register without protection. -/
theorem protectedRun_refines {events : List ProtectedEvent}
    (h : ProtectedRun key guard env codes spec hw c events c') :
    RegRun env codes spec hw c.reg (takenAll key guard c.window events) c'.reg := by
  induction h with
  | nil => exact .nil
  | cons hstep _ ih =>
      obtain ⟨hwindow, hfirst⟩ := protectedStep_taken hstep
      rw [hwindow] at ih
      exact Run.append_iff.mpr ⟨_, hfirst, ih⟩

end Refinement

/-! ## Guarded runs -/

/-- The instructions of an event. -/
def ProtectedEvent.length : ProtectedEvent → Nat
  | .pause count => count
  | .plain _ => 1
  | .unlocked _ held => held + 2

/-- The operation of an event that unlocks the register. -/
def ProtectedEvent.op : ProtectedEvent → Option (RegEvent 8)
  | .unlocked ev _ => some ev
  | _ => none

def lengthOf (events : List ProtectedEvent) : Nat := (events.map (·.length)).sum

@[simp] theorem lengthOf_append (events later : List ProtectedEvent) :
    lengthOf (events ++ later) = lengthOf events + lengthOf later := by
  simp [lengthOf]

/-- Interrupt handlers leave a block time for its store, and plain operations come when the
window of the last block is over. -/
structure StoresGuarded (events : List ProtectedEvent) : Prop where
  held : ∀ ev held, .unlocked ev held ∈ events → held < unlockWindow
  spaced : ∀ before ev held mid op after,
    events = before ++ .unlocked ev held :: (mid ++ .plain op :: after) →
      unlockWindow ≤ held + 1 + lengthOf mid

section Guarded

variable (key : Unlock)

/-- The window after all events, where the constants are those the hardware waits for. -/
def windowAfter (window : Nat) (events : List ProtectedEvent) : Nat :=
  events.foldl (fun window ev => ev.after key key window) window

variable {key}

@[simp] theorem windowAfterOut_self (window : Nat) :
    windowAfterOut key key window = unlockWindow := if_pos rfl

theorem windowAfter_append (window : Nat) (events later : List ProtectedEvent) :
    windowAfter key window (events ++ later) =
      windowAfter key (windowAfter key window events) later := List.foldl_append

theorem windowAfter_cons (window : Nat) (ev : ProtectedEvent) (events : List ProtectedEvent) :
    windowAfter key window (ev :: events) = windowAfter key (ev.after key key window) events := rfl

/-- An open window was opened by a block, and closes in time. -/
theorem exists_block {events : List ProtectedEvent} (h : 0 < windowAfter key 0 events) :
    ∃ before ev held mid, events = before ++ .unlocked ev held :: mid ∧
      windowAfter key 0 events + held + 1 + lengthOf mid = unlockWindow := by
  induction events using List.reverseRecOn with
  | nil => exact absurd h (Nat.lt_irrefl 0)
  | append_singleton events last ih =>
      rw [windowAfter_append] at h ⊢
      -- an event that is no block leaves what is left of the window
      have hquiet : last.after key key (windowAfter key 0 events) =
          windowAfter key 0 events - last.length → ∃ before ev held mid,
          events ++ [last] = before ++ .unlocked ev held :: mid ∧
            windowAfter key (windowAfter key 0 events) [last] + held + 1 + lengthOf mid =
              unlockWindow := by
        intro hlast
        have hleft : windowAfter key (windowAfter key 0 events) [last] =
            windowAfter key 0 events - last.length := hlast
        rw [hleft] at h ⊢
        obtain ⟨before, ev, held, mid, rfl, hsum⟩ := ih (by omega)
        refine ⟨before, ev, held, mid ++ [last], by simp, ?_⟩
        have hlength : lengthOf [last] = last.length := by simp [lengthOf]
        rw [lengthOf_append, hlength]
        omega
      cases last with
      | pause count => exact hquiet rfl
      | plain op => exact hquiet rfl
      | unlocked ev held =>
          refine ⟨events, ev, held, [], rfl, ?_⟩
          simp only [windowAfter, List.foldl_cons, List.foldl_nil, ProtectedEvent.after,
            windowAfterOut_self, lengthOf, List.map_nil, List.sum_nil] at h ⊢
          omega

/-- A window closes one instruction after the other at most. -/
theorem le_windowAfter {window : Nat} (hle : window ≤ unlockWindow) (events : List ProtectedEvent) :
    window ≤ windowAfter key window events + lengthOf events := by
  induction events generalizing window with
  | nil => exact Nat.le_add_right _ _
  | cons ev events ih =>
      have hlength : lengthOf (ev :: events) = ev.length + lengthOf events := by simp [lengthOf]
      have hstep : window ≤ ev.after key key window + ev.length ∧
          ev.after key key window ≤ unlockWindow := by
        cases ev with
        | pause count => simp only [ProtectedEvent.after, ProtectedEvent.length]; omega
        | plain op => simp only [ProtectedEvent.after, ProtectedEvent.length]; omega
        | unlocked op held =>
            simp only [ProtectedEvent.after, ProtectedEvent.length, windowAfterOut_self]
            omega
      have hrest := ih hstep.2
      rw [hlength, windowAfter_cons]
      omega

/-- **Exactness.**  The register sees of every event what unlocks it, and nothing else, in
guarded runs and no others. -/
theorem guarded_iff {events : List ProtectedEvent} :
    StoresGuarded events ↔ ∀ before ev after, events = before ++ ev :: after →
      ev.taken key key (windowAfter key 0 before) = ev.op := by
  constructor
  · intro h before ev after hsplit
    cases ev with
    | pause count => rfl
    | unlocked op held =>
        have hheld := h.held op held (by rw [hsplit]; simp)
        simp [ProtectedEvent.taken, ProtectedEvent.op, hheld]
    | plain op =>
        refine if_neg fun hopen => ?_
        obtain ⟨first, block, held, mid, rfl, hsum⟩ := exists_block hopen
        have hspaced := h.spaced first block held mid op after (by rw [hsplit]; simp)
        omega
  · intro h
    refine ⟨fun ev held hmem => ?_, fun before ev held mid op after hsplit => ?_⟩
    · obtain ⟨before, after, hsplit⟩ := List.append_of_mem hmem
      have htaken := h before _ after hsplit
      by_contra hlong
      simp [ProtectedEvent.taken, ProtectedEvent.op, hlong] at htaken
    · have htaken := h (before ++ .unlocked ev held :: mid) (.plain op) after (by rw [hsplit]; simp)
      have hclosed : windowAfter key 0 (before ++ .unlocked ev held :: mid) = 0 := by
        by_contra hopen
        simp [ProtectedEvent.taken, ProtectedEvent.op, Nat.pos_of_ne_zero hopen] at htaken
      have hle : unlockWindow - held - 1 ≤ windowAfter key (unlockWindow - held - 1) mid +
          lengthOf mid := le_windowAfter (by omega) mid
      rw [windowAfter_append, windowAfter_cons] at hclosed
      simp only [ProtectedEvent.after, windowAfterOut_self] at hclosed
      omega

/-- Where every event is taken for what it is, these are the operations of all events. -/
theorem takenAll_eq {window : Nat} {events : List ProtectedEvent}
    (h : ∀ before ev after, events = before ++ ev :: after →
      ev.taken key key (windowAfter key window before) = ev.op) :
    takenAll key key window events = events.filterMap (·.op) := by
  induction events generalizing window with
  | nil => rfl
  | cons ev events ih =>
      have hfirst : ev.taken key key window = ev.op := h [] ev events rfl
      have hrest : takenAll key key (ev.after key key window) events = events.filterMap (·.op) :=
        ih fun before ev' after hsplit => h (ev :: before) ev' after (by rw [hsplit]; rfl)
      rw [takenAll, hfirst, hrest]
      cases hop : ev.op with
      | none => rw [List.filterMap_cons_none hop]; rfl
      | some op => rw [List.filterMap_cons_some hop]; rfl

/-- **Protection.**  A guarded run is a run of the operations that unlock the register: none of
them is lost, because each handler that comes between the magic value and the store leaves an
instruction of the window for it, and nothing else changes the register, because a store from
outside comes when the window of the last block is over.  The handlers here are instructions
that leave the register and the unlock register alone; one that uses either is left out. -/
theorem guardedRun_refines {env : ProxyEnv} {codes : List FieldCode} {spec : RegisterSpec 8}
    {hw : Hardware 8} {reg : BitVec 8} {c' : Core} {events : List ProtectedEvent}
    (hguarded : StoresGuarded events)
    (h : ProtectedRun key key env codes spec hw ⟨reg, 0⟩ events c') :
    RegRun env codes spec hw reg (events.filterMap (·.op)) c'.reg := by
  have hrun := protectedRun_refines h
  rwa [takenAll_eq (guarded_iff.mp hguarded)] at hrun

end Guarded

/-- The unlock register at 0x3C, from a peripheral at 0x38. -/
def cpuUnlock : Unlock := ⟨(constAddr 0x38 4).getD 0, 0xD8⟩

/-- A reset that is lost, a block in which a handler runs for one instruction, and one more
reset when the window is over. -/
def resetEvents : List ProtectedEvent :=
  [.plain .reset, .unlocked (.modify [.field ⟨0, 0, 0, .bits 5⟩]) 1, .pause 2, .plain .reset]

theorem resetEvents_guarded : StoresGuarded resetEvents where
  held := by
    intro ev held hmem
    simp only [resetEvents, List.mem_cons, List.not_mem_nil, reduceCtorEq, false_or, or_false,
      ProtectedEvent.unlocked.injEq] at hmem
    rw [hmem.2]
    decide
  spaced := by
    intro before ev held mid op after hsplit
    simp only [resetEvents, List.cons_eq_append_iff, reduceCtorEq, List.cons.injEq, false_and,
      and_false, or_false, false_or, exists_false, List.nil_eq_append_iff] at hsplit
    obtain ⟨_, -, -, hblock, hmid⟩ := hsplit
    obtain ⟨-, rfl⟩ := ProtectedEvent.unlocked.inj hblock
    cases mid with
    | nil => cases (List.cons.inj hmid).1
    | cons first mid =>
        rw [(List.cons.inj hmid).1]
        simp only [unlockWindow, lengthOf, List.map_cons, List.sum_cons, ProtectedEvent.length]
        omega

theorem guardedRun_refines_line :
    RegRun modeEnv lineCode.code.fields (lineCode.spec 8) lineHardware 0x48
      [.modify [.field ⟨0, 0, 0, .bits 5⟩]] 0x45 := by
  have hreacts : lineHardware 0x48 0x85 0x45 := by unfold lineHardware; decide +kernel
  have hreset : ∀ {c : Core}, c.window = 0 → ProtectedStep cpuUnlock cpuUnlock modeEnv
      lineCode.code.fields (lineCode.spec 8) lineHardware c (.plain .reset) c :=
    fun hclosed => .plain (.of_stored rfl rfl) (.cons (.lost hclosed) .nil)
  have hblock : ProtectedStep cpuUnlock cpuUnlock modeEnv lineCode.code.fields (lineCode.spec 8)
      lineHardware ⟨0x48, 0⟩ (.unlocked (.modify [.field ⟨0, 0, 0, .bits 5⟩]) 1) ⟨0x45, 2⟩ := by
    have heffect : Reg.modifyProtected (lineCode.spec 8) cpuUnlock.magic 0x48
        (fun _ w => runClosure modeEnv lineCode.code.fields w [.field ⟨0, 0, 0, .bits 5⟩]) =
          .ok ⟨ccpProtectedWrite cpuUnlock.magic 0x85, ()⟩ := rfl
    exact .modify rfl heffect
      (.cons (.unlock rfl) (.cons .other (.cons (.st (by decide) hreacts) .nil)))
  have hrun : ProtectedRun cpuUnlock cpuUnlock modeEnv lineCode.code.fields (lineCode.spec 8)
      lineHardware ⟨0x48, 0⟩ resetEvents ⟨0x45, 0⟩ :=
    .cons (hreset rfl) (.cons hblock (.cons (.pause (.cons .other (.cons .other .nil)))
      (.cons (hreset rfl) .nil)))
  exact guardedRun_refines resetEvents_guarded hrun

end Svd2Rust
