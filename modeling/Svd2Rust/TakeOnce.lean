import Mathlib.Logic.Function.Basic
import Svd2Rust.FallibleRuns

/-!
# Taking the peripherals once

`device.rs`: the generated `Peripherals::take` checks and sets `DEVICE_PERIPHERALS`
in a critical section; `Peripherals::steal` sets it outside of any.  Contexts run
both in any order and any interleaving of their steps: begin a call, enter the
critical section, read the flag, set it, leave.  A `steal` may set the flag between
the check and the write of a `take`; still at most one `take` succeeds, and none that
begins after a call has handed out the peripherals (`takes_once`).
-/

namespace Svd2Rust

open FallibleRuns

/-- Where a context stands in its current call. -/
inductive Point where
  | idle
  -- `take`: before the critical section
  | entering
  -- `take`: in the critical section, before `if DEVICE_PERIPHERALS`
  | reading
  -- `take`: the flag was read as unset, before the write of `steal`
  | claiming
  -- `take`: before leaving the critical section with its result
  | leaving (taken : Bool)
  -- `steal`: before the write
  | stealing
  -- `steal`: after the write
  | stolen
deriving DecidableEq, Repr

/-- The calls and returns of a run; a call is the `k`-th of its context, and a
`take` returns whether it got the peripherals. -/
inductive Event (Ctx : Type) where
  | begins (c : Ctx) (k : Nat)
  | took (c : Ctx) (k : Nat) (taken : Bool)
  | stole (c : Ctx) (k : Nat)
deriving DecidableEq, Repr

/-- A `take` has returned the peripherals. -/
def Event.isTaken {Ctx : Type} : Event Ctx → Bool
  | .took _ _ taken => taken
  | _ => false

/-- A call has handed out the peripherals. -/
def Event.handsOut {Ctx : Type} : Event Ctx → Bool
  | .stole _ _ => true
  | event => event.isTaken

/-- What a context does next. -/
inductive Action (Ctx : Type) where
  | take (c : Ctx)
  | steal (c : Ctx)
  | advance (c : Ctx)
deriving DecidableEq, Repr

/-- The static flag, the contexts and what they have done so far. -/
structure TakeState (Ctx : Type) where
  devicePeripherals : Bool
  inside : Option Ctx
  point : Ctx → Point
  calls : Ctx → Nat
  log : List (Event Ctx)

/-- The action is not possible here. -/
inductive Blocked where
  | busy
  | idle
  | criticalSection
deriving DecidableEq, Repr

section Steps

variable {Ctx : Type}

/-- `static mut DEVICE_PERIPHERALS: bool = false`, and no call yet. -/
def TakeState.initial : TakeState Ctx where
  devicePeripherals := false
  inside := none
  point := fun _ => .idle
  calls := fun _ => 0
  log := []

variable [DecidableEq Ctx]

/-- A context moves on in its call. -/
def TakeState.moveTo (s : TakeState Ctx) (c : Ctx) (p : Point) : TakeState Ctx :=
  { s with point := Function.update s.point c p }

/-- A context begins a call. -/
def TakeState.begin (s : TakeState Ctx) (c : Ctx) (p : Point) : TakeState Ctx :=
  { s.moveTo c p with log := s.log ++ [.begins c (s.calls c)] }

/-- A context returns from its call. -/
def TakeState.finish (s : TakeState Ctx) (c : Ctx) (event : Event Ctx) : TakeState Ctx :=
  { s.moveTo c .idle with
    calls := Function.update s.calls c (s.calls c + 1)
    log := s.log ++ [event] }

/-- One step of one context. -/
def takeStep (s : TakeState Ctx) : Action Ctx → Except Blocked (TakeState Ctx)
  | .take c => if s.point c = .idle then .ok (s.begin c .entering) else .error .busy
  | .steal c => if s.point c = .idle then .ok (s.begin c .stealing) else .error .busy
  | .advance c =>
    match s.point c with
    | .idle => .error .idle
    | .entering =>
      -- mutual exclusion of `critical_section::with`
      if s.inside = none then .ok { s.moveTo c .reading with inside := some c }
      else .error .criticalSection
    | .reading => .ok (s.moveTo c (if s.devicePeripherals then .leaving false else .claiming))
    | .claiming => .ok { s.moveTo c (.leaving true) with devicePeripherals := true }
    | .leaving taken => .ok { s.finish c (.took c (s.calls c) taken) with inside := none }
    | .stealing => .ok { s.moveTo c .stolen with devicePeripherals := true }
    | .stolen => .ok (s.finish c (.stole c (s.calls c)))

end Steps

/-! ## Late calls -/

section Late

variable {Ctx : Type}

/-- The call begins after a call that handed out the peripherals has returned. -/
def Late (log : List (Event Ctx)) (c : Ctx) (k : Nat) : Prop :=
  ∃ before event rest, log = before ++ event :: rest ∧ event.handsOut = true ∧
    Event.begins c k ∈ rest

theorem Late.handsOut {log : List (Event Ctx)} {c : Ctx} {k : Nat} (h : Late log c k) :
    ∃ event ∈ log, event.handsOut = true := by
  obtain ⟨before, event, rest, rfl, hhands, -⟩ := h
  exact ⟨event, List.mem_append_right _ List.mem_cons_self, hhands⟩

/-- Only the begin of a call makes it late. -/
theorem Late.of_append {log : List (Event Ctx)} {event : Event Ctx} {c : Ctx} {k : Nat}
    (h : Late (log ++ [event]) c k) (hbegins : event ≠ .begins c k) : Late log c k := by
  obtain ⟨before, first, rest, hsplit, hhands, hmem⟩ := h
  rcases rest.eq_nil_or_concat with rfl | ⟨rest, last, rfl⟩
  · cases hmem
  · rw [List.concat_eq_append, ← List.cons_append, ← List.append_assoc] at hsplit
    rw [List.concat_eq_append] at hmem
    obtain ⟨rfl, hlast⟩ := List.append_inj' hsplit rfl
    obtain rfl := List.singleton_inj.mp hlast
    refine ⟨before, first, rest, rfl, hhands, ?_⟩
    rcases List.mem_append.mp hmem with hmem | hmem
    · exact hmem
    · exact absurd (List.mem_singleton.mp hmem).symm hbegins

end Late

/-! ## The invariant -/

/-- In the critical section of `take`. -/
def Point.inSection : Point → Bool
  | .reading | .claiming | .leaving _ => true
  | _ => false

/-- In a `take` that will return the peripherals. -/
def Point.winning : Point → Bool
  | .claiming => true
  | .leaving taken => taken
  | _ => false

/-- After the write of the flag. -/
def Point.wrote : Point → Bool
  | .leaving taken => taken
  | .stolen => true
  | _ => false

theorem Point.inSection_of_winning {p : Point} (h : p.winning = true) : p.inSection = true := by
  cases p <;> first | rfl | cases h

section Invariant

variable {Ctx : Type}

/-- The flag is set once anything was handed out, and a `take` wins only if nothing
was when it began. -/
structure TakeInv (s : TakeState Ctx) : Prop where
  inside_of_section : ∀ c, (s.point c).inSection = true → s.inside = some c
  flag_of_wrote : ∀ c, (s.point c).wrote = true → s.devicePeripherals = true
  flag_of_handsOut : ∀ event ∈ s.log, event.handsOut = true → s.devicePeripherals = true
  not_winning_of_taken : ∀ event ∈ s.log, event.isTaken = true → ∀ c, (s.point c).winning = false
  not_winning_of_late : ∀ c, Late s.log c (s.calls c) → (s.point c).winning = false
  lt_calls : ∀ c k taken, .took c k taken ∈ s.log → k < s.calls c
  not_late_of_taken : ∀ c k, .took c k true ∈ s.log → ¬ Late s.log c k
  taken_once : s.log.countP Event.isTaken ≤ 1

theorem Event.handsOut_of_isTaken {event : Event Ctx} (h : event.isTaken = true) :
    event.handsOut = true := by
  cases event with
  | begins c k => cases h
  | took c k taken => exact h
  | stole c k => rfl

theorem takeInv_initial : TakeInv (TakeState.initial : TakeState Ctx) := by
  constructor <;> simp [TakeState.initial, Point.inSection, Point.wrote, Point.winning]

/-- The context returns from this call. -/
def Event.Returns (c : Ctx) (k : Nat) (event : Event Ctx) : Prop :=
  (∃ taken, event = .took c k taken) ∨ event = .stole c k

theorem Event.Returns.not_begins {c d : Ctx} {k l : Nat} {event : Event Ctx}
    (h : event.Returns c k) : event ≠ .begins d l := by
  rcases h with ⟨taken, rfl⟩ | rfl <;> simp

/-- Nobody else is in the critical section. -/
theorem TakeInv.eq_of_section {s : TakeState Ctx} (hinv : TakeInv s) {c d : Ctx}
    (hc : (s.point c).inSection = true) (hd : (s.point d).inSection = true) : c = d := by
  have hboth := (hinv.inside_of_section c hc).symm.trans (hinv.inside_of_section d hd)
  exact Option.some.inj hboth

variable [DecidableEq Ctx]

/-- A context that moves is at its new point, every other one where it was. -/
theorem TakeState.point_moveTo (s : TakeState Ctx) (c : Ctx) (p : Point)
    (Q : Ctx → Point → Prop) (hc : Q c p) (hothers : ∀ d, d ≠ c → Q d (s.point d)) :
    ∀ d, Q d ((s.moveTo c p).point d) :=
  (Function.forall_update_iff s.point Q).mpr ⟨hc, hothers⟩

/-- A step inside a call keeps the invariant, if the context gets on the way to
success only from there or past an unset flag. -/
theorem TakeInv.move {s : TakeState Ctx} (hinv : TakeInv s) {c : Ctx} {p : Point} {flag : Bool}
    {inside : Option Ctx} (hflag : s.devicePeripherals = true → flag = true)
    (hinside : inside = s.inside ∨ s.inside = none)
    (hsection : p.inSection = true → inside = some c) (hwrote : p.wrote = true → flag = true)
    (hwinning : p.winning = true → (s.point c).winning = true ∨ s.devicePeripherals = false) :
    TakeInv { s.moveTo c p with devicePeripherals := flag, inside := inside } := by
  have hnot : s.devicePeripherals = true → (s.point c).winning = false → p.winning = false := by
    intro hset hlose
    cases hp : p.winning with
    | false => rfl
    | true => rcases hwinning hp with hwin | hunset <;> simp_all
  constructor
  · refine s.point_moveTo c p (fun d q => q.inSection = true → inside = some d) hsection
      fun d _ hd => ?_
    have hold := hinv.inside_of_section d hd
    rcases hinside with rfl | hnone
    · exact hold
    · rw [hold] at hnone
      cases hnone
  · exact s.point_moveTo c p (fun _ q => q.wrote = true → flag = true) hwrote
      fun d _ hd => hflag (hinv.flag_of_wrote d hd)
  · intro event hmem hhands
    exact hflag (hinv.flag_of_handsOut event hmem hhands)
  · intro event hmem htaken
    have hset := hinv.flag_of_handsOut event hmem (Event.handsOut_of_isTaken htaken)
    have hold := hinv.not_winning_of_taken event hmem htaken
    exact s.point_moveTo c p (fun _ q => q.winning = false) (hnot hset (hold c))
      fun d _ => hold d
  · refine s.point_moveTo c p (fun d q => Late s.log d (s.calls d) → q.winning = false)
      (fun hlate => ?_) fun d _ => hinv.not_winning_of_late d
    obtain ⟨event, hmem, hhands⟩ := Late.handsOut hlate
    exact hnot (hinv.flag_of_handsOut event hmem hhands) (hinv.not_winning_of_late c hlate)
  · exact hinv.lt_calls
  · exact hinv.not_late_of_taken
  · exact hinv.taken_once

/-- Beginning a call keeps the invariant. -/
theorem TakeInv.begin {s : TakeState Ctx} (hinv : TakeInv s) {c : Ctx} {p : Point}
    (hsection : p.inSection = false) (hwrote : p.wrote = false) : TakeInv (s.begin c p) := by
  have hlose : p.winning = false := by
    cases hp : p.winning with
    | false => rfl
    | true => rw [Point.inSection_of_winning hp] at hsection; cases hsection
  have hold : ∀ event ∈ (s.begin c p).log, event.handsOut = true → event ∈ s.log := by
    intro event hmem hhands
    rcases List.mem_append.mp hmem with hmem | hmem
    · exact hmem
    · obtain rfl := List.mem_singleton.mp hmem
      cases hhands
  constructor
  · exact s.point_moveTo c p (fun d q => q.inSection = true → s.inside = some d)
      (fun h => absurd h (by simp [hsection])) fun d _ => hinv.inside_of_section d
  · exact s.point_moveTo c p (fun _ q => q.wrote = true → s.devicePeripherals = true)
      (fun h => absurd h (by simp [hwrote])) fun d _ => hinv.flag_of_wrote d
  · intro event hmem hhands
    exact hinv.flag_of_handsOut event (hold event hmem hhands) hhands
  · intro event hmem htaken
    have hmem := hold event hmem (Event.handsOut_of_isTaken htaken)
    exact s.point_moveTo c p (fun _ q => q.winning = false) hlose
      fun d _ => hinv.not_winning_of_taken event hmem htaken d
  · refine s.point_moveTo c p
      (fun d q => Late (s.begin c p).log d (s.calls d) → q.winning = false) (fun _ => hlose)
      fun d hdc hlate => ?_
    refine hinv.not_winning_of_late d (Late.of_append hlate ?_)
    intro heq
    exact hdc (Event.begins.inj heq).1.symm
  · intro d k taken hmem
    simp only [TakeState.begin, List.mem_append, List.mem_singleton, reduceCtorEq, or_false] at hmem
    exact hinv.lt_calls d k taken hmem
  · intro d k hmem hlate
    have hmem := hold _ hmem rfl
    refine hinv.not_late_of_taken d k hmem (Late.of_append hlate ?_)
    -- the call that begins is none of those that have returned
    intro heq
    obtain ⟨rfl, rfl⟩ := Event.begins.inj heq
    exact Nat.lt_irrefl _ (hinv.lt_calls _ _ _ hmem)
  · simpa [TakeState.begin, Event.isTaken] using hinv.taken_once

/-- Returning makes no call earlier. -/
theorem TakeState.calls_le_finish (s : TakeState Ctx) (c d : Ctx) (event : Event Ctx) :
    s.calls d ≤ (s.finish c event).calls d := by
  by_cases hdc : d = c
  · subst hdc
    simp [TakeState.finish]
  · simp [TakeState.finish, hdc]

/-- Returning from a call keeps the invariant, if it hands out the peripherals only
after the write and succeeds only where it was winning. -/
theorem TakeInv.finish {s : TakeState Ctx} (hinv : TakeInv s) {c : Ctx} {event : Event Ctx}
    {inside : Option Ctx} (hinside : inside = s.inside ∨ s.inside = some c)
    (hreturns : event.Returns c (s.calls c))
    (hhands : event.handsOut = true → s.devicePeripherals = true)
    (htaken : event.isTaken = true → (s.point c).winning = true) :
    TakeInv { s.finish c event with inside := inside } := by
  constructor
  · refine s.point_moveTo c .idle (fun d q => q.inSection = true → inside = some d)
      (by simp [Point.inSection]) fun d hdc hd => ?_
    have hold := hinv.inside_of_section d hd
    rcases hinside with rfl | hown
    · exact hold
    · exact absurd (Option.some.inj (hold.symm.trans hown)) hdc
  · exact s.point_moveTo c .idle (fun _ q => q.wrote = true → s.devicePeripherals = true)
      (by simp [Point.wrote]) fun d _ => hinv.flag_of_wrote d
  · intro other hmem hother
    rcases List.mem_append.mp hmem with hmem | hmem
    · exact hinv.flag_of_handsOut other hmem hother
    · obtain rfl := List.mem_singleton.mp hmem
      exact hhands hother
  · intro other hmem hother
    refine s.point_moveTo c .idle (fun _ q => q.winning = false) rfl fun d hdc => ?_
    rcases List.mem_append.mp hmem with hmem | hmem
    · exact hinv.not_winning_of_taken other hmem hother d
    · -- the winner was alone in the critical section
      obtain rfl := List.mem_singleton.mp hmem
      cases hd : (s.point d).winning with
      | false => rfl
      | true =>
          exact absurd (hinv.eq_of_section (Point.inSection_of_winning hd)
            (Point.inSection_of_winning (htaken hother))) hdc
  · refine s.point_moveTo c .idle
      (fun d q => Late (s.finish c event).log d ((s.finish c event).calls d) → q.winning = false)
      (fun _ => rfl) fun d hdc hlate => ?_
    refine hinv.not_winning_of_late d (Late.of_append ?_ hreturns.not_begins)
    simpa [TakeState.finish, hdc] using hlate
  · intro d k taken hmem
    rcases List.mem_append.mp hmem with hmem | hmem
    · exact Nat.lt_of_lt_of_le (hinv.lt_calls d k taken hmem) (s.calls_le_finish c d event)
    · rcases hreturns with ⟨taken', rfl⟩ | rfl
      · obtain ⟨rfl, rfl, -⟩ := Event.took.inj (List.mem_singleton.mp hmem)
        simp [TakeState.finish]
      · cases List.mem_singleton.mp hmem
  · intro d k hmem hlate
    replace hlate : Late s.log d k := Late.of_append hlate hreturns.not_begins
    rcases List.mem_append.mp hmem with hmem | hmem
    · exact hinv.not_late_of_taken d k hmem hlate
    · obtain rfl := List.mem_singleton.mp hmem
      rcases hreturns with ⟨taken, heq⟩ | heq
      · obtain ⟨rfl, rfl, -⟩ := Event.took.inj heq
        have hlose := hinv.not_winning_of_late d hlate
        rw [htaken rfl] at hlose
        cases hlose
      · cases heq
  · cases hevent : event.isTaken with
    | false => simpa [TakeState.finish, hevent] using hinv.taken_once
    | true =>
        have hnone : s.log.countP Event.isTaken = 0 := by
          rw [List.countP_eq_zero]
          intro other hmem hother
          have hlose := hinv.not_winning_of_taken other hmem hother c
          rw [htaken hevent] at hlose
          cases hlose
        simp [TakeState.finish, hevent, hnone]

/-- **Step.**  Every step of every context keeps the invariant.  The cases are the points at
which the acting context stands, of which only two write the flag. -/
theorem takeStep_inv {s t : TakeState Ctx} {a : Action Ctx} (hinv : TakeInv s)
    (hstep : takeStep s a = .ok t) : TakeInv t := by
  cases a with
  | take c =>
      simp only [takeStep] at hstep
      split at hstep
      · cases hstep
        exact hinv.begin rfl rfl
      · cases hstep
  | steal c =>
      simp only [takeStep] at hstep
      split at hstep
      · cases hstep
        exact hinv.begin rfl rfl
      · cases hstep
  | advance c =>
      cases hpoint : s.point c with
      | idle => simp [takeStep, hpoint] at hstep
      | entering =>
          simp only [takeStep, hpoint] at hstep
          split at hstep
          · rename_i hfree
            cases hstep
            exact hinv.move id (.inr hfree) (fun _ => rfl) (fun h => nomatch h) (fun h => nomatch h)
          · cases hstep
      | reading =>
          simp only [takeStep, hpoint] at hstep
          cases hstep
          have hinside := hinv.inside_of_section c (by rw [hpoint]; rfl)
          refine hinv.move id (.inl rfl) (fun _ => hinside) ?_ ?_
          · cases hflag : s.devicePeripherals <;> simp [Point.wrote]
          · cases hflag : s.devicePeripherals <;> simp [Point.winning]
      | claiming =>
          simp only [takeStep, hpoint] at hstep
          cases hstep
          have hinside := hinv.inside_of_section c (by rw [hpoint]; rfl)
          refine hinv.move (fun _ => rfl) (.inl rfl) (fun _ => hinside) (fun _ => rfl) ?_
          rw [hpoint]
          exact fun _ => .inl rfl
      | leaving taken =>
          simp only [takeStep, hpoint] at hstep
          cases hstep
          have hinside := hinv.inside_of_section c (by rw [hpoint]; rfl)
          refine hinv.finish (.inr hinside) (.inl ⟨taken, rfl⟩) ?_ ?_
          · intro htaken
            exact hinv.flag_of_wrote c (by rw [hpoint]; exact htaken)
          · intro htaken
            rw [hpoint]
            exact htaken
      | stealing =>
          simp only [takeStep, hpoint] at hstep
          cases hstep
          exact hinv.move (fun _ => rfl) (.inl rfl) (fun h => nomatch h) (fun _ => rfl)
            (fun h => nomatch h)
      | stolen =>
          simp only [takeStep, hpoint] at hstep
          cases hstep
          refine hinv.finish (.inl rfl) (.inr rfl) ?_ (fun h => nomatch h)
          exact fun _ => hinv.flag_of_wrote c (by rw [hpoint]; rfl)

/-- **Runs.**  Every reachable state has the invariant. -/
theorem takeInv_run {actions : List (Action Ctx)} {s : TakeState Ctx}
    (hrun : actions.foldlM takeStep TakeState.initial = .ok s) : TakeInv s :=
  @invariant_of_safeRun _ _ _ takeStep (fun _ _ => True) (fun _ => TakeInv)
    (fun hinv _ hstep => takeStep_inv hinv hstep) [] actions _ s takeInv_initial
    (safeRun_true _ _) hrun

/-- **Taken once.**  In every interleaving of any contexts at most one `take` returns the
peripherals, and none does that begins after a call which handed them out has returned.  The
flag is read and set in a critical section that no other context enters, so that the first
`take` to get in sets it and every later one, or one after a `steal` that has returned, reads
it set. -/
theorem takes_once (actions : List (Action Ctx)) (s : TakeState Ctx)
    (hrun : actions.foldlM takeStep TakeState.initial = .ok s) :
    s.log.countP Event.isTaken ≤ 1 ∧
    ∀ c k taken, Late s.log c k → .took c k taken ∈ s.log → taken = false := by
  have hinv := takeInv_run hrun
  refine ⟨hinv.taken_once, ?_⟩
  intro c k taken hlate hmem
  cases taken with
  | false => rfl
  | true => exact absurd hlate (hinv.not_late_of_taken c k hmem)

end Invariant

/-- A `take` reads the flag before a `steal` sets it and succeeds all the same; the
next `take` is late. -/
def stealInside : List (Action Nat) :=
  [.take 0, .advance 0, .advance 0, .steal 1, .advance 1, .advance 1, .take 2, .advance 0,
    .advance 0, .advance 2, .advance 2, .advance 2]

def stealInsideLog : List (Event Nat) :=
  [.begins 0 0, .begins 1 0, .stole 1 0, .begins 2 0, .took 0 0 true, .took 2 0 false]

theorem takes_once_stealInside :
    ∃ s, stealInside.foldlM takeStep TakeState.initial = .ok s ∧ s.log = stealInsideLog ∧
      Late s.log 2 0 ∧ s.log.countP Event.isTaken ≤ 1 ∧
      ∀ c k taken, Late s.log c k → .took c k taken ∈ s.log → taken = false := by
  have hlate : Late stealInsideLog 2 0 :=
    ⟨[.begins 0 0, .begins 1 0], .stole 1 0, _, rfl, rfl, List.mem_cons_self⟩
  exact ⟨_, rfl, rfl, hlate, takes_once stealInside _ rfl⟩

end Svd2Rust
