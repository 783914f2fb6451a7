import Mathlib.Data.List.Basic

/-!
# Runs of steps

A run takes steps, one for each event.  `Run.simulates` carries a relation to an abstract
state, which the events change by a function, over a whole run; `Run.append_iff` cuts a run
where its events are cut.
-/

namespace StepRuns

variable {α β σ : Type*}

/-- Steps one after the other. -/
inductive Run (step : α → β → α → Prop) : α → List β → α → Prop
  | nil {a : α} : Run step a [] a
  | cons {a m b : α} {ev : β} {events : List β} (hstep : step a ev m)
      (hrest : Run step m events b) : Run step a (ev :: events) b

variable {step : α → β → α → Prop} {a b : α}

/-- **Cut.**  A run of two lists of events is one of the first up to some state and one of the
second from there. -/
theorem Run.append_iff {events later : List β} :
    Run step a (events ++ later) b ↔ ∃ m, Run step a events m ∧ Run step m later b := by
  induction events generalizing a with
  | nil =>
      constructor
      · intro h
        exact ⟨a, .nil, h⟩
      · intro h
        obtain ⟨m, hfirst, hlater⟩ := h
        cases hfirst
        exact hlater
  | cons ev events ih =>
      constructor
      · intro h
        cases h with
        | cons hstep hrest =>
            obtain ⟨m, hfirst, hlater⟩ := ih.mp hrest
            exact ⟨m, .cons hstep hfirst, hlater⟩
      · intro h
        obtain ⟨m, hfirst, hlater⟩ := h
        cases hfirst with
        | cons hstep hrest => exact .cons hstep (ih.mpr ⟨m, hrest, hlater⟩)

theorem Run.singleton_iff {ev : β} : Run step a [ev] b ↔ step a ev b := by
  constructor
  · intro h
    cases h with
    | cons hstep hrest =>
        cases hrest
        exact hstep
  · intro h
    exact .cons h .nil

/-- **Simulation.**  What every step keeps holds after a run. -/
theorem Run.simulates {apply : σ → β → σ} {R : α → σ → Prop}
    (hstep : ∀ {a ev a'} {s : σ}, step a ev a' → R a s → R a' (apply s ev)) {events : List β}
    (h : Run step a events b) {s : σ} (hs : R a s) : R b (events.foldl apply s) := by
  induction h generalizing s with
  | nil => exact hs
  | cons hfirst _ ih => exact ih (hstep hfirst hs)

end StepRuns
