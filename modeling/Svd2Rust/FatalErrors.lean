import Mathlib.Data.List.Basic

/-!
# Errors that are reported and errors that are fatal

A computation in `Except` may stop with an error its caller handles, or with one
that ends the whole program.  `Ends` says when a computation does neither: it
`fits` exactly if it does not stop with a fatal error, and it returns exactly if
it is `sound` besides.  What comes behind an error that is reported is never
run, so a sequence of computations fits as far as the ones in front are sound.
-/

namespace FatalErrors

variable {ε α β : Type} {fatal : ε → Prop}

/-- The computation does not stop with a fatal error. -/
def NoFatal (fatal : ε → Prop) (x : Except ε α) : Prop :=
  ∀ e, x = .error e → ¬ fatal e

/-- How a computation ends. -/
structure Ends (fatal : ε → Prop) (fits sound : Prop) (x : Except ε α) : Prop where
  noFatal : NoFatal fatal x ↔ fits
  returns : (∃ a, x = .ok a) ↔ fits ∧ sound

/-- Each element fits, up to the first one that is not sound. -/
def FitInTurn (fits sound : α → Prop) : List α → Prop
  | [] => True
  | a :: rest => fits a ∧ (sound a → FitInTurn fits sound rest)

theorem Ends.ok (a : α) : Ends fatal True True (.ok a) where
  noFatal := by simp [NoFatal]
  returns := by simp

/-- An error that is reported is not sound, and hides nothing. -/
theorem Ends.reported {e : ε} (h : ¬ fatal e) : Ends fatal True False (.error e : Except ε α) where
  noFatal := by simpa [NoFatal] using h
  returns := by simp

theorem Ends.stopped {e : ε} (h : fatal e) : Ends fatal False True (.error e : Except ε α) where
  noFatal := by simpa [NoFatal] using h
  returns := by simp

/-- A check that stops with a fatal error. -/
theorem Ends.checked {p : Prop} [Decidable p] (a : α) {e : ε} (h : fatal e) :
    Ends fatal p True (if p then .ok a else .error e) := by
  by_cases hp : p
  · simpa [hp] using Ends.ok a
  · simpa [hp] using Ends.stopped h

/-- Where a computation does not fit, it does not matter whether it is sound. -/
theorem Ends.congr {fits fits' sound sound' : Prop} {x : Except ε α}
    (h : Ends fatal fits sound x) (hfits : fits ↔ fits') (hsound : fits' → (sound ↔ sound')) :
    Ends fatal fits' sound' x where
  noFatal := h.noFatal.trans hfits
  returns := by
    rw [h.returns, hfits]
    exact and_congr_right hsound

/-- **Sequences.**  The second computation matters where the first returns.  So the
requirements of a sequence are those of the first, and those of the second for each result of
the first. -/
theorem Ends.bind {fits sound fits' sound' : Prop} {x : Except ε α} {f : α → Except ε β}
    (hx : Ends fatal fits sound x)
    (hf : ∀ a, x = .ok a → Ends fatal fits' sound' (f a)) :
    Ends fatal (fits ∧ (sound → fits')) (sound ∧ sound') (x >>= f) := by
  cases x with
  | error e =>
      have hreturns : ¬ (fits ∧ sound) := fun h => by
        obtain ⟨a, ha⟩ := hx.returns.mpr h
        cases ha
      constructor
      · change NoFatal fatal (.error e) ↔ _
        have hfits : NoFatal fatal (.error e : Except ε β) ↔ fits := by
          simpa [NoFatal] using hx.noFatal
        rw [hfits]
        exact ⟨fun h => ⟨h, fun hs => (hreturns ⟨h, hs⟩).elim⟩, And.left⟩
      · constructor
        · intro h
          obtain ⟨b, hb⟩ := h
          cases hb
        · intro h
          obtain ⟨⟨hfits, -⟩, hsound, -⟩ := h
          exact (hreturns ⟨hfits, hsound⟩).elim
  | ok a =>
      obtain ⟨hfits, hsound⟩ := hx.returns.mp ⟨a, rfl⟩
      exact (hf a rfl).congr (by simp [hfits, hsound]) (by simp [hsound])

/-- After a computation that never reports an error. -/
theorem Ends.andThen {fits fits' sound' : Prop} {x : Except ε α} {f : α → Except ε β}
    (hx : Ends fatal fits True x) (hf : ∀ a, x = .ok a → Ends fatal fits' sound' (f a)) :
    Ends fatal (fits ∧ fits') sound' (x >>= f) :=
  (hx.bind hf).congr (by simp) (by simp)

/-- Returning what a function makes of the result. -/
theorem Ends.map {fits sound : Prop} {x : Except ε α} (hx : Ends fatal fits sound x)
    (f : α → β) : Ends fatal fits sound (x >>= fun a => pure (f a)) :=
  (hx.bind fun a _ => Ends.ok (f a)).congr (by simp) (by simp)

/-- **Loops.**  The elements are run one after the other.  An element that reports an error
ends the run, so that nothing is asked of those behind it. -/
theorem Ends.mapM {fits sound : α → Prop} {f : α → Except ε β} {as : List α}
    (h : ∀ a ∈ as, Ends fatal (fits a) (sound a) (f a)) :
    Ends fatal (FitInTurn fits sound as) (∀ a ∈ as, sound a) (as.mapM f) := by
  induction as with
  | nil =>
      rw [List.mapM_nil]
      exact (Ends.ok []).congr (by simp [FitInTurn]) (by simp)
  | cons a rest ih =>
      rw [List.mapM_cons]
      have hrest := ih fun b hb => h b (List.mem_cons_of_mem _ hb)
      refine ((h a List.mem_cons_self).bind fun b _ => hrest.map (b :: ·)).congr ?_ ?_
      · rw [FitInTurn]
      · simp

/-- Without errors that are reported, every element has to fit. -/
theorem fitInTurn_true {fits : α → Prop} {as : List α} :
    FitInTurn fits (fun _ => True) as ↔ ∀ a ∈ as, fits a := by
  induction as with
  | nil => simp [FitInTurn]
  | cons a rest ih => simp [FitInTurn, ih]

/-- A loop whose elements never report an error. -/
theorem Ends.mapM_true {fits : α → Prop} {f : α → Except ε β} {as : List α}
    (h : ∀ a ∈ as, Ends fatal (fits a) True (f a)) :
    Ends fatal (∀ a ∈ as, fits a) True (as.mapM f) :=
  (Ends.mapM h).congr fitInTurn_true (by simp)

end FatalErrors
