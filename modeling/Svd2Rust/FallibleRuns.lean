import Mathlib.Data.List.Basic
import Mathlib.Data.List.Induction

/-!
# Runs of a step that may fail

A loop folds a fallible step over its inputs.  An invariant of the states it
reaches may talk about the inputs read so far, and the steps may have to meet a
condition on the state they start from; `invariant_of_safeRun` carries the
invariant through every successful run whose steps all meet it.
-/

namespace FallibleRuns

variable {ε σ α : Type} (step : σ → α → Except ε σ) (Safe : σ → α → Prop)

/-- Every step of the run from `s` over the inputs meets the condition. -/
def SafeRun : σ → List α → Prop
  | _, [] => True
  | s, a :: rest => Safe s a ∧ ∀ t, step s a = .ok t → SafeRun t rest

variable {step Safe}

/-- A run over a nonempty list starts with a step. -/
theorem foldlM_cons_ok {s u : σ} {a : α} {rest : List α} :
    (a :: rest).foldlM step s = .ok u ↔ ∃ t, step s a = .ok t ∧ rest.foldlM step t = .ok u := by
  rw [List.foldlM_cons]
  cases step s a with
  | error e => simp [bind, Except.bind]
  | ok t => simp [bind, Except.bind]

theorem foldlM_append_ok {s u : σ} {before after : List α} :
    (before ++ after).foldlM step s = .ok u ↔
      ∃ t, before.foldlM step s = .ok t ∧ after.foldlM step t = .ok u := by
  rw [List.foldlM_append]
  cases before.foldlM step s with
  | error e => simp [bind, Except.bind]
  | ok t => simp [bind, Except.bind]

/-- A run that ends with a step. -/
theorem foldlM_concat_ok {s u : σ} {items : List α} {a : α} :
    (items ++ [a]).foldlM step s = .ok u ↔
      ∃ t, items.foldlM step s = .ok t ∧ step t a = .ok u := by
  rw [foldlM_append_ok]
  refine exists_congr fun t => and_congr_right fun _ => ?_
  rw [foldlM_cons_ok]
  constructor
  · intro h
    obtain ⟨v, hstep, hv⟩ := h
    obtain rfl : v = u := Except.ok.inj hv
    exact hstep
  · intro hstep
    exact ⟨u, hstep, rfl⟩

/-- **Returning runs.**  A run returns exactly when every step does, if the inputs
read before a step decide whether it does. -/
theorem exists_run_iff {Returns : List α → α → Prop} {s : σ}
    (hstep : ∀ {before t} (a : α), before.foldlM step s = .ok t →
      ((∃ u, step t a = .ok u) ↔ Returns before a)) (items : List α) :
    (∃ t, items.foldlM step s = .ok t) ↔
      ∀ before a after, items = before ++ a :: after → Returns before a := by
  constructor
  · intro h before a after heq
    obtain ⟨u, hrun⟩ := h
    obtain rfl := heq
    obtain ⟨t, hbefore, hrest⟩ := foldlM_append_ok.mp hrun
    obtain ⟨t', ht', -⟩ := foldlM_cons_ok.mp hrest
    exact (hstep a hbefore).mp ⟨t', ht'⟩
  · intro hall
    induction items using List.reverseRecOn with
    | nil => exact ⟨s, rfl⟩
    | append_singleton items a ih =>
        obtain ⟨t, ht⟩ := ih fun before b after hsplit =>
          hall before b (after ++ [a]) (by rw [hsplit, List.append_assoc, List.cons_append])
        obtain ⟨u, hu⟩ := (hstep a ht).mpr (hall items a [] rfl)
        exact ⟨u, foldlM_concat_ok.mpr ⟨t, ht, hu⟩⟩

/-- A safe run is safe up to every point. -/
theorem SafeRun.of_append {s : σ} {before after : List α} (h : SafeRun step Safe s (before ++ after)) :
    SafeRun step Safe s before := by
  induction before generalizing s with
  | nil => trivial
  | cons a rest ih => exact ⟨h.1, fun t ht => ih (h.2 t ht)⟩

/-- A run without condition is safe. -/
theorem safeRun_true (s : σ) (items : List α) : SafeRun step (fun _ _ => True) s items := by
  induction items generalizing s with
  | nil => trivial
  | cons a rest ih => exact ⟨trivial, fun t _ => ih t⟩

/-- **Runs that return.**  If the condition says exactly which steps return, the run
returns exactly when it is safe. -/
theorem exists_run_iff_safeRun {Inv : σ → Prop} {items : List α} {s : σ} (h : Inv s)
    (hstep : ∀ {s a}, Inv s → a ∈ items → ((∃ t, step s a = .ok t) ↔ Safe s a))
    (hinv : ∀ {s a t}, Inv s → step s a = .ok t → Inv t) :
    (∃ t, items.foldlM step s = .ok t) ↔ SafeRun step Safe s items := by
  induction items generalizing s with
  | nil => exact ⟨fun _ => trivial, fun _ => ⟨s, rfl⟩⟩
  | cons a rest ih =>
      have hrest := fun {t} (ht : Inv t) => ih ht fun h hmem => hstep h (List.mem_cons_of_mem _ hmem)
      constructor
      · intro hrun
        obtain ⟨u, hrun⟩ := hrun
        obtain ⟨t, ht, hrun⟩ := foldlM_cons_ok.mp hrun
        refine ⟨(hstep h List.mem_cons_self).mp ⟨t, ht⟩, fun t' ht' => ?_⟩
        obtain rfl : t = t' := Except.ok.inj (ht.symm.trans ht')
        exact (hrest (hinv h ht)).mp ⟨u, hrun⟩
      · intro hsafe
        obtain ⟨t, ht⟩ := (hstep h List.mem_cons_self).mpr hsafe.1
        obtain ⟨u, hrun⟩ := (hrest (hinv h ht)).mpr (hsafe.2 t ht)
        exact ⟨u, foldlM_cons_ok.mpr ⟨t, ht, hrun⟩⟩

/-- A run is safe if an invariant of its states implies the condition. -/
theorem safeRun_of_invariant {Inv : σ → Prop} {items : List α} {s : σ} (h : Inv s)
    (hsafe : ∀ {s a}, Inv s → a ∈ items → Safe s a)
    (hinv : ∀ {s a t}, Inv s → a ∈ items → step s a = .ok t → Inv t) :
    SafeRun step Safe s items := by
  induction items generalizing s with
  | nil => trivial
  | cons a rest ih =>
      refine ⟨hsafe h List.mem_cons_self, fun t ht => ?_⟩
      exact ih (hinv h List.mem_cons_self ht) (fun h hmem => hsafe h (List.mem_cons_of_mem _ hmem))
        fun h hmem => hinv h (List.mem_cons_of_mem _ hmem)

/-- **Safe runs.**  What every step that meets the condition preserves holds at
the end of every successful run whose steps all meet it. -/
theorem invariant_of_safeRun {Inv : List α → σ → Prop}
    (hstep : ∀ {before s a t}, Inv before s → Safe s a → step s a = .ok t → Inv (before ++ [a]) t)
    {before items : List α} {s t : σ} (hinv : Inv before s) (hsafe : SafeRun step Safe s items)
    (hrun : items.foldlM step s = .ok t) : Inv (before ++ items) t := by
  induction items generalizing before s with
  | nil =>
      obtain rfl : s = t := Except.ok.inj hrun
      simpa using hinv
  | cons a rest ih =>
      obtain ⟨u, hu, hrest⟩ := foldlM_cons_ok.mp hrun
      have hnext := ih (hstep hinv hsafe.1 hu) (hsafe.2 u hu) hrest
      simpa using hnext

end FallibleRuns
