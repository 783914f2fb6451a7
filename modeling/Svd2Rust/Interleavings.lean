import Mathlib.Logic.Function.Basic

/-!
# Interleavings of threads on a shared state

Every thread has a list of calls to issue, a call acts on the shared state in one
step, and a schedule takes the calls of all threads in some order that keeps each
thread's own.  If a thread's calls depend on and change only its own view of the
state, `view_interleaving` says that no schedule can be told from running the
thread alone, and `frame_interleaving` that what no call changes stays.
-/

namespace Interleavings

variable {ι κ σ β : Type*} (act : κ → σ → σ)

/-- The state after some calls. -/
def run (s : σ) (calls : List κ) : σ := calls.foldl (fun s c => act c s) s

/-- The state after a schedule. -/
def runSchedule (s : σ) (schedule : List (ι × κ)) : σ := run act s (schedule.map Prod.snd)

@[simp] theorem run_nil (s : σ) : run act s [] = s := rfl

@[simp] theorem run_cons (s : σ) (c : κ) (calls : List κ) :
    run act s (c :: calls) = run act (act c s) calls := rfl

@[simp] theorem runSchedule_nil (s : σ) : runSchedule act s ([] : List (ι × κ)) = s := rfl

@[simp] theorem runSchedule_cons (s : σ) (i : ι) (c : κ) (schedule : List (ι × κ)) :
    runSchedule act s ((i, c) :: schedule) = runSchedule act (act c s) schedule := rfl

variable [DecidableEq ι]

/-- A schedule issues the calls of the threads, each thread's in its order, until
none is left. -/
inductive Interleaves : (ι → List κ) → List (ι × κ) → Prop
  | done {threads : ι → List κ} (hdone : ∀ i, threads i = []) : Interleaves threads []
  | issue {threads : ι → List κ} {i : ι} {c : κ} {rest : List κ} {schedule : List (ι × κ)}
      (hnext : threads i = c :: rest)
      (hrest : Interleaves (Function.update threads i rest) schedule) :
      Interleaves threads ((i, c) :: schedule)

/-- The calls of a schedule are those of the threads. -/
theorem Interleaves.mem {threads : ι → List κ} {schedule : List (ι × κ)}
    (h : Interleaves threads schedule) {i : ι} {c : κ} (hmem : (i, c) ∈ schedule) :
    c ∈ threads i := by
  induction h with
  | done hdone => cases hmem
  | @issue threads j d rest schedule hnext _ ih =>
      rcases List.mem_cons.mp hmem with heq | hmem
      · obtain ⟨rfl, rfl⟩ := Prod.mk.inj heq
        rw [hnext]
        exact List.mem_cons_self
      · have hrest := ih hmem
        by_cases hij : i = j
        · subst hij
          rw [Function.update_self] at hrest
          rw [hnext]
          exact List.mem_cons_of_mem d hrest
        · rwa [Function.update_of_ne hij] at hrest

/-- A thread's calls change its own view by that view alone, and no other view. -/
structure Separated (view : ι → σ → β) (threads : ι → List κ) : Prop where
  own : ∀ i, ∀ c ∈ threads i, ∀ s t, view i s = view i t → view i (act c s) = view i (act c t)
  other : ∀ i, ∀ c ∈ threads i, ∀ j, j ≠ i → ∀ s, view j (act c s) = view j s

variable {act}

/-- Threads stay separated when one of them has issued a call. -/
theorem Separated.update {view : ι → σ → β} {threads : ι → List κ} {i : ι} {c : κ}
    {rest : List κ} (h : Separated act view threads) (hnext : threads i = c :: rest) :
    Separated act view (Function.update threads i rest) := by
  have hsub : ∀ j, ∀ d ∈ Function.update threads i rest j, d ∈ threads j := by
    intro j d hd
    by_cases hij : j = i
    · subst hij
      rw [Function.update_self] at hd
      rw [hnext]
      exact List.mem_cons_of_mem c hd
    · rwa [Function.update_of_ne hij] at hd
  exact ⟨fun j d hd => h.own j d (hsub j d hd), fun j d hd => h.other j d (hsub j d hd)⟩

/-- **A thread alone.**  After any schedule of separated threads a thread's view is
what its own calls make of it. -/
theorem view_interleaving {view : ι → σ → β} {threads : ι → List κ}
    {schedule : List (ι × κ)} (h : Interleaves threads schedule)
    (hsep : Separated act view threads) (j : ι) {s t : σ} (hview : view j s = view j t) :
    view j (runSchedule act s schedule) = view j (run act t (threads j)) := by
  induction h generalizing s t with
  | done hdone =>
      rw [hdone j]
      exact hview
  | @issue threads i c rest schedule hnext _ ih =>
      have hmem : c ∈ threads i := by rw [hnext]; exact List.mem_cons_self
      rw [runSchedule_cons]
      by_cases hij : j = i
      · -- a call of the thread itself
        subst hij
        have hstep := hsep.own j c hmem s t hview
        have hrun := ih (hsep.update hnext) hstep
        rw [Function.update_self] at hrun
        rw [hrun, hnext, run_cons]
      · -- a call of another thread
        have hstep : view j (act c s) = view j t :=
          (hsep.other i c hmem j hij s).trans hview
        have hrun := ih (hsep.update hnext) hstep
        rwa [Function.update_of_ne hij] at hrun

/-- **Frame.**  What no call of any thread changes is the same after every schedule.  The
induction is on the schedule, each step of which is a call of one of the threads. -/
theorem frame_interleaving {frame : σ → β} {threads : ι → List κ} {schedule : List (ι × κ)}
    (h : Interleaves threads schedule)
    (hframe : ∀ i, ∀ c ∈ threads i, ∀ s, frame (act c s) = frame s) (s : σ) :
    frame (runSchedule act s schedule) = frame s := by
  have hall : ∀ p ∈ schedule, ∀ s, frame (act p.2 s) = frame s := by
    intro p hp
    exact hframe p.1 p.2 (h.mem hp)
  clear h
  induction schedule generalizing s with
  | nil => rfl
  | cons p rest ih =>
      have hstep := hall p List.mem_cons_self s
      have hrest := ih (act p.2 s) fun q hq => hall q (List.mem_cons_of_mem p hq)
      exact hrest.trans hstep

end Interleavings
