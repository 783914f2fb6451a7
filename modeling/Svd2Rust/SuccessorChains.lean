import Mathlib.Data.Set.Finite.Basic
import Mathlib.Data.Fintype.Pigeonhole

/-!
# Chains of successors

Every element has at most one successor.  A walk from an element ends where there is
none.  If only finitely many elements have a successor, a walk that does not end comes
back to an element it has been at (`ends_iff_not_cycles`).
-/

namespace SuccessorChains

variable {α : Type} (next : α → Option α)

/-- Where `n` steps lead. -/
def walk : Nat → α → Option α
  | 0, a => some a
  | n + 1, a => (next a).bind (walk n)

/-- The walk from `a` comes by `b`. -/
def Leads (a b : α) : Prop := ∃ n, walk next n a = some b

/-- The walk comes to an element without successor. -/
def Ends (a : α) : Prop := ∃ b, Leads next a b ∧ next b = none

/-- The walk comes by an element twice. -/
def Cycles (a : α) : Prop := ∃ b n, Leads next a b ∧ walk next (n + 1) b = some b

variable {next}

theorem walk_add (m n : Nat) (a : α) :
    walk next (m + n) a = (walk next m a).bind (walk next n) := by
  induction m generalizing a with
  | zero => rw [Nat.zero_add, walk, Option.bind_some]
  | succ m ih =>
      rw [Nat.succ_add, walk, walk]
      cases next a with
      | none => rfl
      | some b => exact ih b

/-- One more step. -/
theorem walk_next (n : Nat) (a : α) : walk next (n + 1) a = (walk next n a).bind next := by
  rw [walk_add]
  congr 1
  funext b
  simp only [walk]
  cases next b with
  | none => rfl
  | some c => rfl

/-- After the end there is nothing. -/
theorem walk_eq_none_of_le {m n : Nat} {a : α} (h : walk next m a = none) (hle : m ≤ n) :
    walk next n a = none := by
  obtain ⟨k, rfl⟩ := Nat.exists_eq_add_of_le hle
  rw [walk_add, h, Option.bind_none]

/-- The walk from `a` ends exactly when some number of steps is too many. -/
theorem ends_iff {a : α} : Ends next a ↔ ∃ n, walk next n a = none := by
  constructor
  · intro h
    obtain ⟨b, ⟨n, hn⟩, hend⟩ := h
    exact ⟨n + 1, by rw [walk_next, hn, Option.bind_some, hend]⟩
  · intro h
    obtain ⟨n, hn⟩ := h
    induction n with
    | zero => cases hn
    | succ n ih =>
        cases hwalk : walk next n a with
        | none => exact ih hwalk
        | some b =>
            rw [walk_next, hwalk, Option.bind_some] at hn
            exact ⟨b, ⟨n, hwalk⟩, hn⟩

/-- There is one end at most. -/
theorem end_unique {a b c : α} (hb : Leads next a b) (hbend : next b = none)
    (hc : Leads next a c) (hcend : next c = none) : b = c := by
  obtain ⟨m, hm⟩ := hb
  obtain ⟨n, hn⟩ := hc
  have hafter : ∀ {k x}, walk next k a = some x → next x = none → walk next (k + 1) a = none := by
    intro k x hwalk hend
    rw [walk_next, hwalk, Option.bind_some, hend]
  rcases Nat.lt_trichotomy m n with hlt | rfl | hlt
  · rw [walk_eq_none_of_le (hafter hm hbend) hlt] at hn
    cases hn
  · exact Option.some.inj (hm.symm.trans hn)
  · rw [walk_eq_none_of_le (hafter hn hcend) hlt] at hm
    cases hm

/-- Around a cycle the walk goes on forever. -/
theorem walk_round {b : α} {n : Nat} (h : walk next (n + 1) b = some b) (k : Nat) :
    walk next (k * (n + 1)) b = some b := by
  induction k with
  | zero => rw [Nat.zero_mul, walk]
  | succ k ih => rw [Nat.succ_mul, walk_add, ih, Option.bind_some, h]

theorem not_ends_of_cycles {a : α} (h : Cycles next a) : ¬ Ends next a := by
  obtain ⟨b, n, ⟨m, hm⟩, hround⟩ := h
  rw [ends_iff]
  intro h
  obtain ⟨k, hk⟩ := h
  have hfar : walk next (m + k * (n + 1)) a = some b := by
    rw [walk_add, hm, Option.bind_some, walk_round hround]
  have hle : k ≤ m + k * (n + 1) := by
    rw [Nat.mul_succ]
    omega
  rw [walk_eq_none_of_le hk hle] at hfar
  cases hfar

/-- Among finitely many elements a walk without end repeats one. -/
theorem cycles_of_not_ends {a : α} (hfinite : {x | (next x).isSome}.Finite)
    (h : ¬ Ends next a) : Cycles next a := by
  have hwalk : ∀ n, ∃ b, walk next n a = some b := fun n => by
    cases hn : walk next n a with
    | none => exact absurd (ends_iff.mpr ⟨n, hn⟩) h
    | some b => exact ⟨b, rfl⟩
  choose at_ hat using hwalk
  have hmem : ∀ n, at_ n ∈ {x | (next x).isSome} := fun n => by
    have hstep := hat (n + 1)
    rw [walk_next, hat n, Option.bind_some] at hstep
    exact Option.isSome_iff_exists.mpr ⟨_, hstep⟩
  have : Finite {x | (next x).isSome} := hfinite
  obtain ⟨i, j, hne, heq⟩ := Finite.exists_ne_map_eq_of_infinite
    fun n => (⟨at_ n, hmem n⟩ : {x | (next x).isSome})
  have hsame : at_ i = at_ j := congrArg Subtype.val heq
  -- the two visits, in their order
  have hrepeat : ∀ {i j}, i < j → at_ i = at_ j → Cycles next a := by
    intro i j hlt hsame
    obtain ⟨k, rfl⟩ := Nat.exists_eq_add_of_lt hlt
    refine ⟨at_ i, k, ⟨i, hat i⟩, ?_⟩
    have hlater := hat (i + k + 1)
    rw [Nat.add_assoc, walk_add, hat i, Option.bind_some] at hlater
    rw [hlater, hsame, Nat.add_assoc]
  rcases Nat.lt_or_gt_of_ne hne with hlt | hlt
  · exact hrepeat hlt hsame
  · exact hrepeat hlt hsame.symm

/-- **Ends or cycles.**  In a finite set of states a walk that does not end has to come to a
state it has been at, and from there it repeats. -/
theorem ends_iff_not_cycles {a : α} (hfinite : {x | (next x).isSome}.Finite) :
    Ends next a ↔ ¬ Cycles next a := by
  constructor
  · intro hends hcycles
    exact not_ends_of_cycles hcycles hends
  · intro hcycles
    by_contra hends
    exact hcycles (cycles_of_not_ends hfinite hends)

end SuccessorChains
