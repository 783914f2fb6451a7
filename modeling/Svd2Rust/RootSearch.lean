import Svd2Rust.DeriveLookups
import Svd2Rust.SuccessorChains

/-!
# The search for the root of a derivation

`find_root` looks a reference up and goes on with the `derivedFrom` of the register it
finds, in the block of that register.  It keeps no record of the registers it has been
at, so a device that closes a chain of references to a cycle never gets an answer.  In
all other cases the answer is the right one (`findRoot_settles_iff`).
-/

namespace Svd2Rust

open SuccessorChains

section Search

variable (crates : Crates) (index : Index)

/-- The register the search goes on with. -/
def nextPath (rpath : RegisterPath) : Option RegisterPath :=
  (index.registers rpath).bind fun d => d.info.derivedFrom.map (lookupPath crates rpath.block)

/-- The register at the end of the chain from `start`: it is not derived. -/
structure IsRootOf (start : RegisterPath) (root : Register × RegisterPath) : Prop where
  leads : Leads (nextPath crates index) start root.2
  known : index.registers root.2 = some root.1
  underived : root.1.info.derivedFrom = none

/-- What a search is to return: the only register at the end of the chain, or an error
if there is none. -/
def IsRightAnswer (start : RegisterPath) : Gen (Register × RegisterPath) → Prop
  | .ok root => ∀ root', IsRootOf crates index start root' ↔ root' = root
  | .error (.bail _) => ∀ root, ¬ IsRootOf crates index start root
  | .error (.panic _) => False

/-- The search finishes, on every stack that is large enough, with the right answer. -/
def SearchSettles (dpath : String) (path : BlockPath) : Prop :=
  ∃ depth answer, (∀ fuel, depth ≤ fuel → findRoot crates index fuel dpath path = answer) ∧
    IsRightAnswer crates index (lookupPath crates path dpath) answer

variable {crates index}

theorem nextPath_eq_none_iff {rpath : RegisterPath} : nextPath crates index rpath = none ↔
    ∀ d, index.registers rpath = some d → d.info.derivedFrom = none := by
  unfold nextPath
  cases index.registers rpath with
  | none => simp
  | some d => simp

theorem exists_derived_of_nextPath {rpath p : RegisterPath}
    (h : nextPath crates index rpath = some p) : ∃ d dp, index.registers rpath = some d ∧
      d.info.derivedFrom = some dp ∧ lookupPath crates rpath.block dp = p := by
  obtain ⟨d, hd, hfrom⟩ := Option.bind_eq_some_iff.mp h
  obtain ⟨dp, hdp, hp⟩ := Option.map_eq_some_iff.mp hfrom
  exact ⟨d, dp, hd, hdp, hp⟩

/-- Nothing after the root. -/
theorem IsRootOf.next_eq_none {start : RegisterPath} {root : Register × RegisterPath}
    (h : IsRootOf crates index start root) : nextPath crates index root.2 = none := by
  refine nextPath_eq_none_iff.mpr fun d hd => ?_
  obtain rfl := Option.some.inj (h.known.symm.trans hd)
  exact h.underived

theorem IsRootOf.unique {start : RegisterPath} {root root' : Register × RegisterPath}
    (h : IsRootOf crates index start root) (h' : IsRootOf crates index start root') :
    root' = root := by
  have hpath : root'.2 = root.2 :=
    end_unique h'.leads h'.next_eq_none h.leads h.next_eq_none
  have hreg : root'.1 = root.1 := by
    have hknown := h'.known
    rw [hpath, h.known] at hknown
    exact (Option.some.inj hknown).symm
  exact Prod.ext hreg hpath

/-! One call, by what the reference is. -/

theorem findRoot_of_unknown {dpath : String} {path : BlockPath}
    (h : index.registers (lookupPath crates path dpath) = none) (fuel : Nat) :
    findRoot crates index (fuel + 1) dpath path = bail ("register " ++ dpath ++ " not found") := by
  unfold lookupPath at h
  simp only [findRoot, h]
  rfl

theorem findRoot_of_underived {dpath : String} {path : BlockPath} {d : Register}
    (hd : index.registers (lookupPath crates path dpath) = some d)
    (hfrom : d.info.derivedFrom = none) (fuel : Nat) :
    findRoot crates index (fuel + 1) dpath path = .ok (d, lookupPath crates path dpath) := by
  unfold lookupPath at hd ⊢
  simp only [findRoot, hd, okOr, bind, Except.bind, hfrom]
  rfl

theorem findRoot_of_derived {dpath dp : String} {path : BlockPath} {d : Register}
    (hd : index.registers (lookupPath crates path dpath) = some d)
    (hfrom : d.info.derivedFrom = some dp) (fuel : Nat) :
    findRoot crates index (fuel + 1) dpath path =
      findRoot crates index fuel dp (lookupPath crates path dpath).block := by
  unfold lookupPath at hd ⊢
  simp only [findRoot, hd, okOr, bind, Except.bind, hfrom]
  rfl

/-- **Chains that end.**  A search whose chain ends after `n` steps needs a stack of
`n + 1` calls. -/
theorem findRoot_of_end {n : Nat} {dpath : String} {path : BlockPath} {last : RegisterPath}
    (hwalk : walk (nextPath crates index) n (lookupPath crates path dpath) = some last)
    (hend : nextPath crates index last = none) :
    ∃ answer, (∀ fuel, n + 1 ≤ fuel → findRoot crates index fuel dpath path = answer) ∧
      ((∃ d, index.registers last = some d ∧ answer = .ok (d, last)) ∨
        index.registers last = none ∧ ∃ chain, answer = .error (.bail chain)) := by
  induction n generalizing dpath path with
  | zero =>
      obtain rfl := Option.some.inj hwalk
      cases hd : index.registers (lookupPath crates path dpath) with
      | none =>
          refine ⟨bail ("register " ++ dpath ++ " not found"), fun fuel hfuel => ?_,
            .inr ⟨rfl, _, rfl⟩⟩
          obtain ⟨fuel, rfl⟩ := Nat.exists_eq_add_of_le' hfuel
          exact findRoot_of_unknown hd fuel
      | some d =>
          refine ⟨.ok (d, lookupPath crates path dpath), fun fuel hfuel => ?_, .inl ⟨d, rfl, rfl⟩⟩
          obtain ⟨fuel, rfl⟩ := Nat.exists_eq_add_of_le' hfuel
          exact findRoot_of_underived hd (nextPath_eq_none_iff.mp hend d hd) fuel
  | succ n ih =>
      obtain ⟨p, hp, hwalk⟩ := Option.bind_eq_some_iff.mp hwalk
      obtain ⟨d, dp, hd, hfrom, rfl⟩ := exists_derived_of_nextPath hp
      obtain ⟨answer, hanswer, hright⟩ := ih hwalk
      refine ⟨answer, fun fuel hfuel => ?_, hright⟩
      obtain ⟨fuel, rfl⟩ : ∃ rest, fuel = rest + 1 := ⟨fuel - 1, by omega⟩
      rw [findRoot_of_derived hd hfrom]
      exact hanswer fuel (by omega)

/-- While there is a register to go on with, the stack runs out. -/
theorem findRoot_overflows {fuel : Nat} {dpath : String} {path : BlockPath} {p : RegisterPath}
    (hwalk : walk (nextPath crates index) fuel (lookupPath crates path dpath) = some p) :
    findRoot crates index fuel dpath path = panicking "stack overflow" := by
  induction fuel generalizing dpath path with
  | zero => rfl
  | succ fuel ih =>
      obtain ⟨q, hq, hwalk⟩ := Option.bind_eq_some_iff.mp hwalk
      obtain ⟨d, dp, hd, hfrom, rfl⟩ := exists_derived_of_nextPath hq
      rw [findRoot_of_derived hd hfrom]
      exact ih hwalk

/-- A search settles exactly when its chain ends. -/
theorem settles_iff_ends {dpath : String} {path : BlockPath} :
    SearchSettles crates index dpath path ↔
      Ends (nextPath crates index) (lookupPath crates path dpath) := by
  constructor
  · intro hsettles
    obtain ⟨depth, answer, hanswer, hright⟩ := hsettles
    rw [ends_iff]
    refine ⟨depth, ?_⟩
    cases hwalk : walk (nextPath crates index) depth (lookupPath crates path dpath) with
    | none => rfl
    | some p =>
        -- then the answer would be that the stack has run out
        rw [← hanswer depth (Nat.le_refl _), findRoot_overflows hwalk] at hright
        exact hright.elim
  · intro hends
    obtain ⟨last, ⟨n, hwalk⟩, hend⟩ := hends
    obtain ⟨answer, hanswer, hlast⟩ := findRoot_of_end hwalk hend
    refine ⟨n + 1, answer, hanswer, ?_⟩
    cases hlast with
    | inr hunknown =>
        obtain ⟨hlast, chain, rfl⟩ := hunknown
        intro root hroot
        have hsame : root.2 = last := end_unique hroot.leads hroot.next_eq_none ⟨n, hwalk⟩ hend
        have hknown := hroot.known
        rw [hsame, hlast] at hknown
        cases hknown
    | inl hfound =>
        obtain ⟨d, hlast, rfl⟩ := hfound
        have hroot : IsRootOf crates index (lookupPath crates path dpath) (d, last) :=
          ⟨⟨n, hwalk⟩, hlast, nextPath_eq_none_iff.mp hend d hlast⟩
        intro root'
        constructor
        · exact hroot.unique
        · intro heq
          obtain rfl := heq
          exact hroot

end Search

/-- **Root search.**  In an index of finitely many registers the search for a root finishes
with the right answer exactly when the chain of references from there does not come back to a
register it has been at.  Each reference has at most one successor, so the search follows a
chain: in a finite index it ends, or it comes back to where it has been and never returns. -/
theorem findRoot_settles_iff {crates : Crates} {index : Index}
    (hfinite : {rpath | (index.registers rpath).isSome}.Finite) (dpath : String)
    (path : BlockPath) :
    SearchSettles crates index dpath path ↔
      ¬ Cycles (nextPath crates index) (lookupPath crates path dpath) := by
  have hnext : {rpath | (nextPath crates index rpath).isSome}.Finite := by
    refine hfinite.subset fun rpath hsome => ?_
    obtain ⟨p, hp⟩ := Option.isSome_iff_exists.mp hsome
    obtain ⟨d, -, hd, -, -⟩ := exists_derived_of_nextPath hp
    exact Option.isSome_iff_exists.mpr ⟨d, hd⟩
  rw [settles_iff_ends, ends_iff_not_cycles hnext]

/-- The registers of a timer: a control register, a second one derived from it, and two
that are derived from each other across the blocks of the timer and its channel. -/
def linkedIndex : Index where
  registers rpath :=
    if rpath = (BlockPath.new "TIM").newRegister "CR1" then
      some (.single (plainRegister "CR1" 0 32))
    else if rpath = (BlockPath.new "TIM").newRegister "CR2" then
      some (.single { plainRegister "CR2" 4 32 with derivedFrom := some "CR1" })
    else if rpath = (BlockPath.new "TIM").newRegister "SMCR" then
      some (.single { plainRegister "SMCR" 8 32 with derivedFrom := some "TIM.CH.MODE" })
    else if rpath = ((BlockPath.new "TIM").newCluster "CH").newRegister "MODE" then
      some (.single { plainRegister "MODE" 0 32 with derivedFrom := some "TIM.SMCR" })
    else none
  clusters _ := none
  evs _ := none

theorem linkedIndex_finite : {rpath | (linkedIndex.registers rpath).isSome}.Finite := by
  refine Set.Finite.subset (Set.toFinite {(BlockPath.new "TIM").newRegister "CR1",
    (BlockPath.new "TIM").newRegister "CR2", (BlockPath.new "TIM").newRegister "SMCR",
    ((BlockPath.new "TIM").newCluster "CH").newRegister "MODE"}) fun rpath hsome => ?_
  by_contra hnot
  simp only [Set.mem_insert_iff, Set.mem_singleton_iff, not_or] at hnot
  obtain ⟨hcr1, hcr2, hsmcr, hmode⟩ := hnot
  simp [linkedIndex, hcr1, hcr2, hsmcr, hmode] at hsome

theorem findRoot_settles_derivedControl :
    SearchSettles asciiCrates linkedIndex "CR2" (.new "TIM") := by
  refine (findRoot_settles_iff linkedIndex_finite "CR2" (.new "TIM")).mpr ?_
  refine fun hcycles => not_ends_of_cycles hcycles ?_
  exact ⟨(BlockPath.new "TIM").newRegister "CR1", ⟨1, by decide⟩, by decide⟩

/-- The two registers derived from each other. -/
theorem not_findRoot_settles_mutual :
    ¬ SearchSettles asciiCrates linkedIndex "SMCR" (.new "TIM") := by
  rw [settles_iff_ends]
  refine not_ends_of_cycles ⟨(BlockPath.new "TIM").newRegister "SMCR", 1, ⟨0, ?_⟩, ?_⟩
  · decide
  · decide

end Svd2Rust
