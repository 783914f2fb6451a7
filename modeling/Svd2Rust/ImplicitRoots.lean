import Svd2Rust.AsciiCrates
import Svd2Rust.DeriveInfos

/-!
# Implicit derivation points to roots

A register that derives implicitly is re-exported from its root, so the root has
to stay a register of its own: `ImplicitRooted` is what the vector of derive
infos promises.  The scan does not keep the promise by itself.  It gives
registers a root that is no root any more, turns a root into a derived register,
and looks the paths of other blocks up in this one.

`SafeStep` excludes these branches, one state at a time, and nothing else:
`checkErc_rooted` shows that a step that meets it keeps the promise, and
`implicitRooted_of_safeRun` carries it through the scan.
-/

namespace Svd2Rust

open FallibleRuns

/-- The path `p` names the register, or an element of it, in the block. -/
def RegisterCluster.IsAt (crates : Crates) (path : BlockPath) (p : RegisterPath) :
    RegisterCluster → Prop
  | .register reg => p.block = path ∧ (p.name = reg.info.name ∨
      ∃ dim, reg.dim = some dim ∧ p.name ∈ crates.names reg.info.name dim)
  | .cluster _ => False

/-- Same `properties` and same `fields`. -/
def RegisterCluster.DerivesFrom (source : Register) : RegisterCluster → Prop
  | .register reg => isDerivable source reg = true
  | .cluster _ => False

section Roots

variable (crates : Crates) (index : Index) (path : BlockPath)

/-- The path `p` leads to a register that the entry can be derived from and that
derives from no other; if it is in this block, it is given `root`. -/
structure RootedAt (entries : List Entry) (erc : RegisterCluster) (p : RegisterPath) : Prop where
  exists_root : ∃ source, index.registers p = some source ∧ source.info.derivedFrom = none ∧
    erc.DerivesFrom source
  target_root : ∀ e ∈ entries, e.erc.IsAt crates path p → e.info = .root

/-- The state invariant of the scan. -/
def EntriesRooted (entries : List Entry) : Prop :=
  ∀ e ∈ entries, ∀ p, e.info = .implicit p → RootedAt crates index path entries e.erc p

/-- What the vector of derive infos promises for one implicit derivation. -/
structure ImplicitRooted (vector : List (RegisterCluster × DeriveInfo)) (erc : RegisterCluster)
    (p : RegisterPath) : Prop where
  exists_root : ∃ source, index.registers p = some source ∧ source.info.derivedFrom = none ∧
    erc.DerivesFrom source
  not_self : ¬ erc.IsAt crates path p
  target_root : p.block = path →
    (∃ target ∈ vector, target.1.IsAt crates path p) ∧
      ∀ target ∈ vector, target.1.IsAt crates path p → target.2 = .root

/-- The index was built from the device: what it has in this block are the
registers of the block, under their names and those of their elements. -/
def IndexOfBlock (ercs : List RegisterCluster) : Prop :=
  ∀ p source, p.block = path → index.registers p = some source →
    .register source ∈ ercs ∧ (RegisterCluster.register source).IsAt crates path p

/-! ## The condition on a step -/

/-- An earlier register derives implicitly from this one. -/
def Targeted (entries : List Entry) (erc : RegisterCluster) : Prop :=
  ∃ e ∈ entries, ∃ p, e.info = .implicit p ∧ erc.IsAt crates path p

/-- The register may derive from the root `p`: what has been seen of `p` is a
root, `p` is not the register itself, and no earlier register derives from it. -/
structure TakesSafely (entries : List Entry) (erc : RegisterCluster) (p : RegisterPath) :
    Prop where
  settled : ∀ e ∈ entries, e.erc.IsAt crates path p → e.info = .root
  not_self : ¬ erc.IsAt crates path p
  not_targeted : ¬ Targeted crates path entries erc

variable (fuel : Nat) (reg : Register) (tyName : String) (re : String → Bool)

/-- The array turns this earlier single into a derived register. -/
def Flips (e : Entry) : Prop :=
  ∃ info, e.erc = .register (.single info) ∧ re e.tyName = true ∧ e.info = .root ∧
    isDerivable (.single info) reg = true

/-- This earlier single hands the root `q` on to the array. -/
def HandsOn (e : Entry) (q : RegisterPath) : Prop :=
  ∃ info, e.erc = .register (.single info) ∧ re e.tyName = true ∧
    ((∃ rpath source, e.info = .explicit rpath ∧
        findRoot crates index fuel rpath.name path = .ok (source, q) ∧
        isDerivable source reg = true) ∨
      ∃ source r, e.info = .implicit q ∧
        findRoot crates index fuel q.name path = .ok (source, r) ∧ isDerivable source reg = true)

/-- The array becomes a root: it finds itself under its own name. -/
def LooksItselfUp (entries : List Entry) : Prop :=
  ∀ source p, findRoot crates index fuel tyName path = .ok (source, p) →
    isDerivable source reg = true ∧ ∀ e ∈ entries, ¬ e.erc.IsAt crates path p

/-- The array takes the root `q` from the first single that hands one on: no
single was turned before, the array may take `q`, `q` is the register its source
was found at, and paths to the array lead to `q` from then on. -/
structure TakesHandedOn (entries before rest : List Entry) (q : RegisterPath) : Prop where
  none_turned : ∀ e ∈ before, ¬ Flips reg re e
  takes : TakesSafely crates path entries (.register reg) q
  source : ∀ source, index.registers q = some source → isDerivable source reg = true
  turned_elsewhere : ∀ e ∈ rest, Flips reg re e → ¬ e.erc.IsAt crates path q
  unnamed : ∀ e ∈ rest, ∀ p, e.info = .implicit p → p.name ≠ tyName
  redirected : ∀ e ∈ rest, Flips reg re e →
    (∀ source p, findRoot crates index fuel tyName path = .ok (source, p) → p.name = tyName) ∧
      ∀ source p, findRoot crates index fuel q.name path = .ok (source, p) → p = q

/-- An array may scan the earlier singles: it turns none that is a root of
another register, and it becomes a root itself or takes one safely. -/
structure SafeScan (entries : List Entry) : Prop where
  not_targeted : ∀ e ∈ entries, Flips reg re e → ¬ Targeted crates path entries e.erc
  looks_itself_up : (∀ e ∈ entries, ∀ q, ¬ HandsOn crates index path fuel reg re e q) →
    ∀ e ∈ entries, Flips reg re e → LooksItselfUp crates index path fuel reg tyName entries
  handed_on : ∀ before e after q, entries = before ++ e :: after →
    HandsOn crates index path fuel reg re e q →
    (∀ e' ∈ before, ∀ q', ¬ HandsOn crates index path fuel reg re e' q') →
    TakesHandedOn crates index path fuel reg tyName re entries before (e :: after) q

end Roots

/-- The condition on a step of the scan. -/
def SafeStep (crates : Crates) (config : Config) (index : Index) (fuel : Nat) (path : BlockPath)
    (entries : List Entry) : RegisterCluster → Prop
  | .cluster _ => True
  | .register reg =>
      let tyName := reg.info.fullname config.ignoreGroups
      if reg.info.derivedFrom.isSome then ¬ Targeted crates path entries (.register reg)
      else
        (∀ root, compareThisAgainstPrev crates index fuel path reg tyName entries =
            .ok (some root) →
          reg.isSingle = false ∨ tyName ≠ root.name →
            TakesSafely crates path entries (.register reg) root) ∧
        (compareThisAgainstPrev crates index fuel path reg tyName entries = .ok none →
          reg.isSingle = false → ∀ re, crates.regexNew (arrayPattern tyName) = some re →
            SafeScan crates index path fuel reg tyName re entries)

/-! ## What the functions of the scan do -/

section Scan

variable {crates : Crates} {config : Config} {index : Index} {fuel : Nat} {path : BlockPath}

/-- A root is in the index and derives from nothing. -/
theorem findRoot_ok {dpath : String} {start : BlockPath} {source : Register} {p : RegisterPath}
    (h : findRoot crates index fuel dpath start = .ok (source, p)) :
    index.registers p = some source ∧ source.info.derivedFrom = none := by
  induction fuel generalizing dpath start with
  | zero => exact (panicking_ok.mp h).elim
  | succ fuel ih =>
      rw [findRoot] at h
      obtain ⟨d, hd, h⟩ := gen_bind_ok.mp h
      cases hfrom : d.info.derivedFrom with
      | some dp =>
          rw [hfrom] at h
          exact ih h
      | none =>
          rw [hfrom] at h
          obtain ⟨rfl, rfl⟩ := Prod.mk.injEq .. ▸ gen_pure_ok.mp h
          exact ⟨okOr_ok.mp hd, hfrom⟩

/-- What an earlier array gives is a root the register can be derived from. -/
theorem compareThisAgainstPrev_ok {reg : Register} {tyName : String} {entries : List Entry}
    {p : RegisterPath}
    (h : compareThisAgainstPrev crates index fuel path reg tyName entries = .ok (some p)) :
    ∃ source, index.registers p = some source ∧ source.info.derivedFrom = none ∧
      isDerivable source reg = true := by
  induction entries with
  | nil => exact absurd (gen_pure_ok.mp h) (by simp)
  | cons prev rest ih =>
      rw [compareThisAgainstPrev] at h
      split at h
      · split at h
        · obtain ⟨⟨source, rpath⟩, hroot, h⟩ := gen_bind_ok.mp h
          simp only at h
          by_cases hderivable : isDerivable source reg = true
          · rw [if_pos hderivable] at h
            obtain rfl : rpath = p := Option.some.inj (gen_pure_ok.mp h)
            obtain ⟨hindex, hfrom⟩ := findRoot_ok hroot
            exact ⟨source, hindex, hfrom, hderivable⟩
          · rw [if_neg hderivable] at h
            exact ih h
        · exact ih h
      · exact ih h

variable {reg : Register} {tyName : String} {re : String → Bool}

/-- What a scan with result `final` may have done to an entry: roots stay roots
unless the array turns them, and a new implicit derivation leads to the array if
it is a root, or to the root it has taken. -/
structure Outcome (crates : Crates) (index : Index) (fuel : Nat) (path : BlockPath)
    (reg : Register) (tyName : String) (re : String → Bool) (final : DeriveInfo) (e e' : Entry) :
    Prop where
  erc_eq : e'.erc = e.erc
  stays_root : e.info = .root → e'.info = .root ∨ Flips reg re e
  implicit : ∀ p, e'.info = .implicit p → e.info = .implicit p ∨ Flips reg re e ∧
    (final = .root ∧ (∃ source, findRoot crates index fuel tyName path = .ok (source, p)) ∨
      final = .implicit p)

theorem Outcome.refl (final : DeriveInfo) (e : Entry) :
    Outcome crates index fuel path reg tyName re final e e :=
  ⟨rfl, .inl, fun _ h => .inl h⟩

/-- Where nothing is turned the result of the scan does not matter. -/
theorem Outcome.of_not_flips {final final' : DeriveInfo} {e e' : Entry}
    (h : Outcome crates index fuel path reg tyName re final e e') (hnot : ¬ Flips reg re e) :
    Outcome crates index fuel path reg tyName re final' e e' where
  erc_eq := h.erc_eq
  stays_root := h.stays_root
  implicit p hp := (h.implicit p hp).imp_right fun hflips => absurd hflips.1 hnot

/-- Redirecting for a root changes nothing. -/
theorem redirect_root {prevInfo info : DeriveInfo}
    (h : redirect crates index fuel path tyName .root prevInfo = .ok info) : info = prevInfo :=
  (gen_pure_ok.mp h).symm

/-- Redirecting keeps explicit derivations explicit and touches implicit ones
only if they lead to the name of the array. -/
theorem redirect_implicit {q : RegisterPath} {prevInfo info : DeriveInfo}
    (h : redirect crates index fuel path tyName (.implicit q) prevInfo = .ok info) :
    (prevInfo = .root → info = .root) ∧
      ∀ p, info = .implicit p → ∃ p', prevInfo = .implicit p' ∧
        (p' = p ∧ p'.name ≠ tyName ∨ p'.name = tyName ∧
          ∃ source, findRoot crates index fuel q.name path = .ok (source, p)) := by
  cases prevInfo with
  | root =>
      obtain rfl : DeriveInfo.root = info := gen_pure_ok.mp h
      exact ⟨fun _ => rfl, by simp⟩
  | cluster =>
      obtain rfl : DeriveInfo.cluster = info := gen_pure_ok.mp h
      exact ⟨by simp, by simp⟩
  | explicit their =>
      refine ⟨by simp, ?_⟩
      intro p hp
      subst hp
      rw [redirect] at h
      split at h
      · obtain ⟨⟨_, root⟩, -, h⟩ := gen_bind_ok.mp h
        exact absurd (gen_pure_ok.mp h) (by simp)
      · exact absurd (gen_pure_ok.mp h) (by simp)
  | implicit their =>
      refine ⟨by simp, ?_⟩
      intro p hp
      subst hp
      rw [redirect] at h
      by_cases hname : their.name = tyName
      · rw [if_pos hname] at h
        obtain ⟨⟨source, root⟩, hroot, h⟩ := gen_bind_ok.mp h
        obtain rfl : root = p := DeriveInfo.implicit.inj (gen_pure_ok.mp h)
        exact ⟨their, rfl, .inr ⟨hname, source, hroot⟩⟩
      · rw [if_neg hname] at h
        obtain rfl : their = p := DeriveInfo.implicit.inj (gen_pure_ok.mp h)
        exact ⟨their, rfl, .inl ⟨rfl, hname⟩⟩

/-- A single with an explicit derivation hands on the root of its root. -/
theorem handsOn_explicit_iff {e : Entry} {info : RegisterInfo} {rpath q q' : RegisterPath}
    {source : Register} (herc : e.erc = .register (.single info)) (hmatch : re e.tyName = true)
    (hinfo : e.info = .explicit rpath)
    (hroot : findRoot crates index fuel rpath.name path = .ok (source, q)) :
    HandsOn crates index path fuel reg re e q' ↔ q = q' ∧ isDerivable source reg = true := by
  constructor
  · intro hands
    obtain ⟨_, _, _, ⟨rpath', source', hinfo', hroot', hderivable⟩ | ⟨_, _, hinfo', _⟩⟩ := hands
    · obtain rfl := DeriveInfo.explicit.inj (hinfo.symm.trans hinfo')
      obtain ⟨rfl, rfl⟩ := Prod.mk.inj (Except.ok.inj (hroot.symm.trans hroot'))
      exact ⟨rfl, hderivable⟩
    · simp [hinfo] at hinfo'
  · intro h
    obtain ⟨rfl, hderivable⟩ := h
    exact ⟨info, herc, hmatch, .inl ⟨rpath, source, hinfo, hroot, hderivable⟩⟩

/-- One that derives implicitly hands on the root it has. -/
theorem handsOn_implicit_iff {e : Entry} {info : RegisterInfo} {rpath r q' : RegisterPath}
    {source : Register} (herc : e.erc = .register (.single info)) (hmatch : re e.tyName = true)
    (hinfo : e.info = .implicit rpath)
    (hroot : findRoot crates index fuel rpath.name path = .ok (source, r)) :
    HandsOn crates index path fuel reg re e q' ↔ rpath = q' ∧ isDerivable source reg = true := by
  constructor
  · intro hands
    obtain ⟨_, _, _, ⟨_, _, hinfo', _⟩ | ⟨source', r', hinfo', hroot', hderivable⟩⟩ := hands
    · simp [hinfo] at hinfo'
    · obtain rfl := DeriveInfo.implicit.inj (hinfo.symm.trans hinfo')
      obtain ⟨rfl, rfl⟩ := Prod.mk.inj (Except.ok.inj (hroot.symm.trans hroot'))
      exact ⟨rfl, hderivable⟩
  · intro h
    obtain ⟨rfl, hderivable⟩ := h
    exact ⟨info, herc, hmatch, .inr ⟨source, r, hinfo, hroot, hderivable⟩⟩

/-- What a matching single hands on, and what becomes of its own derive info. -/
structure LoopOutcome (crates : Crates) (index : Index) (fuel : Nat) (path : BlockPath)
    (reg : Register) (tyName : String) (re : String → Bool) (e : Entry)
    (loopInfo prevInfo : DeriveInfo) : Prop where
  hands : loopInfo = .root ∧ (∀ q, ¬ HandsOn crates index path fuel reg re e q) ∨
    ∃ q, loopInfo = .implicit q ∧ HandsOn crates index path fuel reg re e q ∧ prevInfo = e.info
  prev : prevInfo = e.info ∨ Flips reg re e ∧ ∃ source p,
    findRoot crates index fuel tyName path = .ok (source, p) ∧ prevInfo = .implicit p

theorem loopDeriveInfo_ok {e : Entry} {info : RegisterInfo} {loopInfo prevInfo : DeriveInfo}
    (herc : e.erc = .register (.single info)) (hmatch : re e.tyName = true)
    (h : loopDeriveInfo crates index fuel path reg tyName (.single info) e.info =
      .ok (loopInfo, prevInfo)) :
    LoopOutcome crates index fuel path reg tyName re e loopInfo prevInfo := by
  unfold loopDeriveInfo at h
  cases hinfo : e.info with
  | cluster =>
      rw [hinfo] at h
      exact (bail_ok.mp h).elim
  | root =>
      rw [hinfo] at h
      obtain ⟨⟨source, p⟩, hroot, h⟩ := gen_bind_ok.mp h
      obtain ⟨rfl, hprev⟩ := Prod.mk.inj (gen_pure_ok.mp h)
      refine ⟨.inl ⟨rfl, ?_⟩, ?_⟩
      · intro q hands
        obtain ⟨_, _, _, ⟨_, _, hcontra, _⟩ | ⟨_, _, hcontra, _⟩⟩ := hands
        · simp [hinfo] at hcontra
        · simp [hinfo] at hcontra
      · by_cases hderivable : isDerivable (.single info) reg = true
        · rw [if_pos hderivable] at hprev
          exact .inr ⟨⟨info, herc, hmatch, hinfo, hderivable⟩, source, p, hroot, hprev.symm⟩
        · rw [if_neg hderivable] at hprev
          exact .inl (hprev.symm.trans hinfo.symm)
  | explicit rpath =>
      rw [hinfo] at h
      obtain ⟨⟨source, q⟩, hroot, h⟩ := gen_bind_ok.mp h
      obtain ⟨hloop, rfl⟩ := Prod.mk.inj (gen_pure_ok.mp h)
      refine ⟨?_, .inl hinfo.symm⟩
      simp only [handsOn_explicit_iff herc hmatch hinfo hroot]
      by_cases hderivable : isDerivable source reg = true
      · rw [if_pos hderivable] at hloop
        exact .inr ⟨q, hloop.symm, ⟨rfl, hderivable⟩, hinfo.symm⟩
      · rw [if_neg hderivable] at hloop
        exact .inl ⟨hloop.symm, fun _ hands => hderivable hands.2⟩
  | implicit rpath =>
      rw [hinfo] at h
      obtain ⟨⟨source, r⟩, hroot, h⟩ := gen_bind_ok.mp h
      obtain ⟨hloop, rfl⟩ := Prod.mk.inj (gen_pure_ok.mp h)
      refine ⟨?_, .inl hinfo.symm⟩
      simp only [handsOn_implicit_iff herc hmatch hinfo hroot]
      by_cases hderivable : isDerivable source reg = true
      · rw [if_pos hderivable] at hloop
        exact .inr ⟨rpath, hloop.symm, ⟨rfl, hderivable⟩, hinfo.symm⟩
      · rw [if_neg hderivable] at hloop
        exact .inl ⟨hloop.symm, fun _ hands => hderivable hands.2⟩

/-! The three ways of a visit: an earlier single that matches, one that does not, and
anything else. -/

theorem visitPrev_of_matches {my : DeriveInfo} {e : Entry} {info : RegisterInfo}
    (herc : e.erc = .register (.single info)) (hmatch : re e.tyName = true) :
    visitPrev crates index fuel path reg tyName re my e =
      (loopDeriveInfo crates index fuel path reg tyName (.single info) e.info >>= fun infos =>
        redirect crates index fuel path tyName (if my = .root then infos.1 else my) infos.2 >>=
          fun final => return (if my = .root then infos.1 else my, { e with info := final })) := by
  rw [visitPrev, herc]
  exact if_pos hmatch

theorem visitPrev_of_not_matches {my : DeriveInfo} {e : Entry} {info : RegisterInfo}
    (herc : e.erc = .register (.single info)) (hmatch : ¬ re e.tyName = true) :
    visitPrev crates index fuel path reg tyName re my e =
      (redirect crates index fuel path tyName my e.info >>= fun final =>
        return (my, { e with info := final })) := by
  rw [visitPrev, herc]
  exact if_neg hmatch

theorem visitPrev_of_not_single {my : DeriveInfo} {e : Entry}
    (hsingle : ¬ ∃ info, e.erc = .register (.single info)) :
    visitPrev crates index fuel path reg tyName re my e = .ok (my, e) := by
  unfold visitPrev
  split
  · next info herc => exact absurd ⟨info, herc⟩ hsingle
  · rfl

/-- A visit skips an entry, or redirects it, or turns it and hands on first. -/
theorem visitPrev_ok {my my' : DeriveInfo} {e e' : Entry}
    (h : visitPrev crates index fuel path reg tyName re my e = .ok (my', e')) :
    (my' = my ∧ e' = e ∧ ∀ q, ¬ HandsOn crates index path fuel reg re e q) ∨
    ∃ loopInfo prevInfo info, e' = { e with info := info } ∧
      redirect crates index fuel path tyName my' prevInfo = .ok info ∧
      my' = (if my = .root then loopInfo else my) ∧
      LoopOutcome crates index fuel path reg tyName re e loopInfo prevInfo := by
  by_cases hsingle : ∃ info, e.erc = .register (.single info)
  · obtain ⟨info, herc⟩ := hsingle
    by_cases hmatch : re e.tyName = true
    · rw [visitPrev_of_matches herc hmatch] at h
      obtain ⟨⟨loopInfo, prevInfo⟩, hloop, h⟩ := gen_bind_ok.mp h
      obtain ⟨final, hredirect, h⟩ := gen_bind_ok.mp h
      obtain ⟨rfl, rfl⟩ := Prod.mk.inj (gen_pure_ok.mp h)
      exact .inr ⟨loopInfo, prevInfo, final, rfl, hredirect, rfl, loopDeriveInfo_ok herc hmatch hloop⟩
    · rw [visitPrev_of_not_matches herc hmatch] at h
      obtain ⟨final, hredirect, h⟩ := gen_bind_ok.mp h
      obtain ⟨rfl, rfl⟩ := Prod.mk.inj (gen_pure_ok.mp h)
      refine .inr ⟨.root, e.info, final, rfl, hredirect, ?_, .inl ⟨rfl, ?_⟩, .inl rfl⟩
      · split
        · assumption
        · rfl
      · intro q hands
        obtain ⟨_, _, hmatch', _⟩ := hands
        exact hmatch hmatch'
  · rw [visitPrev_of_not_single hsingle] at h
    obtain ⟨rfl, rfl⟩ := Prod.mk.inj (Except.ok.inj h)
    refine .inl ⟨rfl, rfl, ?_⟩
    intro q hands
    obtain ⟨info, herc, _⟩ := hands
    exact hsingle ⟨info, herc⟩

/-- Once the array has taken the root `q`, a visit keeps it and leads every path
to the array there. -/
theorem visitPrev_implicit {q : RegisterPath} {my' : DeriveInfo} {e e' : Entry}
    (h : visitPrev crates index fuel path reg tyName re (.implicit q) e = .ok (my', e'))
    (hunnamed : ∀ p, e.info = .implicit p → p.name ≠ tyName)
    (hredirected : Flips reg re e →
      (∀ source p, findRoot crates index fuel tyName path = .ok (source, p) → p.name = tyName) ∧
        ∀ source p, findRoot crates index fuel q.name path = .ok (source, p) → p = q) :
    my' = .implicit q ∧ Outcome crates index fuel path reg tyName re (.implicit q) e e' := by
  obtain ⟨rfl, rfl, -⟩ | ⟨loopInfo, prevInfo, info, rfl, hredirect, hmy, -, hprev⟩ := visitPrev_ok h
  · exact ⟨rfl, .refl _ _⟩
  · rw [if_neg (by simp)] at hmy
    subst hmy
    refine ⟨rfl, rfl, ?_, ?_⟩
    · intro hroot
      obtain rfl | hflips := hprev
      · exact .inl ((redirect_implicit hredirect).1 hroot)
      · exact .inr hflips.1
    · intro p hp
      obtain ⟨p', hp', hcase⟩ := (redirect_implicit hredirect).2 p hp
      obtain rfl | ⟨hflips, source, own, hown, hown'⟩ := hprev
      · obtain ⟨rfl, -⟩ | ⟨hname, -⟩ := hcase
        · exact .inl hp'
        · exact absurd hname (hunnamed p' hp')
      · obtain rfl : own = p' := DeriveInfo.implicit.inj (hown'.symm.trans hp')
        obtain ⟨hself, hback⟩ := hredirected hflips
        obtain ⟨-, hname⟩ | ⟨-, source', hroot⟩ := hcase
        · exact absurd (hself source own hown) hname
        · rw [hback source' p hroot]
          exact .inr ⟨hflips, .inr rfl⟩

/-- As long as the array is a root, a visit keeps it so or takes what the single
hands on. -/
theorem visitPrev_root {my' : DeriveInfo} {e e' : Entry}
    (h : visitPrev crates index fuel path reg tyName re .root e = .ok (my', e')) :
    (my' = .root ∧ (∀ q, ¬ HandsOn crates index path fuel reg re e q) ∧
      Outcome crates index fuel path reg tyName re .root e e') ∨
    ∃ q, my' = .implicit q ∧ HandsOn crates index path fuel reg re e q ∧
      ((∀ p, e.info = .implicit p → p.name ≠ tyName) →
        Outcome crates index fuel path reg tyName re (.implicit q) e e') := by
  obtain ⟨rfl, rfl, hno⟩ | ⟨loopInfo, prevInfo, info, rfl, hredirect, hmy, hhands, hprev⟩ :=
    visitPrev_ok h
  · exact .inl ⟨rfl, hno, .refl _ _⟩
  · rw [if_pos rfl] at hmy
    subst hmy
    obtain ⟨rfl, hno⟩ | ⟨q, rfl, hands, rfl⟩ := hhands
    · obtain rfl := redirect_root hredirect
      refine .inl ⟨rfl, hno, rfl, ?_, ?_⟩
      · intro hroot
        obtain rfl | hflips := hprev
        · exact .inl hroot
        · exact .inr hflips.1
      · intro p hp
        obtain rfl | ⟨hflips, source, own, hown, rfl⟩ := hprev
        · exact .inl hp
        · obtain rfl : own = p := DeriveInfo.implicit.inj hp
          exact .inr ⟨hflips, .inl ⟨rfl, source, hown⟩⟩
    · refine .inr ⟨q, rfl, hands, fun hunnamed => ⟨rfl, ?_, ?_⟩⟩
      · intro hroot
        exact .inl ((redirect_implicit hredirect).1 hroot)
      · intro p hp
        obtain ⟨p', hp', ⟨rfl, -⟩ | ⟨hname, -⟩⟩ := (redirect_implicit hredirect).2 p hp
        · exact .inl hp'
        · exact absurd hname (hunnamed p' hp')

/-- One visit of a scan that returns. -/
theorem comparePrevAgainstThis_cons_ok {my final : DeriveInfo} {e : Entry}
    {rest entries' : List Entry}
    (h : comparePrevAgainstThis crates index fuel path reg tyName re my (e :: rest) =
      .ok (final, entries')) :
    ∃ my' e' rest', visitPrev crates index fuel path reg tyName re my e = .ok (my', e') ∧
      comparePrevAgainstThis crates index fuel path reg tyName re my' rest = .ok (final, rest') ∧
      entries' = e' :: rest' := by
  obtain ⟨⟨my', e'⟩, hvisit, h⟩ := gen_bind_ok.mp h
  obtain ⟨⟨final', rest'⟩, hrest, h⟩ := gen_bind_ok.mp h
  obtain ⟨rfl, rfl⟩ := Prod.mk.inj (gen_pure_ok.mp h)
  exact ⟨my', e', rest', hvisit, hrest, rfl⟩

/-- A scan of an array that has taken the root `q`. -/
theorem comparePrevAgainstThis_implicit {q : RegisterPath} {final : DeriveInfo}
    {entries entries' : List Entry}
    (h : comparePrevAgainstThis crates index fuel path reg tyName re (.implicit q) entries =
      .ok (final, entries'))
    (hunnamed : ∀ e ∈ entries, ∀ p, e.info = .implicit p → p.name ≠ tyName)
    (hredirected : ∀ e ∈ entries, Flips reg re e →
      (∀ source p, findRoot crates index fuel tyName path = .ok (source, p) → p.name = tyName) ∧
        ∀ source p, findRoot crates index fuel q.name path = .ok (source, p) → p = q) :
    final = .implicit q ∧
      List.Forall₂ (Outcome crates index fuel path reg tyName re (.implicit q)) entries entries' := by
  induction entries generalizing entries' with
  | nil =>
      have h := gen_pure_ok.mp h
      rw [Prod.mk.injEq] at h
      exact ⟨h.1.symm, h.2 ▸ .nil⟩
  | cons e rest ih =>
      obtain ⟨my, e', rest', hvisit, hrest, rfl⟩ := comparePrevAgainstThis_cons_ok h
      obtain ⟨rfl, houtcome⟩ := visitPrev_implicit hvisit (hunnamed e List.mem_cons_self)
        (hredirected e List.mem_cons_self)
      obtain ⟨hfinal, hall⟩ := ih hrest (fun e he => hunnamed e (List.mem_cons_of_mem _ he))
        fun e he => hredirected e (List.mem_cons_of_mem _ he)
      exact ⟨hfinal, .cons houtcome hall⟩

/-- A scan of an array that is a root so far: it stays one, or some first single
hands a root on. -/
theorem comparePrevAgainstThis_root {final : DeriveInfo} {entries entries' : List Entry}
    (h : comparePrevAgainstThis crates index fuel path reg tyName re .root entries =
      .ok (final, entries')) :
    (final = .root ∧ (∀ e ∈ entries, ∀ q, ¬ HandsOn crates index path fuel reg re e q) ∧
      List.Forall₂ (Outcome crates index fuel path reg tyName re .root) entries entries') ∨
    ∃ before e after q, entries = before ++ e :: after ∧
      HandsOn crates index path fuel reg re e q ∧
      (∀ e' ∈ before, ∀ q', ¬ HandsOn crates index path fuel reg re e' q') ∧
      ∀ entries₀, TakesHandedOn crates index path fuel reg tyName re entries₀ before (e :: after) q →
        final = .implicit q ∧ List.Forall₂
          (Outcome crates index fuel path reg tyName re (.implicit q)) entries entries' := by
  induction entries generalizing entries' with
  | nil =>
      have h := gen_pure_ok.mp h
      rw [Prod.mk.injEq] at h
      exact .inl ⟨h.1.symm, by simp, h.2 ▸ .nil⟩
  | cons e rest ih =>
      obtain ⟨my, e', rest', hvisit, hrest, rfl⟩ := comparePrevAgainstThis_cons_ok h
      obtain ⟨rfl, hno, houtcome⟩ | ⟨q, rfl, hands, houtcome⟩ := visitPrev_root hvisit
      · obtain ⟨hfinal, hnone, hall⟩ | ⟨before, f, after, q, rfl, hands, hfirst, htakes⟩ := ih hrest
        · refine .inl ⟨hfinal, ?_, .cons houtcome hall⟩
          intro f hf
          obtain rfl | hf := List.mem_cons.mp hf
          · exact hno
          · exact hnone f hf
        · refine .inr ⟨e :: before, f, after, q, rfl, hands, ?_, ?_⟩
          · intro g hg
            obtain rfl | hg := List.mem_cons.mp hg
            · exact hno
            · exact hfirst g hg
          · intro entries₀ hsafe
            obtain ⟨hfinal, hall⟩ := htakes entries₀ { hsafe with
              none_turned := fun g hg => hsafe.none_turned g (List.mem_cons_of_mem _ hg) }
            exact ⟨hfinal, .cons
              (houtcome.of_not_flips (hsafe.none_turned e List.mem_cons_self)) hall⟩
      · refine .inr ⟨[], e, rest, q, rfl, hands, by simp, ?_⟩
        intro entries₀ hsafe
        obtain ⟨hfinal, hall⟩ := comparePrevAgainstThis_implicit hrest
          (fun f hf => hsafe.unnamed f (List.mem_cons_of_mem _ hf))
          fun f hf => hsafe.redirected f (List.mem_cons_of_mem _ hf)
        exact ⟨hfinal, .cons (houtcome (hsafe.unnamed e List.mem_cons_self)) hall⟩

/-! ## One step keeps the promise -/

/-- A turned single can be derived from whatever the array can. -/
theorem Flips.derivesFrom {e : Entry} {source : Register} (h : Flips reg re e)
    (hsource : isDerivable source reg = true) : e.erc.DerivesFrom source := by
  obtain ⟨info, herc, -, -, hderivable⟩ := h
  rw [herc]
  simp only [RegisterCluster.DerivesFrom, isDerivable, Bool.and_eq_true, decide_eq_true_eq] at *
  exact ⟨hsource.1.trans hderivable.1.symm, hsource.2.trans hderivable.2.symm⟩

/-- A new entry that no earlier one derives from, unless it is a root itself. -/
theorem EntriesRooted.append {entries : List Entry} {new : Entry}
    (h : EntriesRooted crates index path entries)
    (hfree : new.info = .root ∨ ¬ Targeted crates path entries new.erc)
    (hnew : ∀ p, new.info = .implicit p → TakesSafely crates path entries new.erc p ∧
      ∃ source, index.registers p = some source ∧ source.info.derivedFrom = none ∧
        new.erc.DerivesFrom source) : EntriesRooted crates index path (entries ++ [new]) := by
  intro e hmem p hp
  obtain he | rfl := List.mem_append.mp hmem |>.imp_right List.mem_singleton.mp
  · obtain ⟨hexists, htarget⟩ := h e he p hp
    refine ⟨hexists, ?_⟩
    intro f hf hat
    obtain hf | hf := List.mem_append.mp hf
    · exact htarget f hf hat
    · rw [List.mem_singleton.mp hf] at hat ⊢
      exact hfree.resolve_right (not_not.mpr ⟨e, he, p, hp, hat⟩)
  · obtain ⟨hsafe, hexists⟩ := hnew p hp
    refine ⟨hexists, ?_⟩
    intro f hf hat
    obtain hf | hf := List.mem_append.mp hf
    · exact hsafe.settled f hf hat
    · rw [List.mem_singleton.mp hf] at hat
      exact absurd hat hsafe.not_self

/-- Roots that are not turned stay roots through a scan. -/
theorem Outcome.root_of_forall {final : DeriveInfo} {entries entries' : List Entry}
    {p : RegisterPath}
    (hall : List.Forall₂ (Outcome crates index fuel path reg tyName re final) entries entries')
    (hroot : ∀ e ∈ entries, e.erc.IsAt crates path p → e.info = .root ∧ ¬ Flips reg re e) :
    ∀ e' ∈ entries', e'.erc.IsAt crates path p → e'.info = .root := by
  intro e' he' hat
  obtain ⟨e, he, houtcome⟩ := exists_of_forall₂_mem hall he'
  rw [houtcome.erc_eq] at hat
  obtain ⟨hinfo, hnot⟩ := hroot e he hat
  exact (houtcome.stays_root hinfo).resolve_right hnot

/-- **Scan, the array stays a root.**  Entries before it may now take it for their root, which
it is. -/
theorem EntriesRooted.scan_root {entries entries' : List Entry}
    (h : EntriesRooted crates index path entries)
    (hsafe : SafeScan crates index path fuel reg tyName re entries)
    (hnone : ∀ e ∈ entries, ∀ q, ¬ HandsOn crates index path fuel reg re e q)
    (hall : List.Forall₂ (Outcome crates index fuel path reg tyName re .root) entries entries') :
    EntriesRooted crates index path
      (entries' ++ [⟨tyName, some re, .register reg, .root⟩]) := by
  intro x hx p hp
  obtain hx | rfl := List.mem_append.mp hx |>.imp_right List.mem_singleton.mp
  · obtain ⟨e, he, houtcome⟩ := exists_of_forall₂_mem hall hx
    have htarget : (∀ f ∈ entries, f.erc.IsAt crates path p → f.info = .root ∧ ¬ Flips reg re f) →
        ∀ y ∈ entries' ++ [⟨tyName, some re, .register reg, .root⟩],
          y.erc.IsAt crates path p → y.info = .root := by
      intro hroot y hy hat
      obtain hy | rfl := List.mem_append.mp hy |>.imp_right List.mem_singleton.mp
      · exact Outcome.root_of_forall hall hroot y hy hat
      · rfl
    obtain hold | ⟨hflips, ⟨-, source, hown⟩ | hcontra⟩ := houtcome.implicit p hp
    · -- the single was implicit before; what it derives from is not turned
      obtain ⟨hexists, hroots⟩ := h e he p hold
      refine ⟨houtcome.erc_eq ▸ hexists, htarget ?_⟩
      intro f hf hat
      exact ⟨hroots f hf hat,
        fun hflips => hsafe.not_targeted f hf hflips ⟨e, he, p, hold, hat⟩⟩
    · -- the single derives from the array now
      obtain ⟨hderivable, hnobody⟩ := hsafe.looks_itself_up hnone e he hflips source p hown
      obtain ⟨hindex, hfrom⟩ := findRoot_ok hown
      refine ⟨⟨source, hindex, hfrom, houtcome.erc_eq ▸ hflips.derivesFrom hderivable⟩,
        htarget ?_⟩
      intro f hf hat
      exact absurd hat (hnobody f hf)
    · simp at hcontra
  · simp at hp

/-- **Scan, the array takes a root.**  What it takes is the root that an earlier entry hands on,
which derives from nothing. -/
theorem EntriesRooted.scan_implicit {entries entries' before after : List Entry} {e₀ : Entry}
    {q : RegisterPath} (h : EntriesRooted crates index path entries)
    (hsafe : SafeScan crates index path fuel reg tyName re entries)
    (hsplit : entries = before ++ e₀ :: after)
    (hands : HandsOn crates index path fuel reg re e₀ q)
    (htakes : TakesHandedOn crates index path fuel reg tyName re entries before (e₀ :: after) q)
    (hall : List.Forall₂ (Outcome crates index fuel path reg tyName re (.implicit q)) entries
      entries') :
    EntriesRooted crates index path
      (entries' ++ [⟨tyName, some re, .register reg, .implicit q⟩]) := by
  have he₀ : e₀ ∈ entries := by simp [hsplit]
  obtain ⟨source, hindex, hfrom⟩ : ∃ source, index.registers q = some source ∧
      source.info.derivedFrom = none := by
    obtain ⟨_, _, _, ⟨_, source, _, hroot, _⟩ | ⟨_, _, hinfo, _, _⟩⟩ := hands
    · exact ⟨source, findRoot_ok hroot⟩
    · obtain ⟨⟨source, hindex, hfrom, -⟩, -⟩ := h e₀ he₀ q hinfo
      exact ⟨source, hindex, hfrom⟩
  have hderivable := htakes.source source hindex
  -- nothing at the taken root is turned
  have hroots : ∀ f ∈ entries, f.erc.IsAt crates path q → f.info = .root ∧ ¬ Flips reg re f := by
    intro f hf hat
    refine ⟨htakes.takes.settled f hf hat, ?_⟩
    intro hflips
    rw [hsplit] at hf
    obtain hf | hf := List.mem_append.mp hf
    · exact htakes.none_turned f hf hflips
    · exact htakes.turned_elsewhere f hf hflips hat
  have htarget : ∀ y ∈ entries' ++ [⟨tyName, some re, .register reg, .implicit q⟩],
      y.erc.IsAt crates path q → y.info = .root := by
    intro y hy hat
    obtain hy | rfl := List.mem_append.mp hy |>.imp_right List.mem_singleton.mp
    · exact Outcome.root_of_forall hall hroots y hy hat
    · exact absurd hat htakes.takes.not_self
  intro x hx p hp
  obtain hx | rfl := List.mem_append.mp hx |>.imp_right List.mem_singleton.mp
  · obtain ⟨e, he, houtcome⟩ := exists_of_forall₂_mem hall hx
    obtain hold | ⟨hflips, ⟨hcontra, -⟩ | hfinal⟩ := houtcome.implicit p hp
    · obtain ⟨hexists, hold'⟩ := h e he p hold
      refine ⟨houtcome.erc_eq ▸ hexists, ?_⟩
      intro y hy hat
      obtain hy | rfl := List.mem_append.mp hy |>.imp_right List.mem_singleton.mp
      · refine Outcome.root_of_forall hall (fun f hf hatf => ⟨hold' f hf hatf, ?_⟩) y hy hat
        intro hflips
        exact hsafe.not_targeted f hf hflips ⟨e, he, p, hold, hatf⟩
      · exact absurd ⟨e, he, p, hold, hat⟩ htakes.takes.not_targeted
    · simp at hcontra
    · obtain rfl : q = p := DeriveInfo.implicit.inj hfinal
      exact ⟨⟨source, hindex, hfrom, houtcome.erc_eq ▸ hflips.derivesFrom hderivable⟩, htarget⟩
  · obtain rfl : q = p := DeriveInfo.implicit.inj hp
    exact ⟨⟨source, hindex, hfrom, hderivable⟩, htarget⟩

/-- What a round does for a register: the pattern and the derive info it gets, and the
earlier entries as the round leaves them. -/
inductive RegisterRound (crates : Crates) (config : Config) (index : Index) (fuel : Nat)
    (path : BlockPath) (reg : Register) (entries : List Entry) :
    Option (String → Bool) → DeriveInfo → List Entry → Prop
  | explicit {regex : Option (String → Bool)} {dpath : String} {source : Register}
      {p : RegisterPath} (hfrom : reg.info.derivedFrom = some dpath)
      (hroot : findRoot crates index fuel dpath path = .ok (source, p)) :
      RegisterRound crates config index fuel path reg entries regex (.explicit p) entries
  | root {regex : Option (String → Bool)} (hfrom : reg.info.derivedFrom = none) :
      RegisterRound crates config index fuel path reg entries regex .root entries
  | implicit {regex : Option (String → Bool)} {p : RegisterPath}
      (hfrom : reg.info.derivedFrom = none)
      (hfound : compareThisAgainstPrev crates index fuel path reg
        (reg.info.fullname config.ignoreGroups) entries = .ok (some p))
      (hother : reg.isSingle = false ∨ reg.info.fullname config.ignoreGroups ≠ p.name) :
      RegisterRound crates config index fuel path reg entries regex (.implicit p) entries
  | scan {re : String → Bool} {info : DeriveInfo} {kept : List Entry}
      (hfrom : reg.info.derivedFrom = none) (harray : reg.isSingle = false)
      (hnone : compareThisAgainstPrev crates index fuel path reg
        (reg.info.fullname config.ignoreGroups) entries = .ok none)
      (hre : crates.regexNew (arrayPattern (reg.info.fullname config.ignoreGroups)) = some re)
      (hscan : comparePrevAgainstThis crates index fuel path reg
        (reg.info.fullname config.ignoreGroups) re .root entries = .ok (info, kept)) :
      RegisterRound crates config index fuel path reg entries (some re) info kept

theorem explicitRpath_ok {reg : Register} {explicit : Option RegisterPath}
    (h : explicitRpath crates index fuel path reg = .ok explicit) :
    explicit = none ∧ reg.info.derivedFrom = none ∨ ∃ dpath source p, explicit = some p ∧
      reg.info.derivedFrom = some dpath ∧
        findRoot crates index fuel dpath path = .ok (source, p) := by
  unfold explicitRpath at h
  cases hfrom : reg.info.derivedFrom with
  | none =>
      rw [hfrom] at h
      exact .inl ⟨(gen_pure_ok.mp h).symm, rfl⟩
  | some dpath =>
      rw [hfrom] at h
      obtain ⟨⟨source, p⟩, hroot, h⟩ := gen_bind_ok.mp h
      exact .inr ⟨dpath, source, p, (gen_pure_ok.mp h).symm, rfl, hroot⟩

/-- A round for a register adds one entry; only arrays have a pattern. -/
theorem checkErc_register_ok {entries entries' : List Entry} {reg : Register}
    (h : checkErc crates config index fuel path entries (.register reg) = .ok entries') :
    ∃ regex info kept, entries' = kept ++
        [⟨reg.info.fullname config.ignoreGroups, regex, .register reg, info⟩] ∧
      (regex.isSome → reg.isSingle = false) ∧
      RegisterRound crates config index fuel path reg entries regex info kept := by
  obtain ⟨explicit, hexplicit, h⟩ := gen_bind_ok.mp h
  cases reg with
  | single info =>
      obtain ⟨rfl, hfrom⟩ | ⟨dpath, source, p, rfl, hfrom, hroot⟩ := explicitRpath_ok hexplicit
      · obtain ⟨found, hfound, h⟩ := gen_bind_ok.mp h
        obtain rfl := gen_pure_ok.mp h
        refine ⟨_, _, _, rfl, (nomatch ·), ?_⟩
        cases found with
        | none => exact .root hfrom
        | some root =>
            by_cases hname : (MaybeArray.single info).info.fullname config.ignoreGroups = root.name
            · simp only [if_pos hname]
              exact .root hfrom
            · simp only [if_neg hname]
              exact .implicit hfrom hfound (.inr hname)
      · obtain rfl := gen_pure_ok.mp h
        exact ⟨_, _, _, rfl, (nomatch ·), .explicit hfrom hroot⟩
  | array info dim =>
      obtain ⟨re, hre, h⟩ := gen_bind_ok.mp h
      obtain ⟨rfl, hfrom⟩ | ⟨dpath, source, p, rfl, hfrom, hroot⟩ := explicitRpath_ok hexplicit
      · obtain ⟨found, hfound, h⟩ := gen_bind_ok.mp h
        cases found with
        | some root =>
            obtain rfl := gen_pure_ok.mp h
            exact ⟨_, _, _, rfl, fun _ => rfl, .implicit hfrom hfound (.inl rfl)⟩
        | none =>
            obtain ⟨⟨final, kept⟩, hscan, h⟩ := gen_bind_ok.mp h
            obtain rfl := gen_pure_ok.mp h
            exact ⟨_, _, _, rfl, fun _ => rfl, .scan hfrom rfl hfound (okOr_ok.mp hre) hscan⟩
      · obtain rfl := gen_pure_ok.mp h
        exact ⟨_, _, _, rfl, fun _ => rfl, .explicit hfrom hroot⟩

/-- **Step.**  A step that meets the condition keeps the promise.  The cases are those of the
scan: the first entry that matches decides what is appended. -/
theorem checkErc_rooted {entries entries' : List Entry} {erc : RegisterCluster}
    (h : EntriesRooted crates index path entries)
    (hsafe : SafeStep crates config index fuel path entries erc)
    (hstep : checkErc crates config index fuel path entries erc = .ok entries') :
    EntriesRooted crates index path entries' := by
  cases erc with
  | cluster cluster =>
      rw [← gen_pure_ok.mp hstep]
      apply h.append
      · refine .inr ?_
        intro htargeted
        obtain ⟨_, _, _, _, hat⟩ := htargeted
        exact hat
      · simp
  | register reg =>
      obtain ⟨regex, info, kept, rfl, -, hround⟩ := checkErc_register_ok hstep
      cases hround with
      | explicit hfrom hroot =>
          -- an explicit derivation only must not take a root away
          have hfree : ¬ Targeted crates path entries (.register reg) := by
            simpa [SafeStep, hfrom] using hsafe
          exact h.append (.inr hfree) (by simp)
      | root hfrom => exact h.append (.inl rfl) (by simp)
      | @implicit _ root hfrom hfound hother =>
          simp only [SafeStep, hfrom, Option.isSome_none, Bool.false_eq_true, if_false] at hsafe
          have htakes := hsafe.1 root hfound hother
          refine h.append (.inr htakes.not_targeted) ?_
          intro p hp
          obtain rfl : root = p := DeriveInfo.implicit.inj hp
          exact ⟨htakes, compareThisAgainstPrev_ok hfound⟩
      | @scan re _ _ hfrom harray hnone hre hscan =>
          simp only [SafeStep, hfrom, Option.isSome_none, Bool.false_eq_true, if_false] at hsafe
          have hsafe := hsafe.2 hnone harray re hre
          obtain ⟨rfl, hnone, hall⟩ | ⟨before, e₀, after, q, hsplit, hands, hfirst, htakes⟩ :=
            comparePrevAgainstThis_root hscan
          · exact h.scan_root hsafe hnone hall
          · have htakesq := hsafe.handed_on before e₀ after q hsplit hands hfirst
            obtain ⟨rfl, hall⟩ := htakes entries htakesq
            exact h.scan_implicit hsafe hsplit hands htakesq hall

/-! ## The whole scan -/

theorem visitPrev_erc {my my' : DeriveInfo} {e e' : Entry}
    (h : visitPrev crates index fuel path reg tyName re my e = .ok (my', e')) : e'.erc = e.erc := by
  obtain ⟨-, rfl, -⟩ | ⟨_, _, _, rfl, -⟩ := visitPrev_ok h
  · rfl
  · rfl

theorem comparePrevAgainstThis_ercs {my final : DeriveInfo} {entries entries' : List Entry}
    (h : comparePrevAgainstThis crates index fuel path reg tyName re my entries =
      .ok (final, entries')) : entries'.map (·.erc) = entries.map (·.erc) := by
  induction entries generalizing my final entries' with
  | nil =>
      have h := gen_pure_ok.mp h
      rw [Prod.mk.injEq] at h
      rw [← h.2]
  | cons e rest ih =>
      obtain ⟨my', e', rest', hvisit, hrest, rfl⟩ := comparePrevAgainstThis_cons_ok h
      rw [List.map_cons, List.map_cons, visitPrev_erc hvisit, ih hrest]

/-- A step adds one entry, for the register or cluster it reads. -/
theorem checkErc_ercs {entries entries' : List Entry} {erc : RegisterCluster}
    (h : checkErc crates config index fuel path entries erc = .ok entries') :
    entries'.map (·.erc) = entries.map (·.erc) ++ [erc] := by
  cases erc with
  | cluster cluster =>
      rw [← gen_pure_ok.mp h]
      simp
  | register reg =>
      obtain ⟨regex, info, kept, rfl, -, hround⟩ := checkErc_register_ok h
      have hkept : kept.map (·.erc) = entries.map (·.erc) := by
        cases hround with
        | explicit hfrom hroot => rfl
        | root hfrom => rfl
        | implicit hfrom hfound hother => rfl
        | scan hfrom harray hnone hre hscan => exact comparePrevAgainstThis_ercs hscan
      rw [List.map_append, hkept]
      rfl

/-- What holds after a safe run over some of the registers and clusters. -/
theorem entriesRooted_of_safeRun {ercs : List RegisterCluster} {entries : List Entry}
    (hsafe : SafeRun (checkErc crates config index fuel path)
      (SafeStep crates config index fuel path) [] ercs)
    (hrun : ercs.foldlM (checkErc crates config index fuel path) [] = .ok entries) :
    EntriesRooted crates index path entries ∧ entries.map (·.erc) = ercs := by
  have hstart : EntriesRooted crates index path [] ∧ ([] : List Entry).map (·.erc) = [] :=
    ⟨by simp [EntriesRooted], rfl⟩
  have hinv := @invariant_of_safeRun _ _ _ _ _
    (fun before entries => EntriesRooted crates index path entries ∧
      entries.map (·.erc) = before)
    (fun h hsafe hstep => ⟨checkErc_rooted h.1 hsafe hstep, by rw [checkErc_ercs hstep, h.2]⟩)
    _ _ _ _ hstart hsafe hrun
  simpa using hinv

/-- **Implicit derivation points to roots.**  In a scan whose steps all meet the condition
every state reached keeps the promise, and so does the vector that is returned.  A step that
appends keeps the promise of the entries before it, since a root is never redirected while the
condition holds; the run lemma is the induction over the steps. -/
theorem implicitRooted_of_safeRun {ercs : List RegisterCluster}
    (hindex : IndexOfBlock crates index path ercs)
    (hsafe : SafeRun (checkErc crates config index fuel path)
      (SafeStep crates config index fuel path) [] ercs) :
    (∀ before after entries, ercs = before ++ after →
      before.foldlM (checkErc crates config index fuel path) [] = .ok entries →
        EntriesRooted crates index path entries) ∧
    ∀ infos, checkErcDeriveInfos crates config index fuel path ercs = .ok infos →
      ∀ entry ∈ ercs.zip infos, ∀ p, entry.2 = .implicit p →
        ImplicitRooted crates index path (ercs.zip infos) entry.1 p := by
  constructor
  · intro before after entries hsplit hrun
    rw [hsplit] at hsafe
    exact (entriesRooted_of_safeRun hsafe.of_append hrun).1
  · intro infos hcheck
    obtain ⟨entries, hrun, hinfos⟩ := gen_bind_ok.mp hcheck
    have hinfos := gen_pure_ok.mp hinfos
    obtain ⟨hrooted, hercs⟩ := entriesRooted_of_safeRun hsafe hrun
    have hzip : ercs.zip infos = entries.map fun e => (e.erc, e.info) := by
      rw [← hercs, ← hinfos, List.zip_map']
    rw [hzip]
    intro entry hentry p hp
    obtain ⟨e, he, rfl⟩ := List.mem_map.mp hentry
    obtain ⟨hexists, htarget⟩ := hrooted e he p hp
    refine ⟨hexists, ?_, ?_⟩
    · -- a register at its own root would be a root
      intro hat
      have hinfo : e.info = .implicit p := hp
      rw [htarget e he hat] at hinfo
      simp at hinfo
    · intro hblock
      constructor
      · obtain ⟨source, hsource, -⟩ := hexists
        obtain ⟨hmem, hat⟩ := hindex p source hblock hsource
        rw [← hercs] at hmem
        obtain ⟨f, hf, hferc⟩ := List.mem_map.mp hmem
        exact ⟨_, List.mem_map_of_mem hf, hferc ▸ hat⟩
      · intro target hmem hat
        obtain ⟨f, hf, rfl⟩ := List.mem_map.mp hmem
        exact htarget f hf hat

end Scan

/-- The first register or cluster of a block always meets the condition. -/
theorem safeStep_nil (crates : Crates) (config : Config) (index : Index) (fuel : Nat)
    (path : BlockPath) (erc : RegisterCluster) :
    SafeStep crates config index fuel path [] erc := by
  cases erc with
  | cluster cluster => trivial
  | register reg =>
      by_cases hexplicit : reg.info.derivedFrom.isSome = true
      · rw [SafeStep, if_pos hexplicit]
        simp [Targeted]
      · rw [SafeStep, if_neg hexplicit]
        refine ⟨?_, ?_⟩
        · intro root hfound
          exact absurd (gen_pure_ok.mp hfound) (by simp)
        · intro _ _ re _
          refine ⟨by simp, by simp, ?_⟩
          intro before e after q hsplit
          simp at hsplit

/-! ## A device with one block -/

/-- The last register of the block at a path. -/
def registerAt (crates : Crates) (path : BlockPath) (p : RegisterPath) :
    List RegisterCluster → Option Register
  | [] => none
  | .cluster _ :: rest => registerAt crates path p rest
  | .register reg :: rest =>
      match registerAt crates path p rest with
      | some found => some found
      | none =>
          if p.block = path && (p.name = reg.info.name ||
              (reg.dim.elim [] (crates.names reg.info.name)).contains p.name) then some reg
          else none

/-- The index of a device whose only block has these registers. -/
def blockIndex (crates : Crates) (path : BlockPath) (ercs : List RegisterCluster) : Index where
  registers p := registerAt crates path p ercs
  clusters _ := none
  evs _ := none

theorem indexOfBlock_blockIndex (crates : Crates) (path : BlockPath)
    (ercs : List RegisterCluster) :
    IndexOfBlock crates (blockIndex crates path ercs) path ercs := by
  intro p source hblock hsource
  have hsource : registerAt crates path p ercs = some source := hsource
  induction ercs with
  | nil => simp [registerAt] at hsource
  | cons erc rest ih =>
      cases erc with
      | cluster cluster =>
          obtain ⟨hmem, hat⟩ := ih hsource hsource
          exact ⟨List.mem_cons_of_mem _ hmem, hat⟩
      | register reg =>
          rw [registerAt] at hsource
          cases hrest : registerAt crates path p rest with
          | some found =>
              rw [hrest] at hsource
              obtain rfl : found = source := Option.some.inj hsource
              obtain ⟨hmem, hat⟩ := ih hrest hrest
              exact ⟨List.mem_cons_of_mem _ hmem, hat⟩
          | none =>
              rw [hrest] at hsource
              simp only [Option.ite_none_right_eq_some, Option.some.injEq] at hsource
              obtain ⟨hcond, rfl⟩ := hsource
              refine ⟨List.mem_cons_self, hblock, ?_⟩
              simp only [Bool.and_eq_true, Bool.or_eq_true, decide_eq_true_eq] at hcond
              obtain ⟨-, hname | hname⟩ := hcond
              · exact .inl hname
              · refine .inr ?_
                cases hdim : reg.dim with
                | none => simp [hdim] at hname
                | some dim => exact ⟨dim, rfl, by simpa [hdim] using hname⟩

/-- The channel registers of a timer as an array, and one more channel. -/
def arrayThenSingle : List RegisterCluster :=
  [.register (.array (plainRegister "CCR%s" 0 32) (countedDim 4 4)),
    .register (.single (plainRegister "CCR5" 32 32))]

/-- An array that takes the root of an earlier single, and a single that takes
the array. -/
def chainedArray : List RegisterCluster :=
  [.register (.single (plainRegister "CMR" 0 32)),
    .register (.single { plainRegister "CCR0" 4 32 with derivedFrom := some "CMR" }),
    .register (.array (plainRegister "CCR%s" 8 32) ⟨2, 4, some ["1", "2"], none, by simp⟩),
    .register (.single (plainRegister "CCR5" 32 32))]

/-- The extra channel derives from the array, which stays a root. -/
theorem implicitRooted_arrayThenSingle :
    ∃ infos, checkErcDeriveInfos asciiCrates defaultConfig
        (blockIndex asciiCrates (.new "TIM") arrayThenSingle) 8 (.new "TIM") arrayThenSingle =
          .ok infos ∧
      infos = [.root, .implicit ⟨.new "TIM", "CCR%s"⟩] ∧
      ∀ entry ∈ arrayThenSingle.zip infos, ∀ p, entry.2 = .implicit p →
        ImplicitRooted asciiCrates (blockIndex asciiCrates (.new "TIM") arrayThenSingle)
          (.new "TIM") (arrayThenSingle.zip infos) entry.1 p := by
  have hsafe : SafeRun
      (checkErc asciiCrates defaultConfig
        (blockIndex asciiCrates (.new "TIM") arrayThenSingle) 8 (.new "TIM"))
      (SafeStep asciiCrates defaultConfig
        (blockIndex asciiCrates (.new "TIM") arrayThenSingle) 8 (.new "TIM"))
      [] arrayThenSingle := by
    refine ⟨safeStep_nil _ _ _ _ _ _, fun entries hstep => ⟨?_, fun _ _ => trivial⟩⟩
    obtain rfl : _ = entries := Except.ok.inj hstep
    refine ⟨?_, fun hnone => absurd (Except.ok.inj hnone) (by simp)⟩
    intro root hfound _
    obtain rfl : _ = root := Option.some.inj (Except.ok.inj hfound)
    refine ⟨?_, ?_, ?_⟩
    · simp
    · intro hat
      obtain ⟨-, hname | ⟨_, hdim, -⟩⟩ := hat
      · exact absurd hname (by decide)
      · cases hdim
    · simp [Targeted]
  exact ⟨_, rfl, rfl, (implicitRooted_of_safeRun (indexOfBlock_blockIndex _ _ _) hsafe).2 _ rfl⟩

/-- The extra channel derives from the array, but the array derives from `CMR`. -/
theorem not_implicitRooted_chainedArray :
    IndexOfBlock asciiCrates (blockIndex asciiCrates (.new "TIM") chainedArray) (.new "TIM")
      chainedArray ∧
    ∃ infos, checkErcDeriveInfos asciiCrates defaultConfig
        (blockIndex asciiCrates (.new "TIM") chainedArray) 8 (.new "TIM") chainedArray =
          .ok infos ∧
      ∃ entry ∈ chainedArray.zip infos, ∃ p, entry.2 = .implicit p ∧
        ¬ ImplicitRooted asciiCrates (blockIndex asciiCrates (.new "TIM") chainedArray)
          (.new "TIM") (chainedArray.zip infos) entry.1 p := by
  refine ⟨indexOfBlock_blockIndex _ _ _, _, rfl, _, .tail _ (.tail _ (.tail _ (.head _))), _, rfl, ?_⟩
  intro h
  have hroot := (h.target_root rfl).2 _ (.tail _ (.tail _ (.head _))) ⟨rfl, .inl rfl⟩
  exact absurd hroot (by decide)

end Svd2Rust
