import Svd2Rust.ImplicitRoots

/-!
# Look-ups of the scan for derived registers

While it compares names with patterns, `check_erc_derive_infos` looks arrays up by
their full name and roots by their bare name, both in the block it scans.  The index
knows a register by its SVD name and its own block, so a group in front of a name or a
root in another block makes a look-up fail, and with it the whole generation.

`checkErcDeriveInfos_returns_iff` says which scans get through: those in which no round
comes to a name the index does not know.  The ordinary block, whose arrays are in no
group and whose roots are its own, is one of them (`NamesOfBlock.safeRun`).
-/

namespace Svd2Rust

open FallibleRuns

section Names

variable (crates : Crates) (index : Index) (path : BlockPath)

/-- Where `find_root` looks a name up first. -/
def lookupPath (name : String) : RegisterPath :=
  ((crates.parseStr name).1.getD path).newRegister (crates.parseStr name).2

/-- The index has a register of that name. -/
def Known (name : String) : Prop :=
  (index.registers (lookupPath crates path name)).isSome

/-- Every chain of explicit derivations ends within `depth` steps, for the registers of
the block and for those of the index. -/
structure ChainsEnd (depth : Nat) (ercs : List RegisterCluster) : Prop where
  indexed : ∀ rpath reg dpath, index.registers rpath = some reg →
    reg.info.derivedFrom = some dpath →
      ∃ root, findRoot crates index depth dpath rpath.block = .ok root
  own : ∀ reg dpath, .register reg ∈ ercs → reg.info.derivedFrom = some dpath →
    ∃ root, findRoot crates index depth dpath path = .ok root

end Names

section Rounds

variable (crates : Crates) (config : Config) (index : Index) (fuel : Nat) (path : BlockPath)
  (reg : Register) (tyName : String) (re : String → Bool)

/-- The pattern of this earlier array matches the name. -/
def Entry.Matches (e : Entry) : Prop :=
  ∃ prev prevRe, e.erc = .register prev ∧ e.regex = some prevRe ∧ prevRe tyName = true

/-- The register derives from this earlier array. -/
def IsSource (e : Entry) : Prop :=
  e.Matches tyName ∧ ∃ source p,
    findRoot crates index fuel e.tyName path = .ok (source, p) ∧ isDerivable source reg = true

/-- The earlier arrays that match are known, as far as the search for one to derive from
goes. -/
def ArraysKnown (entries : List Entry) : Prop :=
  ∀ before e after, entries = before ++ e :: after →
    (∀ e' ∈ before, ¬ IsSource crates index fuel path reg tyName e') →
    e.Matches tyName → Known crates index path e.tyName

/-- The name under which an earlier single that matches is looked up: that of the array
if it is a root, that of its root otherwise. -/
def lookedUpName : DeriveInfo → Option String
  | .root => some tyName
  | .explicit rpath => some rpath.name
  | .implicit rpath => some rpath.name
  | .cluster => none

/-- The earlier single is looked up under that name. -/
def LooksUp (e : Entry) (name : String) : Prop :=
  ∃ info, e.erc = .register (.single info) ∧ re e.tyName = true ∧
    lookedUpName tyName e.info = some name

/-- The derive info names the array. -/
def DeriveInfo.Names : DeriveInfo → Prop
  | .explicit rpath => rpath.name = tyName
  | .implicit rpath => rpath.name = tyName
  | _ => False

/-- The earlier single leads to the array, or will once it is turned. -/
def LeadsHere (e : Entry) : Prop :=
  (∃ info, e.erc = .register (.single info)) ∧
    (e.info.Names tyName ∨ Flips reg re e ∧ ∃ source p,
      findRoot crates index fuel tyName path = .ok (source, p) ∧ p.name = tyName)

/-- The earlier singles an array matches are looked up under names that are known, and so
is the root it takes from the first of them that hands one on, if a single has to be
led there. -/
structure SinglesKnown (entries : List Entry) : Prop where
  looked_up : ∀ e ∈ entries, ∀ name, LooksUp tyName re e name → Known crates index path name
  taken : ∀ before e after q, entries = before ++ e :: after →
    (∀ e' ∈ before, ∀ q', ¬ HandsOn crates index path fuel reg re e' q') →
    HandsOn crates index path fuel reg re e q →
    (∃ e' ∈ e :: after, LeadsHere crates index fuel path reg tyName re e') →
    Known crates index path q.name

/-- The condition on a round: the pattern of an array is a valid one, and the names the
comparisons come to are known. -/
def RoundKnown (entries : List Entry) : RegisterCluster → Prop
  | .cluster _ => True
  | .register reg =>
      let tyName := reg.info.fullname config.ignoreGroups
      (reg.isSingle = false → (crates.regexNew (arrayPattern tyName)).isSome) ∧
      (reg.info.derivedFrom = none →
        ArraysKnown crates index fuel path reg tyName entries ∧
        (reg.isSingle = false →
          (∀ e ∈ entries, ¬ IsSource crates index fuel path reg tyName e) →
          ∀ re, crates.regexNew (arrayPattern tyName) = some re →
            SinglesKnown crates index fuel path reg tyName re entries))

end Rounds

/-! ## Single look-ups -/

section Lookups

variable {crates : Crates} {config : Config} {index : Index} {fuel depth : Nat} {path : BlockPath}

theorem findRoot_mono {dpath : String} {start : BlockPath} {root : Register × RegisterPath}
    (h : findRoot crates index depth dpath start = .ok root) (hle : depth ≤ fuel) :
    findRoot crates index fuel dpath start = .ok root := by
  induction depth generalizing fuel dpath start with
  | zero => exact (panicking_ok.mp h).elim
  | succ depth ih =>
      obtain ⟨fuel, rfl⟩ : ∃ rest, fuel = rest + 1 := ⟨fuel - 1, by omega⟩
      rw [findRoot] at h ⊢
      obtain ⟨d, hd, h⟩ := gen_bind_ok.mp h
      refine gen_bind_ok.mpr ⟨d, hd, ?_⟩
      cases hfrom : d.info.derivedFrom with
      | none =>
          rw [hfrom] at h
          exact h
      | some dp =>
          rw [hfrom] at h
          exact ih h (by omega)

/-- Where the chains end, only a name that is not known fails. -/
theorem findRoot_returns_iff {ercs : List RegisterCluster} {name : String}
    (hchains : ChainsEnd crates index path depth ercs) (hdeep : depth < fuel) :
    (∃ root, findRoot crates index fuel name path = .ok root) ↔ Known crates index path name := by
  obtain ⟨fuel, rfl⟩ : ∃ rest, fuel = rest + 1 := ⟨fuel - 1, by omega⟩
  constructor
  · intro hroot
    obtain ⟨root, hroot⟩ := hroot
    obtain ⟨d, hd, -⟩ := gen_bind_ok.mp hroot
    exact Option.isSome_iff_exists.mpr ⟨d, okOr_ok.mp hd⟩
  · intro hknown
    obtain ⟨d, hd⟩ := Option.isSome_iff_exists.mp hknown
    cases hfrom : d.info.derivedFrom with
    | none =>
        refine ⟨(d, lookupPath crates path name), gen_bind_ok.mpr ⟨d, okOr_ok.mpr hd, ?_⟩⟩
        rw [hfrom]
        rfl
    | some dp =>
        obtain ⟨root, hroot⟩ := hchains.indexed _ _ _ hd hfrom
        refine ⟨root, gen_bind_ok.mpr ⟨d, okOr_ok.mpr hd, ?_⟩⟩
        rw [hfrom]
        exact findRoot_mono hroot (by omega)

end Lookups

/-! ## The searches of a round -/

/-- What is required as far as a search goes, one item at a time. -/
theorem forall_upToFirst_cons {α : Type} {P : α → Prop} {Q : α → List α → Prop} {a : α}
    {rest : List α} :
    (∀ before e after, a :: rest = before ++ e :: after → (∀ e' ∈ before, ¬ P e') → Q e after) ↔
      Q a rest ∧ (¬ P a → ∀ before e after, rest = before ++ e :: after →
        (∀ e' ∈ before, ¬ P e') → Q e after) := by
  constructor
  · intro h
    refine ⟨h [] a rest rfl (by simp), fun hnot before e after hsplit hbefore => ?_⟩
    refine h (a :: before) e after (by rw [hsplit, List.cons_append]) fun e' he' => ?_
    obtain rfl | he' := List.mem_cons.mp he'
    · exact hnot
    · exact hbefore e' he'
  · intro h before e after hsplit hbefore
    cases before with
    | nil =>
        obtain ⟨rfl, rfl⟩ := List.cons.inj hsplit
        exact h.1
    | cons b before =>
        obtain ⟨rfl, rfl⟩ := List.cons.inj hsplit
        exact h.2 (hbefore a List.mem_cons_self) before e after rfl
          fun e' he' => hbefore e' (List.mem_cons_of_mem _ he')

section Searches

variable {crates : Crates} {config : Config} {index : Index} {fuel depth : Nat} {path : BlockPath}
  {ercs : List RegisterCluster} {reg : Register} {tyName : String} {re : String → Bool}

/-- The root of a name, if it can be found, decides what a computation does next. -/
theorem findRoot_bind_returns_iff {β : Type} {name : String}
    {next : Register × RegisterPath → Gen β} (hchains : ChainsEnd crates index path depth ercs)
    (hdeep : depth < fuel) :
    (∃ b, (findRoot crates index fuel name path >>= next) = .ok b) ↔
      Known crates index path name ∧ ∀ source p,
        findRoot crates index fuel name path = .ok (source, p) → ∃ b, next (source, p) = .ok b := by
  constructor
  · intro hrun
    obtain ⟨b, hrun⟩ := hrun
    obtain ⟨⟨source, p⟩, hroot, hnext⟩ := gen_bind_ok.mp hrun
    refine ⟨(findRoot_returns_iff hchains hdeep).mp ⟨_, hroot⟩, fun source' p' hroot' => ?_⟩
    obtain ⟨rfl, rfl⟩ := Prod.mk.inj (Except.ok.inj (hroot.symm.trans hroot'))
    exact ⟨b, hnext⟩
  · intro h
    obtain ⟨hknown, hnext⟩ := h
    obtain ⟨⟨source, p⟩, hroot⟩ := (findRoot_returns_iff hchains hdeep).mpr hknown
    obtain ⟨b, hb⟩ := hnext source p hroot
    exact ⟨b, gen_bind_ok.mpr ⟨_, hroot, hb⟩⟩

theorem compareThisAgainstPrev_cons_of_matches {e : Entry} {rest : List Entry}
    (hmatches : e.Matches tyName) :
    compareThisAgainstPrev crates index fuel path reg tyName (e :: rest) =
      (findRoot crates index fuel e.tyName path >>= fun root =>
        if isDerivable root.1 reg then return some root.2
        else compareThisAgainstPrev crates index fuel path reg tyName rest) := by
  obtain ⟨prev, prevRe, herc, hregex, hmatch⟩ := hmatches
  rw [compareThisAgainstPrev, herc, hregex]
  exact if_pos hmatch

theorem compareThisAgainstPrev_cons_of_not {e : Entry} {rest : List Entry}
    (hnot : ¬ e.Matches tyName) :
    compareThisAgainstPrev crates index fuel path reg tyName (e :: rest) =
      compareThisAgainstPrev crates index fuel path reg tyName rest := by
  rw [compareThisAgainstPrev]
  split
  · next prev prevRe herc hregex =>
      exact if_neg fun hmatch => hnot ⟨prev, prevRe, herc, hregex, hmatch⟩
  · rfl

/-- The comparison with the earlier arrays returns exactly when they are known, and it
finds nothing exactly when there is none to derive from. -/
theorem compareThisAgainstPrev_returns_iff {entries : List Entry}
    (hchains : ChainsEnd crates index path depth ercs) (hdeep : depth < fuel) :
    (∃ found, compareThisAgainstPrev crates index fuel path reg tyName entries = .ok found) ↔
      ArraysKnown crates index fuel path reg tyName entries := by
  induction entries with
  | nil =>
      refine ⟨fun _ before e after hsplit => ?_, fun _ => ⟨none, rfl⟩⟩
      simp at hsplit
  | cons e rest ih =>
      have hcons : ArraysKnown crates index fuel path reg tyName (e :: rest) ↔
          (e.Matches tyName → Known crates index path e.tyName) ∧
            (¬ IsSource crates index fuel path reg tyName e →
              ArraysKnown crates index fuel path reg tyName rest) :=
        forall_upToFirst_cons
      rw [hcons]
      by_cases hmatches : e.Matches tyName
      · rw [compareThisAgainstPrev_cons_of_matches hmatches,
          findRoot_bind_returns_iff hchains hdeep]
        constructor
        · intro h
          obtain ⟨hknown, hnext⟩ := h
          refine ⟨fun _ => hknown, fun hnot => ih.mp ?_⟩
          obtain ⟨⟨source, p⟩, hroot⟩ := (findRoot_returns_iff hchains hdeep).mpr hknown
          obtain ⟨found, hfound⟩ := hnext source p hroot
          rw [if_neg fun hderivable => hnot ⟨hmatches, source, p, hroot, hderivable⟩] at hfound
          exact ⟨found, hfound⟩
        · intro h
          obtain ⟨hknown, hrest⟩ := h
          refine ⟨hknown hmatches, fun source p hroot => ?_⟩
          by_cases hderivable : isDerivable source reg = true
          · exact ⟨some p, if_pos hderivable⟩
          · rw [if_neg hderivable]
            refine ih.mpr (hrest fun hsource => ?_)
            obtain ⟨-, source', p', hroot', hderivable'⟩ := hsource
            obtain ⟨rfl, rfl⟩ := Prod.mk.inj (Except.ok.inj (hroot.symm.trans hroot'))
            exact hderivable hderivable'
      · rw [compareThisAgainstPrev_cons_of_not hmatches, ih]
        constructor
        · intro hknown
          exact ⟨fun h => absurd h hmatches, fun _ => hknown⟩
        · intro h
          exact h.2 fun hsource => hmatches hsource.1

theorem compareThisAgainstPrev_eq_none_iff {entries : List Entry} {found : Option RegisterPath}
    (h : compareThisAgainstPrev crates index fuel path reg tyName entries = .ok found) :
    found = none ↔ ∀ e ∈ entries, ¬ IsSource crates index fuel path reg tyName e := by
  induction entries with
  | nil =>
      obtain rfl := gen_pure_ok.mp h
      simp
  | cons e rest ih =>
      by_cases hmatches : e.Matches tyName
      · rw [compareThisAgainstPrev_cons_of_matches hmatches] at h
        obtain ⟨⟨source, p⟩, hroot, h⟩ := gen_bind_ok.mp h
        by_cases hderivable : isDerivable source reg = true
        · rw [if_pos hderivable] at h
          obtain rfl := gen_pure_ok.mp h
          refine ⟨fun hnone => (nomatch hnone), fun hall => ?_⟩
          exact absurd ⟨hmatches, source, p, hroot, hderivable⟩ (hall e List.mem_cons_self)
        · rw [if_neg hderivable] at h
          rw [ih h, List.forall_mem_cons]
          refine ⟨fun hall => ⟨fun hsource => ?_, hall⟩, And.right⟩
          obtain ⟨-, source', p', hroot', hderivable'⟩ := hsource
          obtain ⟨rfl, rfl⟩ := Prod.mk.inj (Except.ok.inj (hroot.symm.trans hroot'))
          exact hderivable hderivable'
      · rw [compareThisAgainstPrev_cons_of_not hmatches] at h
        rw [ih h, List.forall_mem_cons]
        exact ⟨fun hall => ⟨fun hsource => hmatches hsource.1, hall⟩, And.right⟩

/-- A single is looked up under one name, if it is not represented as a cluster. -/
theorem loopDeriveInfo_returns_iff {prevReg : Register} {info : DeriveInfo}
    (hchains : ChainsEnd crates index path depth ercs) (hdeep : depth < fuel)
    (hcluster : info ≠ .cluster) :
    (∃ infos, loopDeriveInfo crates index fuel path reg tyName prevReg info = .ok infos) ↔
      ∀ name, lookedUpName tyName info = some name → Known crates index path name := by
  cases info with
  | cluster => exact absurd rfl hcluster
  | root =>
      rw [loopDeriveInfo, findRoot_bind_returns_iff hchains hdeep]
      simp only [lookedUpName, Option.some.injEq, forall_eq']
      exact and_iff_left_of_imp fun _ _ _ _ => ⟨_, rfl⟩
  | explicit rpath =>
      rw [loopDeriveInfo, findRoot_bind_returns_iff hchains hdeep]
      simp only [lookedUpName, Option.some.injEq, forall_eq']
      exact and_iff_left_of_imp fun _ _ _ _ => ⟨_, rfl⟩
  | implicit rpath =>
      rw [loopDeriveInfo, findRoot_bind_returns_iff hchains hdeep]
      simp only [lookedUpName, Option.some.injEq, forall_eq']
      exact and_iff_left_of_imp fun _ _ _ _ => ⟨_, rfl⟩

/-- Only a derive info that names the array is redirected, and only to a root that was
taken. -/
theorem redirect_returns_iff {my info : DeriveInfo}
    (hchains : ChainsEnd crates index path depth ercs) (hdeep : depth < fuel) :
    (∃ info', redirect crates index fuel path tyName my info = .ok info') ↔
      ∀ q, my = .implicit q → info.Names tyName → Known crates index path q.name := by
  cases my with
  | root => simp [redirect, pure, Except.pure]
  | explicit rpath => simp [redirect, pure, Except.pure]
  | cluster => simp [redirect, pure, Except.pure]
  | implicit q =>
      simp only [DeriveInfo.implicit.injEq, forall_eq']
      cases info with
      | root => simp [redirect, DeriveInfo.Names, pure, Except.pure]
      | cluster => simp [redirect, DeriveInfo.Names, pure, Except.pure]
      | explicit their =>
          unfold redirect DeriveInfo.Names
          by_cases hname : their.name = tyName
          · simp only [if_pos hname, findRoot_bind_returns_iff hchains hdeep]
            exact ⟨fun h _ => h.1, fun h => ⟨h hname, fun _ _ _ => ⟨_, rfl⟩⟩⟩
          · simp only [if_neg hname]
            exact ⟨fun _ h => absurd h hname, fun _ => ⟨_, rfl⟩⟩
      | implicit their =>
          unfold redirect DeriveInfo.Names
          by_cases hname : their.name = tyName
          · simp only [if_pos hname, findRoot_bind_returns_iff hchains hdeep]
            exact ⟨fun h _ => h.1, fun h => ⟨h hname, fun _ _ _ => ⟨_, rfl⟩⟩⟩
          · simp only [if_neg hname]
            exact ⟨fun _ h => absurd h hname, fun _ => ⟨_, rfl⟩⟩

/-- The array has the root `q` after its visit of the entry. -/
def Takes (crates : Crates) (index : Index) (path : BlockPath) (fuel : Nat) (reg : Register)
    (re : String → Bool) (my : DeriveInfo) (e : Entry) (q : RegisterPath) : Prop :=
  my = .implicit q ∨ my = .root ∧ HandsOn crates index path fuel reg re e q

theorem HandsOn.unique {e : Entry} {q q' : RegisterPath}
    (h : HandsOn crates index path fuel reg re e q)
    (h' : HandsOn crates index path fuel reg re e q') : q = q' := by
  obtain ⟨info, herc, hmatch, ⟨rpath, source, hinfo, hroot, -⟩ | ⟨source, r, hinfo, hroot, -⟩⟩ := h
  · exact ((handsOn_explicit_iff herc hmatch hinfo hroot).mp h').1
  · exact ((handsOn_implicit_iff herc hmatch hinfo hroot).mp h').1

theorem LoopOutcome.takes_iff {e : Entry} {my loopInfo prevInfo : DeriveInfo}
    (h : LoopOutcome crates index fuel path reg tyName re e loopInfo prevInfo) (q : RegisterPath) :
    (if my = .root then loopInfo else my) = .implicit q ↔
      Takes crates index path fuel reg re my e q := by
  unfold Takes
  by_cases hmy : my = .root
  · subst hmy
    rw [if_pos rfl]
    obtain ⟨rfl, hno⟩ | ⟨q', rfl, hands, -⟩ := h.hands
    · simp [hno]
    · simp only [DeriveInfo.implicit.injEq, reduceCtorEq, true_and, false_or]
      refine ⟨fun heq => heq ▸ hands, fun hands' => hands.unique hands'⟩
  · rw [if_neg hmy]
    simp [hmy]

/-- After a visit the array has the root it takes. -/
theorem visitPrev_takes {my my' : DeriveInfo} {e e' : Entry}
    (h : visitPrev crates index fuel path reg tyName re my e = .ok (my', e')) (q : RegisterPath) :
    my' = .implicit q ↔ Takes crates index path fuel reg re my e q := by
  obtain ⟨rfl, rfl, hno⟩ | ⟨loopInfo, prevInfo, info, rfl, -, rfl, houtcome⟩ := visitPrev_ok h
  · simp [Takes, hno]
  · exact houtcome.takes_iff q

/-- The derive info of a single that is looked up names the array afterwards exactly if
the single leads there. -/
theorem names_iff_leadsHere {e : Entry} {info : RegisterInfo} {loopInfo prevInfo : DeriveInfo}
    (herc : e.erc = .register (.single info)) (hmatch : re e.tyName = true)
    (h : loopDeriveInfo crates index fuel path reg tyName (.single info) e.info =
      .ok (loopInfo, prevInfo)) :
    prevInfo.Names tyName ↔ LeadsHere crates index fuel path reg tyName re e := by
  have hsingle : (∃ info, e.erc = .register (.single info)) := ⟨info, herc⟩
  by_cases hinfo : e.info = .root
  · rw [hinfo] at h
    obtain ⟨⟨source, p⟩, hroot, h⟩ := gen_bind_ok.mp h
    obtain ⟨-, rfl⟩ := Prod.mk.inj (gen_pure_ok.mp h)
    have hflips : Flips reg re e ↔ isDerivable (.single info) reg = true := by
      constructor
      · intro hflips
        obtain ⟨info', herc', -, -, hderivable⟩ := hflips
        obtain rfl := MaybeArray.single.inj (RegisterCluster.register.inj (herc.symm.trans herc'))
        exact hderivable
      · intro hderivable
        exact ⟨info, herc, hmatch, hinfo, hderivable⟩
    unfold LeadsHere
    rw [hflips, hinfo]
    by_cases hderivable : isDerivable (.single info) reg = true
    · rw [if_pos hderivable]
      refine ⟨fun hname => ⟨hsingle, .inr ⟨hderivable, source, p, hroot, hname⟩⟩, fun hleads => ?_⟩
      obtain ⟨-, hnames | ⟨-, source', p', hroot', hname⟩⟩ := hleads
      · exact hnames.elim
      · obtain ⟨rfl, rfl⟩ := Prod.mk.inj (Except.ok.inj (hroot.symm.trans hroot'))
        exact hname
    · rw [if_neg hderivable]
      refine ⟨fun hnames => hnames.elim, fun hleads => ?_⟩
      obtain ⟨-, hnames | hflips⟩ := hleads
      · exact hnames.elim
      · exact absurd hflips.1 hderivable
  · -- only roots are turned
    have hnot : ¬ Flips reg re e := fun hflips => by
      obtain ⟨_, -, -, hroot, -⟩ := hflips
      exact hinfo hroot
    obtain ⟨-, rfl | hflips⟩ := loopDeriveInfo_ok herc hmatch h
    · exact ⟨fun hnames => ⟨hsingle, .inl hnames⟩,
        fun hleads => hleads.2.resolve_right fun hflips => hnot hflips.1⟩
    · exact absurd hflips.1 hnot

/-- A visit to a single whose name matches returns when its lookup does, and the one of
the root the array has then. -/
theorem visitPrev_returns_iff_of_matches {my : DeriveInfo} {e : Entry} {info : RegisterInfo}
    (hchains : ChainsEnd crates index path depth ercs) (hdeep : depth < fuel)
    (hcluster : ∀ reg, e.erc = .register reg → e.info ≠ .cluster)
    (herc : e.erc = .register (.single info)) (hmatch : re e.tyName = true) :
    (∃ next, visitPrev crates index fuel path reg tyName re my e = .ok next) ↔
      (∀ name, LooksUp tyName re e name → Known crates index path name) ∧
        ∀ q, Takes crates index path fuel reg re my e q →
          LeadsHere crates index fuel path reg tyName re e → Known crates index path q.name := by
  have hlooks : ∀ name, LooksUp tyName re e name ↔ lookedUpName tyName e.info = some name :=
    fun name => ⟨fun hlooks => by obtain ⟨_, -, -, hname⟩ := hlooks; exact hname,
      fun hname => ⟨info, herc, hmatch, hname⟩⟩
  simp only [hlooks]
  rw [visitPrev_of_matches herc hmatch,
    ← loopDeriveInfo_returns_iff hchains hdeep (hcluster _ herc)]
  constructor
  · intro hrun
    obtain ⟨next, hrun⟩ := hrun
    obtain ⟨⟨loopInfo, prevInfo⟩, hloop, hrun⟩ := gen_bind_ok.mp hrun
    obtain ⟨final, hredirect, -⟩ := gen_bind_ok.mp hrun
    refine ⟨⟨_, hloop⟩, fun q htakes hleads => ?_⟩
    exact (redirect_returns_iff hchains hdeep).mp ⟨final, hredirect⟩ q
      (((loopDeriveInfo_ok herc hmatch hloop).takes_iff q).mpr htakes)
      ((names_iff_leadsHere herc hmatch hloop).mpr hleads)
  · intro h
    obtain ⟨⟨⟨loopInfo, prevInfo⟩, hloop⟩, hknown⟩ := h
    obtain ⟨final, hredirect⟩ := (redirect_returns_iff hchains hdeep).mpr fun q hmy hnames =>
      hknown q (((loopDeriveInfo_ok herc hmatch hloop).takes_iff q).mp hmy)
        ((names_iff_leadsHere herc hmatch hloop).mp hnames)
    exact ⟨_, gen_bind_ok.mpr ⟨_, hloop, gen_bind_ok.mpr ⟨final, hredirect, rfl⟩⟩⟩

/-- A single whose name does not match is not looked up and only redirected. -/
theorem visitPrev_returns_iff_of_not_matches {my : DeriveInfo} {e : Entry} {info : RegisterInfo}
    (hchains : ChainsEnd crates index path depth ercs) (hdeep : depth < fuel)
    (herc : e.erc = .register (.single info)) (hmatch : ¬ re e.tyName = true) :
    (∃ next, visitPrev crates index fuel path reg tyName re my e = .ok next) ↔
      (∀ name, LooksUp tyName re e name → Known crates index path name) ∧
        ∀ q, Takes crates index path fuel reg re my e q →
          LeadsHere crates index fuel path reg tyName re e → Known crates index path q.name := by
  have hlooks : ∀ name, ¬ LooksUp tyName re e name := fun name hlooks => by
    obtain ⟨_, -, hmatch', -⟩ := hlooks
    exact hmatch hmatch'
  have htakes : ∀ q, Takes crates index path fuel reg re my e q ↔ my = .implicit q := by
    refine fun q => or_iff_left fun htakes => ?_
    obtain ⟨-, _, -, hmatch', -⟩ := htakes
    exact hmatch hmatch'
  have hleads : LeadsHere crates index fuel path reg tyName re e ↔ e.info.Names tyName := by
    refine ⟨fun hleads => hleads.2.resolve_right fun hflips => ?_,
      fun hnames => ⟨⟨info, herc⟩, .inl hnames⟩⟩
    obtain ⟨⟨_, -, hmatch', -⟩, -⟩ := hflips
    exact hmatch hmatch'
  simp only [htakes, hleads]
  rw [visitPrev_of_not_matches herc hmatch, ← redirect_returns_iff hchains hdeep]
  constructor
  · intro hrun
    obtain ⟨next, hrun⟩ := hrun
    obtain ⟨final, hredirect, -⟩ := gen_bind_ok.mp hrun
    exact ⟨fun name hlooks' => absurd hlooks' (hlooks name), final, hredirect⟩
  · intro h
    obtain ⟨-, final, hredirect⟩ := h
    exact ⟨_, gen_bind_ok.mpr ⟨final, hredirect, rfl⟩⟩

/-- A visit returns exactly when the single is looked up under a known name, and so is
the root the array has then, if the single leads to the array. -/
theorem visitPrev_returns_iff {my : DeriveInfo} {e : Entry}
    (hchains : ChainsEnd crates index path depth ercs) (hdeep : depth < fuel)
    (hcluster : ∀ reg, e.erc = .register reg → e.info ≠ .cluster) :
    (∃ next, visitPrev crates index fuel path reg tyName re my e = .ok next) ↔
      (∀ name, LooksUp tyName re e name → Known crates index path name) ∧
        ∀ q, Takes crates index path fuel reg re my e q →
          LeadsHere crates index fuel path reg tyName re e → Known crates index path q.name := by
  by_cases hsingle : ∃ info, e.erc = .register (.single info)
  · obtain ⟨info, herc⟩ := hsingle
    by_cases hmatch : re e.tyName = true
    · exact visitPrev_returns_iff_of_matches hchains hdeep hcluster herc hmatch
    · exact visitPrev_returns_iff_of_not_matches hchains hdeep herc hmatch
  · refine ⟨fun _ => ⟨fun name hlooks => ?_, fun q _ hleads => absurd hleads.1 hsingle⟩,
      fun _ => ⟨_, visitPrev_of_not_single hsingle⟩⟩
    obtain ⟨info, herc, -⟩ := hlooks
    exact absurd ⟨info, herc⟩ hsingle

/-- The scan of the earlier singles goes on with what a visit leaves. -/
theorem comparePrevAgainstThis_cons_returns_iff {my : DeriveInfo} {e : Entry} {rest : List Entry} :
    (∃ r, comparePrevAgainstThis crates index fuel path reg tyName re my (e :: rest) = .ok r) ↔
      ∃ my' e', visitPrev crates index fuel path reg tyName re my e = .ok (my', e') ∧
        ∃ r, comparePrevAgainstThis crates index fuel path reg tyName re my' rest = .ok r := by
  constructor
  · intro hrun
    obtain ⟨r, hrun⟩ := hrun
    obtain ⟨⟨my', e'⟩, hvisit, hrun⟩ := gen_bind_ok.mp hrun
    obtain ⟨rest', hrest, -⟩ := gen_bind_ok.mp hrun
    exact ⟨my', e', hvisit, rest', hrest⟩
  · intro h
    obtain ⟨my', e', hvisit, ⟨final, rest'⟩, hrest⟩ := h
    exact ⟨_, gen_bind_ok.mpr ⟨_, hvisit, gen_bind_ok.mpr ⟨_, hrest, rfl⟩⟩⟩

/-- Once the array has taken the root `q`, every single that leads here is led there. -/
theorem comparePrevAgainstThis_implicit_returns_iff {q : RegisterPath} {entries : List Entry}
    (hchains : ChainsEnd crates index path depth ercs) (hdeep : depth < fuel)
    (hcluster : ∀ e ∈ entries, ∀ reg, e.erc = .register reg → e.info ≠ .cluster) :
    (∃ r, comparePrevAgainstThis crates index fuel path reg tyName re (.implicit q) entries =
        .ok r) ↔
      (∀ e ∈ entries, ∀ name, LooksUp tyName re e name → Known crates index path name) ∧
        ((∃ e ∈ entries, LeadsHere crates index fuel path reg tyName re e) →
          Known crates index path q.name) := by
  induction entries with
  | nil => exact ⟨fun _ => ⟨by simp, by simp⟩, fun _ => ⟨_, rfl⟩⟩
  | cons e rest ih =>
      have hvisit := @visitPrev_returns_iff crates index fuel depth path ercs reg tyName re
        (.implicit q) e hchains hdeep (hcluster e List.mem_cons_self)
      have htakes : ∀ q', Takes crates index path fuel reg re (.implicit q) e q' ↔ q = q' := by
        simp [Takes]
      simp only [htakes, forall_eq'] at hvisit
      have ih := ih fun e' he' => hcluster e' (List.mem_cons_of_mem _ he')
      rw [comparePrevAgainstThis_cons_returns_iff, List.forall_mem_cons, List.exists_mem_cons_iff]
      constructor
      · intro h
        obtain ⟨my', e', hstep, hrest⟩ := h
        obtain ⟨hlooks, hleads⟩ := hvisit.mp ⟨_, hstep⟩
        obtain rfl := (visitPrev_takes hstep q).mpr (.inl rfl)
        obtain ⟨hlooks', hleads'⟩ := ih.mp hrest
        exact ⟨⟨hlooks, hlooks'⟩, fun h => h.elim hleads hleads'⟩
      · intro h
        obtain ⟨⟨hlooks, hlooks'⟩, hleads⟩ := h
        obtain ⟨⟨my', e'⟩, hstep⟩ := hvisit.mpr ⟨hlooks, fun h => hleads (.inl h)⟩
        obtain rfl := (visitPrev_takes hstep q).mpr (.inl rfl)
        exact ⟨_, e', hstep, ih.mpr ⟨hlooks', fun h => hleads (.inr h)⟩⟩

theorem singlesKnown_cons {e : Entry} {rest : List Entry} :
    SinglesKnown crates index fuel path reg tyName re (e :: rest) ↔
      (∀ name, LooksUp tyName re e name → Known crates index path name) ∧
      (∀ q, HandsOn crates index path fuel reg re e q →
        (∃ e' ∈ e :: rest, LeadsHere crates index fuel path reg tyName re e') →
          Known crates index path q.name) ∧
      (∀ e' ∈ rest, ∀ name, LooksUp tyName re e' name → Known crates index path name) ∧
      ((∀ q, ¬ HandsOn crates index path fuel reg re e q) →
        SinglesKnown crates index fuel path reg tyName re rest) := by
  have hfirst := @forall_upToFirst_cons Entry
    (fun e' => ∃ q, HandsOn crates index path fuel reg re e' q)
    (fun e' after => ∀ q, HandsOn crates index path fuel reg re e' q →
      (∃ f ∈ e' :: after, LeadsHere crates index fuel path reg tyName re f) →
        Known crates index path q.name) e rest
  simp only [not_exists] at hfirst
  constructor
  · intro h
    obtain ⟨hlooks, htaken⟩ := h
    rw [List.forall_mem_cons] at hlooks
    obtain ⟨hhere, hrest⟩ := hfirst.mp fun before e' after hsplit hbefore q =>
      htaken before e' after q hsplit hbefore
    exact ⟨hlooks.1, hhere, hlooks.2, fun hno =>
      ⟨hlooks.2, fun before e' after q hsplit hbefore =>
        hrest hno before e' after hsplit hbefore q⟩⟩
  · intro h
    obtain ⟨hlooks, hhere, hlooks', hrest⟩ := h
    refine ⟨List.forall_mem_cons.mpr ⟨hlooks, hlooks'⟩, fun before e' after q hsplit hbefore => ?_⟩
    exact hfirst.mpr ⟨hhere, fun hno before e' after hsplit hbefore q =>
      (hrest hno).taken before e' after q hsplit hbefore⟩ before e' after hsplit hbefore q

/-- The scan of the earlier singles by an array returns exactly when they are known. -/
theorem comparePrevAgainstThis_returns_iff {entries : List Entry}
    (hchains : ChainsEnd crates index path depth ercs) (hdeep : depth < fuel)
    (hcluster : ∀ e ∈ entries, ∀ reg, e.erc = .register reg → e.info ≠ .cluster) :
    (∃ r, comparePrevAgainstThis crates index fuel path reg tyName re .root entries = .ok r) ↔
      SinglesKnown crates index fuel path reg tyName re entries := by
  induction entries with
  | nil =>
      refine ⟨fun _ => ⟨by simp, fun before e after q hsplit => ?_⟩, fun _ => ⟨_, rfl⟩⟩
      simp at hsplit
  | cons e rest ih =>
      have hvisit := @visitPrev_returns_iff crates index fuel depth path ercs reg tyName re
        .root e hchains hdeep (hcluster e List.mem_cons_self)
      have htakes : ∀ q, Takes crates index path fuel reg re .root e q ↔
          HandsOn crates index path fuel reg re e q := by
        simp [Takes]
      simp only [htakes] at hvisit
      have hclusters := fun e' he' => hcluster e' (List.mem_cons_of_mem e he')
      have hrest := fun q => @comparePrevAgainstThis_implicit_returns_iff crates index fuel depth
        path ercs reg tyName re q rest hchains hdeep hclusters
      rw [comparePrevAgainstThis_cons_returns_iff, singlesKnown_cons]
      constructor
      · intro h
        obtain ⟨my', e', hstep, hnext⟩ := h
        obtain ⟨hlooks, hleads⟩ := hvisit.mp ⟨_, hstep⟩
        obtain ⟨rfl, hno, -⟩ | ⟨q, rfl, hands, -⟩ := visitPrev_root hstep
        · have hsingles := (ih hclusters).mp hnext
          exact ⟨hlooks, fun q hands => absurd hands (hno q), hsingles.looked_up, fun _ => hsingles⟩
        · obtain ⟨hlooks', hleads'⟩ := (hrest q).mp hnext
          refine ⟨hlooks, fun q' hands' hhere => ?_, hlooks', fun hno => absurd hands (hno q)⟩
          obtain rfl := hands.unique hands'
          rw [List.exists_mem_cons_iff] at hhere
          exact hhere.elim (hleads q hands) hleads'
      · intro h
        obtain ⟨hlooks, hhere, hlooks', hsingles⟩ := h
        obtain ⟨⟨my', e'⟩, hstep⟩ := hvisit.mpr ⟨hlooks, fun q hands hleads =>
          hhere q hands ⟨e, List.mem_cons_self, hleads⟩⟩
        refine ⟨my', e', hstep, ?_⟩
        obtain ⟨rfl, hno, -⟩ | ⟨q, rfl, hands, -⟩ := visitPrev_root hstep
        · exact (ih hclusters).mpr (hsingles hno)
        · exact (hrest q).mpr ⟨hlooks', fun hleads =>
            hhere q hands ((List.exists_mem_cons_iff ..).mpr (.inr hleads))⟩

/-! ## Rounds and the whole scan -/

/-- No register is represented as a cluster. -/
def Entry.NoClusterInfo (e : Entry) : Prop :=
  ∀ reg, e.erc = .register reg → e.info ≠ .cluster

/-- Redirecting changes nothing or leads to the root of the root the array has. -/
theorem redirect_ok {my info info' : DeriveInfo}
    (h : redirect crates index fuel path tyName my info = .ok info') :
    info' = info ∨ ∃ q source root, my = .implicit q ∧
      findRoot crates index fuel q.name path = .ok (source, root) ∧
      (info' = .explicit root ∨ info' = .implicit root) := by
  unfold redirect at h
  split at h
  · next q their =>
      split at h
      · obtain ⟨⟨source, root⟩, hroot, h⟩ := gen_bind_ok.mp h
        exact .inr ⟨q, source, root, rfl, hroot, .inr (gen_pure_ok.mp h).symm⟩
      · exact .inl (gen_pure_ok.mp h).symm
  · next q their =>
      split at h
      · obtain ⟨⟨source, root⟩, hroot, h⟩ := gen_bind_ok.mp h
        exact .inr ⟨q, source, root, rfl, hroot, .inl (gen_pure_ok.mp h).symm⟩
      · exact .inl (gen_pure_ok.mp h).symm
  · exact .inl (gen_pure_ok.mp h).symm

theorem visitPrev_noClusterInfo {my my' : DeriveInfo} {e e' : Entry} (he : e.NoClusterInfo)
    (hmy : my ≠ .cluster) (h : visitPrev crates index fuel path reg tyName re my e = .ok (my', e')) :
    e'.NoClusterInfo ∧ my' ≠ .cluster := by
  obtain ⟨rfl, rfl, -⟩ | ⟨loopInfo, prevInfo, info, rfl, hredirect, rfl, hhands, hprev⟩ :=
    visitPrev_ok h
  · exact ⟨he, hmy⟩
  · refine ⟨fun reg herc => ?_, ?_⟩
    · obtain rfl | ⟨_, _, root, -, -, rfl | rfl⟩ := redirect_ok hredirect
      · obtain rfl | ⟨-, source, p, -, rfl⟩ := hprev
        · exact he reg herc
        · simp
      · simp
      · simp
    · split
      · obtain ⟨rfl, -⟩ | ⟨q, rfl, -⟩ := hhands
        · simp
        · simp
      · exact hmy

theorem comparePrevAgainstThis_noClusterInfo {my final : DeriveInfo} {entries entries' : List Entry}
    (hentries : ∀ e ∈ entries, e.NoClusterInfo) (hmy : my ≠ .cluster)
    (h : comparePrevAgainstThis crates index fuel path reg tyName re my entries =
      .ok (final, entries')) : (∀ e ∈ entries', e.NoClusterInfo) ∧ final ≠ .cluster := by
  induction entries generalizing my final entries' with
  | nil =>
      obtain ⟨rfl, rfl⟩ := Prod.mk.inj (gen_pure_ok.mp h)
      exact ⟨hentries, hmy⟩
  | cons e rest ih =>
      obtain ⟨my', e', rest', hvisit, hrest, rfl⟩ := comparePrevAgainstThis_cons_ok h
      obtain ⟨he', hmy'⟩ := visitPrev_noClusterInfo (hentries e List.mem_cons_self) hmy hvisit
      obtain ⟨hrest', hfinal⟩ := ih (fun f hf => hentries f (List.mem_cons_of_mem _ hf)) hmy' hrest
      exact ⟨List.forall_mem_cons.mpr ⟨he', hrest'⟩, hfinal⟩

theorem checkErc_noClusterInfo {entries entries' : List Entry} {erc : RegisterCluster}
    (hentries : ∀ e ∈ entries, e.NoClusterInfo)
    (h : checkErc crates config index fuel path entries erc = .ok entries') :
    ∀ e ∈ entries', e.NoClusterInfo := by
  cases erc with
  | cluster cluster =>
      rw [← gen_pure_ok.mp h]
      refine List.forall_mem_append.mpr ⟨hentries, List.forall_mem_singleton.mpr fun reg herc => ?_⟩
      exact absurd herc (by simp)
  | register reg =>
      obtain ⟨regex, info, kept, rfl, -, hround⟩ := checkErc_register_ok h
      have hnew : (∀ e ∈ kept, e.NoClusterInfo) ∧ info ≠ .cluster := by
        cases hround with
        | explicit hfrom hroot => exact ⟨hentries, by simp⟩
        | root hfrom => exact ⟨hentries, by simp⟩
        | implicit hfrom hfound hother => exact ⟨hentries, by simp⟩
        | scan hfrom harray hnone hre hscan =>
            exact comparePrevAgainstThis_noClusterInfo hentries (by simp) hscan
      exact List.forall_mem_append.mpr ⟨hnew.1, List.forall_mem_singleton.mpr fun _ _ => hnew.2⟩

/-- The explicit derivation of a register of the block can be followed. -/
theorem explicitRpath_returns (hchains : ChainsEnd crates index path depth ercs)
    (hdeep : depth < fuel) (hmem : .register reg ∈ ercs) :
    ∃ explicit, explicitRpath crates index fuel path reg = .ok explicit ∧
      (explicit.isSome ↔ reg.info.derivedFrom.isSome) := by
  unfold explicitRpath
  cases hfrom : reg.info.derivedFrom with
  | none => exact ⟨none, rfl, Iff.rfl⟩
  | some dpath =>
      obtain ⟨root, hroot⟩ := hchains.own reg dpath hmem hfrom
      exact ⟨some root.2, gen_bind_ok.mpr ⟨root, findRoot_mono hroot (by omega), rfl⟩, by simp⟩

theorem checkErc_single_returns_iff {entries : List Entry} {info : RegisterInfo}
    (hchains : ChainsEnd crates index path depth ercs) (hdeep : depth < fuel)
    (hmem : .register (.single info) ∈ ercs) :
    (∃ entries', checkErc crates config index fuel path entries (.register (.single info)) =
        .ok entries') ↔
      (info.derivedFrom = none → ∃ found, compareThisAgainstPrev crates index fuel path
        (.single info) (info.fullname config.ignoreGroups) entries = .ok found) := by
  obtain ⟨explicit, hexplicit, hsome⟩ := explicitRpath_returns hchains hdeep hmem
  constructor
  · intro hrun hfrom
    obtain ⟨entries', hrun⟩ := hrun
    obtain ⟨explicit', hexplicit', hrun⟩ := gen_bind_ok.mp hrun
    obtain rfl := Except.ok.inj (hexplicit.symm.trans hexplicit')
    cases explicit with
    | some rpath => exact absurd (hsome.mp rfl) (by simp [hfrom])
    | none =>
        obtain ⟨found, hfound, -⟩ := gen_bind_ok.mp hrun
        exact ⟨found, hfound⟩
  · intro hcompare
    cases explicit with
    | some rpath => exact ⟨_, gen_bind_ok.mpr ⟨_, hexplicit, rfl⟩⟩
    | none =>
        obtain ⟨found, hfound⟩ := hcompare (by simpa using hsome)
        exact ⟨_, gen_bind_ok.mpr ⟨_, hexplicit, gen_bind_ok.mpr ⟨found, hfound, rfl⟩⟩⟩

theorem checkErc_array_returns_iff {entries : List Entry} {info : RegisterInfo} {dim : DimElement}
    (hchains : ChainsEnd crates index path depth ercs) (hdeep : depth < fuel)
    (hmem : .register (.array info dim) ∈ ercs) :
    (∃ entries', checkErc crates config index fuel path entries (.register (.array info dim)) =
        .ok entries') ↔
      ∃ re, crates.regexNew (arrayPattern (info.fullname config.ignoreGroups)) = some re ∧
        (info.derivedFrom = none → ∃ found, compareThisAgainstPrev crates index fuel path
          (.array info dim) (info.fullname config.ignoreGroups) entries = .ok found ∧
            (found = none → ∃ r, comparePrevAgainstThis crates index fuel path (.array info dim)
              (info.fullname config.ignoreGroups) re .root entries = .ok r)) := by
  obtain ⟨explicit, hexplicit, hsome⟩ := explicitRpath_returns hchains hdeep hmem
  constructor
  · intro hrun
    obtain ⟨entries', hrun⟩ := hrun
    obtain ⟨explicit', hexplicit', hrun⟩ := gen_bind_ok.mp hrun
    obtain rfl := Except.ok.inj (hexplicit.symm.trans hexplicit')
    obtain ⟨re, hre, hrun⟩ := gen_bind_ok.mp hrun
    refine ⟨re, okOr_ok.mp hre, fun hfrom => ?_⟩
    cases explicit with
    | some rpath => exact absurd (hsome.mp rfl) (by simp [hfrom])
    | none =>
        obtain ⟨found, hfound, hrun⟩ := gen_bind_ok.mp hrun
        refine ⟨found, hfound, fun hnone => ?_⟩
        subst hnone
        obtain ⟨r, hscan, -⟩ := gen_bind_ok.mp hrun
        exact ⟨r, hscan⟩
  · intro h
    obtain ⟨re, hre, hcompare⟩ := h
    cases explicit with
    | some rpath =>
        exact ⟨_, gen_bind_ok.mpr ⟨_, hexplicit, gen_bind_ok.mpr ⟨re, okOr_ok.mpr hre, rfl⟩⟩⟩
    | none =>
        obtain ⟨found, hfound, hscan⟩ := hcompare (by simpa using hsome)
        cases found with
        | some root =>
            exact ⟨_, gen_bind_ok.mpr ⟨_, hexplicit, gen_bind_ok.mpr ⟨re, okOr_ok.mpr hre,
              gen_bind_ok.mpr ⟨_, hfound, rfl⟩⟩⟩⟩
        | none =>
            obtain ⟨r, hscan⟩ := hscan rfl
            exact ⟨_, gen_bind_ok.mpr ⟨_, hexplicit, gen_bind_ok.mpr ⟨re, okOr_ok.mpr hre,
              gen_bind_ok.mpr ⟨_, hfound, gen_bind_ok.mpr ⟨r, hscan, rfl⟩⟩⟩⟩⟩

/-- A round returns exactly when it meets the condition. -/
theorem checkErc_returns_iff {entries : List Entry} {erc : RegisterCluster}
    (hchains : ChainsEnd crates index path depth ercs) (hdeep : depth < fuel)
    (hentries : ∀ e ∈ entries, e.NoClusterInfo) (hmem : erc ∈ ercs) :
    (∃ entries', checkErc crates config index fuel path entries erc = .ok entries') ↔
      RoundKnown crates config index fuel path entries erc := by
  cases erc with
  | cluster cluster => exact ⟨fun _ => trivial, fun _ => ⟨_, rfl⟩⟩
  | register reg =>
      have harrays := @compareThisAgainstPrev_returns_iff crates index fuel depth path ercs reg
        (reg.info.fullname config.ignoreGroups) entries hchains hdeep
      cases reg with
      | single info =>
          rw [checkErc_single_returns_iff hchains hdeep hmem]
          refine ⟨fun hcompare => ⟨(nomatch ·), fun hfrom => ?_⟩, fun h hfrom => ?_⟩
          · exact ⟨harrays.mp (hcompare hfrom), (nomatch ·)⟩
          · exact harrays.mpr (h.2 hfrom).1
      | array info dim =>
          have hsingles := fun re => @comparePrevAgainstThis_returns_iff crates index fuel depth
            path ercs (.array info dim) (info.fullname config.ignoreGroups) re entries hchains hdeep
            hentries
          rw [checkErc_array_returns_iff hchains hdeep hmem]
          constructor
          · intro h
            obtain ⟨re, hre, hcompare⟩ := h
            refine ⟨fun _ => Option.isSome_iff_exists.mpr ⟨re, hre⟩, fun hfrom => ?_⟩
            obtain ⟨found, hfound, hscan⟩ := hcompare hfrom
            refine ⟨harrays.mp ⟨found, hfound⟩, fun _ hnone re' hre' => ?_⟩
            obtain rfl := Option.some.inj (hre.symm.trans hre')
            exact (hsingles re).mp (hscan ((compareThisAgainstPrev_eq_none_iff hfound).mpr hnone))
          · intro h
            obtain ⟨hpattern, hknown⟩ := h
            obtain ⟨re, hre⟩ := Option.isSome_iff_exists.mp (hpattern rfl)
            refine ⟨re, hre, fun hfrom => ?_⟩
            obtain ⟨found, hfound⟩ := harrays.mpr (hknown hfrom).1
            refine ⟨found, hfound, fun hnone => (hsingles re).mpr ?_⟩
            exact (hknown hfrom).2 rfl ((compareThisAgainstPrev_eq_none_iff hfound).mp hnone) re hre

/-! ## Blocks whose names are known -/

/-- Names the index knows in this block, with the names of their roots. -/
structure ClosedNames (crates : Crates) (index : Index) (fuel : Nat) (path : BlockPath)
    (names : String → Prop) : Prop where
  known : ∀ name, names name → Known crates index path name
  root : ∀ name source p, names name →
    findRoot crates index fuel name path = .ok (source, p) → names p.name

/-- The names the scan may look up for an entry. -/
structure Entry.Within (names : String → Prop) (e : Entry) : Prop where
  array : e.regex.isSome → names e.tyName
  root : ∀ p, e.info = .explicit p ∨ e.info = .implicit p → names p.name

variable {names : String → Prop}

theorem HandsOn.within {e : Entry} {q : RegisterPath}
    (hclosed : ClosedNames crates index fuel path names) (he : e.Within names)
    (h : HandsOn crates index path fuel reg re e q) : names q.name := by
  obtain ⟨_, -, -, ⟨rpath, source, hinfo, hroot, -⟩ | ⟨_, _, hinfo, -, -⟩⟩ := h
  · exact hclosed.root _ _ _ (he.root rpath (.inl hinfo)) hroot
  · exact he.root q (.inr hinfo)

/-- An array of the block finds what it looks up. -/
theorem singlesKnown_of_within {entries : List Entry}
    (hclosed : ClosedNames crates index fuel path names) (harray : names tyName)
    (hentries : ∀ e ∈ entries, e.Within names) :
    SinglesKnown crates index fuel path reg tyName re entries := by
  constructor
  · intro e he name hlooks
    obtain ⟨info, -, -, hname⟩ := hlooks
    refine hclosed.known name ?_
    cases hinfo : e.info with
    | root =>
        rw [hinfo] at hname
        exact Option.some.inj hname ▸ harray
    | explicit rpath =>
        rw [hinfo] at hname
        exact Option.some.inj hname ▸ (hentries e he).root rpath (.inl hinfo)
    | implicit rpath =>
        rw [hinfo] at hname
        exact Option.some.inj hname ▸ (hentries e he).root rpath (.inr hinfo)
    | cluster =>
        rw [hinfo] at hname
        exact (nomatch hname)
  · intro before e after q hsplit _ hands _
    have he : e ∈ entries := by grind
    exact hclosed.known _ (hands.within hclosed (hentries e he))

/-- A visit leads to names of the block only. -/
theorem visitPrev_within {my my' : DeriveInfo} {e e' : Entry}
    (hclosed : ClosedNames crates index fuel path names) (harray : names tyName)
    (hmy : my = .root ∨ ∃ q, my = .implicit q ∧ names q.name) (he : e.Within names)
    (h : visitPrev crates index fuel path reg tyName re my e = .ok (my', e')) :
    (my' = .root ∨ ∃ q, my' = .implicit q ∧ names q.name) ∧ e'.Within names := by
  have htaken : my' = .root ∨ ∃ q, my' = .implicit q ∧ names q.name := by
    obtain rfl | ⟨q, rfl, hq⟩ := hmy
    · obtain ⟨rfl, -⟩ | ⟨q, rfl, hands, -⟩ := visitPrev_root h
      · exact .inl rfl
      · exact .inr ⟨q, rfl, hands.within hclosed he⟩
    · exact .inr ⟨q, (visitPrev_takes h q).mpr (.inl rfl), hq⟩
  refine ⟨htaken, ?_⟩
  obtain ⟨-, rfl, -⟩ | ⟨loopInfo, prevInfo, info, rfl, hredirect, -, -, hprev⟩ := visitPrev_ok h
  · exact he
  · refine ⟨he.array, fun p hp => ?_⟩
    obtain rfl | ⟨q, source, root, hq, hroot, hinfo⟩ := redirect_ok hredirect
    · obtain rfl | ⟨-, source, own, hown, rfl⟩ := hprev
      · exact he.root p hp
      · -- the single was turned, it leads to the root of the array
        obtain rfl : own = p := by simpa using hp
        exact hclosed.root _ _ _ harray hown
    · obtain rfl : root = p := by
        obtain rfl | rfl := hinfo
        · simpa using hp
        · simpa using hp
      obtain hroot' | ⟨q', hq', hname⟩ := htaken
      · exact absurd (hq.symm.trans hroot') (by simp)
      · obtain rfl := DeriveInfo.implicit.inj (hq.symm.trans hq')
        exact hclosed.root _ _ _ hname hroot

theorem comparePrevAgainstThis_within {my final : DeriveInfo} {entries entries' : List Entry}
    (hclosed : ClosedNames crates index fuel path names) (harray : names tyName)
    (hmy : my = .root ∨ ∃ q, my = .implicit q ∧ names q.name)
    (hentries : ∀ e ∈ entries, e.Within names)
    (h : comparePrevAgainstThis crates index fuel path reg tyName re my entries =
      .ok (final, entries')) :
    (final = .root ∨ ∃ q, final = .implicit q ∧ names q.name) ∧ ∀ e ∈ entries', e.Within names := by
  induction entries generalizing my final entries' with
  | nil =>
      obtain ⟨rfl, rfl⟩ := Prod.mk.inj (gen_pure_ok.mp h)
      exact ⟨hmy, hentries⟩
  | cons e rest ih =>
      obtain ⟨my', e', rest', hvisit, hrest, rfl⟩ := comparePrevAgainstThis_cons_ok h
      obtain ⟨hmy', he'⟩ :=
        visitPrev_within hclosed harray hmy (hentries e List.mem_cons_self) hvisit
      obtain ⟨hfinal, hrest'⟩ := ih hmy' (fun f hf => hentries f (List.mem_cons_of_mem _ hf)) hrest
      exact ⟨hfinal, List.forall_mem_cons.mpr ⟨he', hrest'⟩⟩

/-- What the comparison with the earlier arrays finds is the root of one of them. -/
theorem compareThisAgainstPrev_source {entries : List Entry} {p : RegisterPath}
    (h : compareThisAgainstPrev crates index fuel path reg tyName entries = .ok (some p)) :
    ∃ e ∈ entries, e.Matches tyName ∧ ∃ source,
      findRoot crates index fuel e.tyName path = .ok (source, p) := by
  induction entries with
  | nil => exact absurd (gen_pure_ok.mp h) (by simp)
  | cons e rest ih =>
      by_cases hmatches : e.Matches tyName
      · rw [compareThisAgainstPrev_cons_of_matches hmatches] at h
        obtain ⟨⟨source, root⟩, hroot, h⟩ := gen_bind_ok.mp h
        by_cases hderivable : isDerivable source reg = true
        · rw [if_pos hderivable] at h
          obtain rfl := Option.some.inj (gen_pure_ok.mp h)
          exact ⟨e, List.mem_cons_self, hmatches, source, hroot⟩
        · rw [if_neg hderivable] at h
          obtain ⟨e', he', hsource⟩ := ih h
          exact ⟨e', List.mem_cons_of_mem _ he', hsource⟩
      · rw [compareThisAgainstPrev_cons_of_not hmatches] at h
        obtain ⟨e', he', hsource⟩ := ih h
        exact ⟨e', List.mem_cons_of_mem _ he', hsource⟩

/-- The names of the block are closed: its arrays are among them under their full names,
with valid patterns, and so are the roots of its explicit derivations. -/
structure NamesOfBlock (crates : Crates) (config : Config) (index : Index) (fuel : Nat)
    (path : BlockPath) (names : String → Prop) (ercs : List RegisterCluster) : Prop
    extends ClosedNames crates index fuel path names where
  array : ∀ reg, .register reg ∈ ercs → reg.isSingle = false →
    names (reg.info.fullname config.ignoreGroups)
  pattern : ∀ reg, .register reg ∈ ercs → reg.isSingle = false →
    (crates.regexNew (arrayPattern (reg.info.fullname config.ignoreGroups))).isSome
  explicit : ∀ reg dpath source p, .register reg ∈ ercs → reg.info.derivedFrom = some dpath →
    findRoot crates index fuel dpath path = .ok (source, p) → names p.name

theorem roundKnown_of_within {entries : List Entry} {erc : RegisterCluster}
    (hblock : NamesOfBlock crates config index fuel path names ercs)
    (hentries : ∀ e ∈ entries, e.Within names) (hmem : erc ∈ ercs) :
    RoundKnown crates config index fuel path entries erc := by
  cases erc with
  | cluster cluster => trivial
  | register reg =>
      refine ⟨hblock.pattern reg hmem, fun _ => ⟨?_, fun harray _ re _ => ?_⟩⟩
      · intro before e after hsplit _ hmatches
        obtain ⟨_, prevRe, -, hregex, -⟩ := hmatches
        have he : e ∈ entries := by grind
        exact hblock.known _ ((hentries e he).array (by rw [hregex]; rfl))
      · exact singlesKnown_of_within hblock.toClosedNames (hblock.array reg hmem harray) hentries

theorem checkErc_within {entries entries' : List Entry} {erc : RegisterCluster}
    (hblock : NamesOfBlock crates config index fuel path names ercs)
    (hentries : ∀ e ∈ entries, e.Within names) (hmem : erc ∈ ercs)
    (h : checkErc crates config index fuel path entries erc = .ok entries') :
    ∀ e ∈ entries', e.Within names := by
  cases erc with
  | cluster cluster =>
      rw [← gen_pure_ok.mp h]
      refine List.forall_mem_append.mpr ⟨hentries, List.forall_mem_singleton.mpr ⟨(nomatch ·), ?_⟩⟩
      simp
  | register reg =>
      obtain ⟨regex, info, kept, rfl, hregex, hround⟩ := checkErc_register_ok h
      have hnew : (∀ e ∈ kept, e.Within names) ∧
          ∀ p, info = .explicit p ∨ info = .implicit p → names p.name := by
        cases hround with
        | @explicit _ dpath source p hfrom hroot =>
            refine ⟨hentries, fun p' hp' => ?_⟩
            obtain rfl : p = p' := by simpa using hp'
            exact hblock.explicit reg dpath source p hmem hfrom hroot
        | root hfrom => exact ⟨hentries, by simp⟩
        | @implicit _ p hfrom hfound hother =>
            refine ⟨hentries, fun p' hp' => ?_⟩
            obtain rfl : p = p' := by simpa using hp'
            obtain ⟨e, he, ⟨_, prevRe, -, hprevRe, -⟩, source, hroot⟩ :=
              compareThisAgainstPrev_source hfound
            exact hblock.root _ _ _ ((hentries e he).array (by rw [hprevRe]; rfl)) hroot
        | scan hfrom harray hnone hre hscan =>
            obtain ⟨hfinal, hkept⟩ := comparePrevAgainstThis_within hblock.toClosedNames
              (hblock.array reg hmem harray) (.inl rfl) hentries hscan
            refine ⟨hkept, fun p hp => ?_⟩
            obtain rfl | ⟨q, rfl, hq⟩ := hfinal
            · simp at hp
            · obtain rfl : q = p := by simpa using hp
              exact hq
      exact List.forall_mem_append.mpr ⟨hnew.1, List.forall_mem_singleton.mpr
        ⟨fun hsome => hblock.array reg hmem (hregex hsome), hnew.2⟩⟩

/-- **Ordinary blocks.**  If the names the scan starts from are known and lead to known
names, every round meets the condition. -/
theorem NamesOfBlock.safeRun (h : NamesOfBlock crates config index fuel path names ercs) :
    SafeRun (checkErc crates config index fuel path) (RoundKnown crates config index fuel path) []
      ercs :=
  safeRun_of_invariant (by simp) (fun hentries hmem => roundKnown_of_within h hentries hmem)
    fun hentries hmem hstep => checkErc_within h hentries hmem hstep

/-- Without groups, the registers of a block and their roots are known if the roots lie
in the block. -/
theorem NamesOfBlock.of_local
    (hplain : ∀ p source, index.registers p = some source → crates.parseStr p.name = (none, p.name))
    (harrays : ∀ reg, .register reg ∈ ercs → reg.isSingle = false →
      (index.registers (path.newRegister reg.info.name)).isSome ∧
      (reg.info.alternateGroup = none ∨ config.ignoreGroups = true) ∧
      (crates.regexNew (arrayPattern (reg.info.fullname config.ignoreGroups))).isSome)
    (hroots : ∀ name source p, (index.registers (path.newRegister name)).isSome →
      findRoot crates index fuel name path = .ok (source, p) → p.block = path)
    (hexplicit : ∀ reg dpath source p, .register reg ∈ ercs → reg.info.derivedFrom = some dpath →
      findRoot crates index fuel dpath path = .ok (source, p) → p.block = path) :
    NamesOfBlock crates config index fuel path
      (fun name => (index.registers (path.newRegister name)).isSome) ercs := by
  have hname : ∀ {name source p start}, findRoot crates index fuel name start = .ok (source, p) →
      p.block = path → (index.registers (path.newRegister p.name)).isSome := by
    intro name source p start hroot hblock
    obtain ⟨hp, -⟩ := findRoot_ok hroot
    rw [← hblock]
    exact Option.isSome_iff_exists.mpr ⟨source, hp⟩
  refine ⟨⟨fun name hknown => ?_, fun name source p hknown hroot => ?_⟩, fun reg hmem hsingle => ?_,
    fun reg hmem hsingle => (harrays reg hmem hsingle).2.2,
    fun reg dpath source p hmem hfrom hroot => ?_⟩
  · obtain ⟨source, hsource⟩ := Option.isSome_iff_exists.mp hknown
    have hparse : crates.parseStr name = (none, name) := hplain _ source hsource
    rw [Known, lookupPath, hparse]
    exact hknown
  · exact hname hroot (hroots name source p hknown hroot)
  · obtain ⟨hkeyed, hgroup, -⟩ := harrays reg hmem hsingle
    rw [fullname_of_ungrouped hgroup]
    exact hkeyed
  · exact hname hroot (hexplicit reg dpath source p hmem hfrom hroot)

/-- **Look-ups of the scan.**  Where the explicit chains end, the scan returns exactly when
every round meets the condition in the state it starts from.  A round unwraps what it looks up
in the index and among the entries before it; the condition names the look-ups of the round,
whose results the state determines. -/
theorem checkErcDeriveInfos_returns_iff (hchains : ChainsEnd crates index path depth ercs)
    (hdeep : depth < fuel) :
    (∃ infos, checkErcDeriveInfos crates config index fuel path ercs = .ok infos) ↔
      SafeRun (checkErc crates config index fuel path) (RoundKnown crates config index fuel path) []
        ercs := by
  have hrun := @exists_run_iff_safeRun _ _ _ (checkErc crates config index fuel path)
    (RoundKnown crates config index fuel path) (fun entries => ∀ e ∈ entries, e.NoClusterInfo) ercs
    [] (by simp) (fun hentries hmem => checkErc_returns_iff hchains hdeep hentries hmem)
    checkErc_noClusterInfo
  rw [← hrun]
  constructor
  · intro h
    obtain ⟨infos, h⟩ := h
    obtain ⟨entries, hrun, -⟩ := gen_bind_ok.mp h
    exact ⟨entries, hrun⟩
  · intro h
    obtain ⟨entries, hrun⟩ := h
    exact ⟨_, gen_bind_ok.mpr ⟨entries, hrun, rfl⟩⟩

end Searches

/-! ## Devices with one block -/

theorem blockIndex_block {crates : Crates} {path : BlockPath} {ercs : List RegisterCluster}
    {p : RegisterPath} {source : Register}
    (h : (blockIndex crates path ercs).registers p = some source) : p.block = path := by
  have h : registerAt crates path p ercs = some source := h
  induction ercs with
  | nil => simp [registerAt] at h
  | cons erc rest ih =>
      cases erc with
      | cluster cluster => exact ih h h
      | register reg =>
          rw [registerAt] at h
          cases hrest : registerAt crates path p rest with
          | some found =>
              rw [hrest] at h
              exact ih (hrest.trans h) (hrest.trans h)
          | none =>
              rw [hrest] at h
              simp only [Option.ite_none_right_eq_some, Bool.and_eq_true, decide_eq_true_eq] at h
              exact h.1.1

theorem chainsEnd_blockIndex {crates : Crates} {path : BlockPath} {ercs : List RegisterCluster}
    {depth : Nat}
    (hown : ∀ reg dpath, .register reg ∈ ercs → reg.info.derivedFrom = some dpath →
      ∃ root, findRoot crates (blockIndex crates path ercs) depth dpath path = .ok root) :
    ChainsEnd crates (blockIndex crates path ercs) path depth ercs where
  indexed rpath reg dpath hreg hfrom := by
    have hblock := blockIndex_block hreg
    rw [hblock]
    exact hown reg dpath (indexOfBlock_blockIndex _ _ _ rpath reg hblock hreg).1 hfrom
  own := hown

/-- The index of the block knows plain names only. -/
theorem parseStr_chainedArray {p : RegisterPath} {source : Register}
    (hsource : (blockIndex asciiCrates (.new "TIM") chainedArray).registers p = some source) :
    asciiCrates.parseStr p.name = (none, p.name) := by
  obtain ⟨hreg, -, hname⟩ := indexOfBlock_blockIndex _ _ _ p source (blockIndex_block hsource) hsource
  simp only [chainedArray, List.mem_cons, RegisterCluster.register.injEq, List.not_mem_nil,
    or_false] at hreg
  have hplain : p.name ∈ ["CMR", "CCR0", "CCR%s", "CCR1", "CCR2", "CCR5"] := by
    rcases hreg with rfl | rfl | rfl | rfl
    · obtain hname | ⟨dim, hdim, -⟩ := hname
      · exact hname ▸ by decide
      · cases hdim
    · obtain hname | ⟨dim, hdim, -⟩ := hname
      · exact hname ▸ by decide
      · cases hdim
    · obtain hname | ⟨dim, hdim, hname⟩ := hname
      · exact hname ▸ by decide
      · cases hdim
        have hnames : ∀ name ∈ ["CCR1", "CCR2"],
            name ∈ ["CMR", "CCR0", "CCR%s", "CCR1", "CCR2", "CCR5"] := by decide
        exact hnames _ hname
    · obtain hname | ⟨dim, hdim, -⟩ := hname
      · exact hname ▸ by decide
      · cases hdim
  have hparse : ∀ name ∈ ["CMR", "CCR0", "CCR%s", "CCR1", "CCR2", "CCR5"],
      asciiCrates.parseStr name = (none, name) := by decide
  exact hparse _ hplain

/-- The scan of a block with an explicit derivation, an array that takes its root, and a
single that derives from the array. -/
theorem checkErcDeriveInfos_returns_chainedArray :
    ∃ infos, checkErcDeriveInfos asciiCrates defaultConfig
      (blockIndex asciiCrates (.new "TIM") chainedArray) 8 (.new "TIM") chainedArray = .ok infos := by
  have hown : ∀ reg dpath, .register reg ∈ chainedArray → reg.info.derivedFrom = some dpath →
      ∃ root, findRoot asciiCrates (blockIndex asciiCrates (.new "TIM") chainedArray) 1 dpath
        (.new "TIM") = .ok root := by
    intro reg dpath hreg hfrom
    simp only [chainedArray, List.mem_cons, RegisterCluster.register.injEq, List.not_mem_nil,
      or_false] at hreg
    rcases hreg with rfl | rfl | rfl | rfl
    · cases hfrom
    · cases hfrom
      exact ⟨_, rfl⟩
    · cases hfrom
    · cases hfrom
  refine (checkErcDeriveInfos_returns_iff (chainsEnd_blockIndex hown) (by decide)).mpr ?_
  refine (NamesOfBlock.of_local (fun _ _ => parseStr_chainedArray) ?_ ?_ ?_).safeRun
  · intro reg hreg hsingle
    simp only [chainedArray, List.mem_cons, RegisterCluster.register.injEq, List.not_mem_nil,
      or_false] at hreg
    rcases hreg with rfl | rfl | rfl | rfl
    · cases hsingle
    · cases hsingle
    · exact ⟨rfl, .inl rfl, rfl⟩
    · cases hsingle
  · intro name source p _ hroot
    exact blockIndex_block (findRoot_ok hroot).1
  · intro reg dpath source p _ _ hroot
    exact blockIndex_block (findRoot_ok hroot).1

/-- The channels of a timer in the group of its output registers, and one more of them. -/
def groupedChannels : List RegisterCluster :=
  [.register (.array { plainRegister "CCR%s" 0 32 with alternateGroup := some "OC" }
      (countedDim 4 4)),
    .register (.single { plainRegister "CCR5" 32 32 with alternateGroup := some "OC" })]

/-- The array is looked up as `OC_CCR%s`; the index has it as `CCR%s`. -/
theorem not_checkErcDeriveInfos_returns_groupedChannels :
    ChainsEnd asciiCrates (blockIndex asciiCrates (.new "TIM") groupedChannels) (.new "TIM") 0
        groupedChannels ∧
      (∀ reg, .register reg ∈ groupedChannels →
        (blockIndex asciiCrates (.new "TIM") groupedChannels).registers
          ⟨.new "TIM", reg.info.name⟩ = some reg) ∧
      checkErcDeriveInfos asciiCrates defaultConfig
        (blockIndex asciiCrates (.new "TIM") groupedChannels) 8 (.new "TIM") groupedChannels =
          .error (.bail ["register OC_CCR%s not found"]) := by
  have hregs : ∀ reg, .register reg ∈ groupedChannels → reg.info.derivedFrom = none ∧
      (blockIndex asciiCrates (.new "TIM") groupedChannels).registers
        ⟨.new "TIM", reg.info.name⟩ = some reg := by
    intro reg hreg
    simp only [groupedChannels, List.mem_cons, RegisterCluster.register.injEq, List.not_mem_nil,
      or_false] at hreg
    rcases hreg with rfl | rfl
    · exact ⟨rfl, rfl⟩
    · exact ⟨rfl, rfl⟩
  refine ⟨chainsEnd_blockIndex fun reg dpath hreg hfrom => ?_, fun reg hreg => (hregs reg hreg).2, rfl⟩
  exact absurd ((hregs reg hreg).1.symm.trans hfrom) (by simp)

end Svd2Rust
