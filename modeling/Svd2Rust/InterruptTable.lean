import Mathlib.Data.List.Sort
import Svd2Rust.AsciiCrates
import Svd2Rust.DeviceModel
import Svd2Rust.FallibleRuns

/-!
# The interrupt table

`interrupt.rs`: the interrupts of all peripherals are collected in a map by value,
where a later one replaces an earlier one, and rendered in the order of their
values.  A running position fills the gaps with reserved entries, and an interrupt
behind features comes with a reserved entry for the case that one of them is off.
Compiled for any set of features, the table has one entry for each value up to the
largest, and each entry is the one of the interrupt retained for it
(`interruptTable_compiled`).
-/

namespace Svd2Rust

open CfgAttributes FallibleRuns

/-- An interrupt with the group and the name of the peripheral that lists it; an array
goes by the name of its first element. -/
structure OwnedInterrupt where
  interrupt : Interrupt
  groupName : Option String
  peripheral : String
deriving DecidableEq, Repr

abbrev OwnedInterrupt.value (i : OwnedInterrupt) : Nat := i.interrupt.value

/-- `Vector`. -/
inductive Vector where
  | reserved
  | handler (name : String)
deriving DecidableEq, Repr

/-- A variant of `enum Interrupt`. -/
structure InterruptVariant where
  doc : String
  name : String
  value : Nat
deriving DecidableEq, Repr

/-- What the loop over the interrupts has built. -/
structure InterruptCode where
  pos : Nat
  elements : List (GatedItem Vector)
  names : List (GatedItem String)
  variants : List (GatedItem InterruptVariant)
  fromArms : List (GatedItem (Nat × String))

def InterruptCode.start : InterruptCode := ⟨0, [], [], [], []⟩

/-- The code `interrupt::render` returns, with its lines of `device.x`.  The table and
the declarations of its handlers stand behind the feature `rt`. -/
structure InterruptModule where
  provides : List String
  externs : List (GatedItem String)
  numOfInterrupts : Nat
  table : Option (GatedItem (List (GatedItem Vector)))
  enum : Option (List (GatedItem InterruptVariant))
  fromArms : List (GatedItem (Nat × String))

section Render

variable (crates : Crates) (config : DeviceConfig)

/-- The interrupts one peripheral lists. -/
def ownedInterrupts (p : Peripheral) : Gen (List OwnedInterrupt) :=
  p.info.interrupt.mapM fun i => do
    let name ← match p with
      | .single info => pure info.name
      | .array info dim => unwrap (crates.names info.name dim).head?
    return ⟨i, p.info.groupName, name⟩

/-- The entry a map by value gets: it replaces the one with its value. -/
def insertInterrupt (map : List OwnedInterrupt) (i : OwnedInterrupt) : List OwnedInterrupt :=
  map.filter (·.value ≠ i.value) ++ [i]

/-- `.collect::<HashMap<_, _>>()`, with its entries in some order. -/
def collectByValue (is : List OwnedInterrupt) : List OwnedInterrupt :=
  is.foldl insertInterrupt []

def sortByValue (is : List OwnedInterrupt) : List OwnedInterrupt :=
  is.insertionSort fun a b => a.value ≤ b.value

/-- The features an interrupt is behind. -/
def OwnedInterrupt.features (i : OwnedInterrupt) : List String :=
  groupFeatures crates config i.groupName ++ peripheralFeatures crates config i.peripheral

/-- The text of the identifier of an interrupt. -/
def OwnedInterrupt.ident (i : OwnedInterrupt) : String :=
  identText crates config.toConfig i.interrupt.name .interrupt

def OwnedInterrupt.description (i : OwnedInterrupt) : String :=
  toString i.value ++ " - " ++
    ((i.interrupt.description.map respace).map escapeSpecialChars).getD i.interrupt.name

/-- `while pos < value`, which runs `gap` times. -/
def fillReserved (code : InterruptCode) : (gap : Nat) → InterruptCode
  | 0 => code
  | gap + 1 =>
      fillReserved { code with
        elements := code.elements ++ [⟨[], .reserved⟩]
        pos := code.pos + 1 } gap

/-- The entries of one interrupt. -/
def OwnedInterrupt.entries (i : OwnedInterrupt) : List (GatedItem Vector) :=
  let fs := i.features crates config
  if fs.isEmpty then [⟨[], .handler (i.ident crates config)⟩]
  else
    [⟨[.notAll fs], .reserved⟩, ⟨CfgAttributes.features fs, .handler (i.ident crates config)⟩]

/-- One round of the loop. -/
def emitInterrupt (code : InterruptCode) (i : OwnedInterrupt) : Gen InterruptCode := do
  let code := fillReserved code (i.value - code.pos)
  let pos ← addU32 code.pos 1
  let name ← Svd2Rust.ident crates config.toConfig i.interrupt.name .interrupt
  let cfg := CfgAttributes.features (i.features crates config)
  return {
    pos := pos
    elements := code.elements ++ i.entries crates config
    names := code.names ++ [⟨cfg, name⟩]
    variants := code.variants ++ [⟨cfg, ⟨i.description, name, i.value⟩⟩]
    fromArms := code.fromArms ++ [⟨cfg, (i.value, name)⟩] }

/-- The targets with a table. -/
def Target.hasTable : Target → Bool
  | .cortexM | .msp430 | .riscv | .xtensaLX => true
  | .mips | .avr | .none => false

/-- The targets whose `enum Interrupt` stands in the root; the others put it into a
module that is left out when there are no interrupts. -/
def Target.enumInRoot : Target → Bool
  | .cortexM | .msp430 | .xtensaLX => true
  | _ => false

/-- `interrupt::render`. -/
def renderInterrupts (target : Target) (peripherals : List Peripheral) : Gen InterruptModule := do
  let owned ← peripherals.mapM (ownedInterrupts crates)
  let interrupts := sortByValue (collectByValue owned.flatten)
  let code ← interrupts.foldlM (emitInterrupt crates config) InterruptCode.start
  let rt : List (Predicate String) := [.feature "rt"]
  return {
    provides := if target.hasTable then
      code.names.map fun g => "PROVIDE(" ++ g.item ++ " = DefaultHandler);" else []
    externs := if target.hasTable then code.names.map fun g => ⟨rt ++ g.cfg, g.item⟩ else []
    numOfInterrupts := code.pos
    table := if target.hasTable then some ⟨rt, code.elements⟩ else none
    enum := if target.enumInRoot || !interrupts.isEmpty then some code.variants else none
    fromArms := if target = .msp430 then [] else code.fromArms }

end Render

/-! ## The interrupt retained for a value -/

/-- The interrupt listed last with this value. -/
def retainedFor (is : List OwnedInterrupt) (k : Nat) : Option OwnedInterrupt :=
  (is.filter (·.value = k)).getLast?

/-- One more than the largest value, 0 without interrupts. -/
def tableLength (is : List OwnedInterrupt) : Nat :=
  match (is.map (·.value)).max? with
  | some value => value + 1
  | none => 0

theorem retainedFor_append (is : List OwnedInterrupt) (i : OwnedInterrupt) (k : Nat) :
    retainedFor (is ++ [i]) k = if i.value = k then some i else retainedFor is k := by
  by_cases hk : i.value = k
  · simp [retainedFor, hk]
  · simp [retainedFor, hk]

theorem value_of_retainedFor {is : List OwnedInterrupt} {i : OwnedInterrupt} {k : Nat}
    (h : retainedFor is k = some i) : i ∈ is ∧ i.value = k := by
  have hmem := List.mem_of_getLast? h
  simpa using List.mem_filter.mp hmem

/-- For every listed value an interrupt is retained. -/
theorem exists_retainedFor {is : List OwnedInterrupt} {i : OwnedInterrupt} (hi : i ∈ is) :
    ∃ j, retainedFor is i.value = some j := by
  cases h : retainedFor is i.value with
  | some j => exact ⟨j, rfl⟩
  | none =>
      rw [retainedFor, List.getLast?_eq_none_iff, List.filter_eq_nil_iff] at h
      exact absurd (decide_eq_true rfl) (h i hi)

/-- Where the values differ, every interrupt is retained. -/
theorem retainedFor_of_sorted {is : List OwnedInterrupt}
    (hsorted : is.Pairwise fun a b => a.value < b.value) {i : OwnedInterrupt} (hi : i ∈ is) :
    retainedFor is i.value = some i := by
  induction is using List.reverseRecOn with
  | nil => cases hi
  | append_singleton is j ih =>
      obtain ⟨hsorted, -, hlt⟩ := List.pairwise_append.mp hsorted
      rw [retainedFor_append]
      rcases List.mem_append.mp hi with hi | hi
      · have hne : j.value ≠ i.value := Nat.ne_of_gt (hlt i hi j List.mem_cons_self)
        rw [if_neg hne, ih hsorted hi]
      · obtain rfl := List.mem_singleton.mp hi
        rw [if_pos rfl]

theorem tableLength_le_iff {is : List OwnedInterrupt} {n : Nat} :
    tableLength is ≤ n ↔ ∀ i ∈ is, i.value < n := by
  unfold tableLength
  split
  · rename_i value hmax
    obtain ⟨hmem, hle⟩ := List.max?_eq_some_iff.mp hmax
    constructor
    · intro hn i hi
      have := hle i.value (List.mem_map_of_mem hi)
      omega
    · intro hall
      obtain ⟨i, hi, rfl⟩ := List.mem_map.mp hmem
      exact hall i hi
  · rename_i hnone
    have hnil : is = [] := by simpa using hnone
    simp [hnil]

/-- A larger value ends the table. -/
theorem tableLength_append {is : List OwnedInterrupt} {i : OwnedInterrupt}
    (hlt : ∀ j ∈ is, j.value < i.value) : tableLength (is ++ [i]) = i.value + 1 := by
  apply Nat.le_antisymm
  · rw [tableLength_le_iff]
    intro j hj
    rcases List.mem_append.mp hj with hj | hj
    · exact Nat.lt_succ_of_lt (hlt j hj)
    · obtain rfl := List.mem_singleton.mp hj
      exact Nat.lt_succ_self _
  · exact tableLength_le_iff.mp (Nat.le_refl _) i (by simp)

/-- The map has the interrupts listed last with their values. -/
theorem mem_collectByValue {is : List OwnedInterrupt} {i : OwnedInterrupt} :
    i ∈ collectByValue is ↔ retainedFor is i.value = some i := by
  induction is using List.reverseRecOn with
  | nil => simp [collectByValue, retainedFor]
  | append_singleton is j ih =>
      have hinsert : collectByValue (is ++ [j]) = insertInterrupt (collectByValue is) j := by
        simp [collectByValue]
      rw [hinsert, retainedFor_append]
      by_cases hj : j.value = i.value
      · simp [insertInterrupt, hj, eq_comm]
      · have hne : i ≠ j := by
          intro heq
          obtain rfl := heq
          exact hj rfl
        simp [insertInterrupt, hj, hne, Ne.symm hj, ih]

/-- The map has one interrupt for a value. -/
theorem collectByValue_distinct (is : List OwnedInterrupt) :
    (collectByValue is).Pairwise fun a b => a.value ≠ b.value := by
  induction is using List.reverseRecOn with
  | nil => exact .nil
  | append_singleton is j ih =>
      have hinsert : collectByValue (is ++ [j]) = insertInterrupt (collectByValue is) j := by
        simp [collectByValue]
      rw [hinsert, insertInterrupt, List.pairwise_append]
      refine ⟨ih.filter _, List.pairwise_singleton _ _, ?_⟩
      intro a ha b hb
      obtain rfl := List.mem_singleton.mp hb
      simpa using (List.mem_filter.mp ha).2

theorem sortByValue_sorted (is : List OwnedInterrupt) :
    (sortByValue (collectByValue is)).Pairwise fun a b => a.value < b.value := by
  have hperm : (sortByValue (collectByValue is)).Perm (collectByValue is) :=
    List.perm_insertionSort _ _
  have hdistinct := (hperm.pairwise_iff fun h => Ne.symm h).mpr (collectByValue_distinct is)
  have hsorted : (sortByValue (collectByValue is)).Pairwise fun a b => a.value ≤ b.value :=
    List.pairwise_insertionSort _ _
  exact hsorted.imp₂ (fun a b hle hne => Nat.lt_of_le_of_ne hle hne) hdistinct

theorem mem_sortByValue {is : List OwnedInterrupt} {i : OwnedInterrupt} :
    i ∈ sortByValue (collectByValue is) ↔ retainedFor is i.value = some i := by
  rw [sortByValue, (List.perm_insertionSort _ _).mem_iff, mem_collectByValue]

/-- The order in which the map hands out its entries does not matter. -/
theorem sortByValue_perm {is js : List OwnedInterrupt} (hperm : js.Perm (collectByValue is)) :
    sortByValue js = sortByValue (collectByValue is) := by
  have hperm' : (sortByValue js).Perm (sortByValue (collectByValue is)) :=
    (List.perm_insertionSort _ _).trans (hperm.trans (List.perm_insertionSort _ _).symm)
  have hsorted : (sortByValue js).Pairwise fun a b => a.value ≤ b.value :=
    List.pairwise_insertionSort _ _
  have hdistinct := (hperm'.pairwise_iff fun h => Ne.symm h).mpr
    ((sortByValue_sorted is).imp fun h => Nat.ne_of_lt h)
  have hstrict := hsorted.imp₂ (fun a b hle hne => Nat.lt_of_le_of_ne hle hne) hdistinct
  refine hperm'.eq_of_pairwise ?_ hstrict (sortByValue_sorted is)
  intro a b _ _ hab hba
  exact absurd hab (Nat.lt_asymm hba)

/-! ## The compiled table -/

section Table

variable {crates : Crates} {config : DeviceConfig}

/-- The entry of an interrupt for the enabled features `F`. -/
def OwnedInterrupt.vector (crates : Crates) (config : DeviceConfig) (F : String → Bool)
    (i : OwnedInterrupt) : Vector :=
  if (i.features crates config).all F then .handler (i.ident crates config) else .reserved

/-- The entry for a value: that of the interrupt retained for it. -/
def vectorFor (crates : Crates) (config : DeviceConfig) (F : String → Bool)
    (is : List OwnedInterrupt) (k : Nat) : Vector :=
  match retainedFor is k with
  | some i => i.vector crates config F
  | none => .reserved

theorem compile_entries (F : String → Bool) (i : OwnedInterrupt) :
    compile F (i.entries crates config) = [i.vector crates config F] := by
  unfold OwnedInterrupt.entries OwnedInterrupt.vector
  by_cases hfs : i.features crates config = []
  · simpa [hfs] using compile_ungated F 1 (Vector.handler (i.ident crates config))
  · simp [hfs, compile_complementary]

theorem fillReserved_eq (code : InterruptCode) (gap : Nat) :
    fillReserved code gap = { code with
      elements := code.elements ++ List.replicate gap ⟨[], .reserved⟩
      pos := code.pos + gap } := by
  induction gap generalizing code with
  | zero => simp [fillReserved]
  | succ gap ih => simp [fillReserved, ih, List.replicate_succ]; omega

/-- What a round appends, from any position. -/
theorem emitInterrupt_appends {code code' : InterruptCode} {i : OwnedInterrupt}
    (hround : emitInterrupt crates config code i = .ok code') :
    code'.elements = code.elements ++ List.replicate (i.value - code.pos) ⟨[], .reserved⟩ ++
        i.entries crates config ∧
      code'.names = code.names ++
        [⟨CfgAttributes.features (i.features crates config), i.ident crates config⟩] ∧
      code'.variants = code.variants ++
        [⟨CfgAttributes.features (i.features crates config),
          ⟨i.description, i.ident crates config, i.value⟩⟩] ∧
      code'.fromArms = code.fromArms ++
        [⟨CfgAttributes.features (i.features crates config),
          (i.value, i.ident crates config)⟩] := by
  obtain ⟨pos, -, hround⟩ := gen_bind_ok.mp hround
  obtain ⟨-, hround⟩ := ident_bind_ok.mp hround
  rw [← gen_pure_ok.mp hround, fillReserved_eq]
  exact ⟨rfl, rfl, rfl, rfl⟩

/-- One round, from a position at or before the value. -/
theorem emitInterrupt_ok {code code' : InterruptCode} {i : OwnedInterrupt}
    (hpos : code.pos ≤ i.value) :
    emitInterrupt crates config code i = .ok code' ↔
      (i.value < u32Max ∧ isIdent crates (i.ident crates config) = true) ∧ code' = {
      pos := i.value + 1
      elements := code.elements ++ List.replicate (i.value - code.pos) ⟨[], .reserved⟩ ++
        i.entries crates config
      names := code.names ++
        [⟨CfgAttributes.features (i.features crates config), i.ident crates config⟩]
      variants := code.variants ++
        [⟨CfgAttributes.features (i.features crates config),
          ⟨i.description, i.ident crates config, i.value⟩⟩]
      fromArms := code.fromArms ++
        [⟨CfgAttributes.features (i.features crates config), (i.value, i.ident crates config)⟩] } := by
  have hvalue : code.pos + (i.value - code.pos) = i.value := by omega
  simp only [emitInterrupt, fillReserved_eq, gen_bind_ok, gen_pure_ok, addU32_ok, ident_ok, hvalue]
  constructor
  · intro h
    obtain ⟨pos, ⟨hle, rfl⟩, name, ⟨hident, rfl⟩, rfl⟩ := h
    exact ⟨⟨hle, hident⟩, rfl⟩
  · intro h
    obtain ⟨⟨hlt, hident⟩, rfl⟩ := h
    exact ⟨_, ⟨hlt, rfl⟩, _, ⟨hident, rfl⟩, rfl⟩

/-- What the loop has built from the interrupts read so far. -/
structure TableInv (crates : Crates) (config : DeviceConfig) (F : String → Bool)
    (is : List OwnedInterrupt) (code : InterruptCode) : Prop where
  pos_eq : code.pos = tableLength is
  elements_eq : compile F code.elements =
    (List.range code.pos).map (vectorFor crates config F is)
  variants_eq : code.variants = is.map fun i =>
    ⟨CfgAttributes.features (i.features crates config),
      ⟨i.description, i.ident crates config, i.value⟩⟩

/-- A round with a larger value extends the table. -/
theorem TableInv.emit {F : String → Bool} {is : List OwnedInterrupt} {code code' : InterruptCode}
    {i : OwnedInterrupt} (hinv : TableInv crates config F is code)
    (hlt : ∀ j ∈ is, j.value < i.value)
    (hround : emitInterrupt crates config code i = .ok code') :
    TableInv crates config F (is ++ [i]) code' := by
  have hpos : code.pos ≤ i.value := by
    rw [hinv.pos_eq]
    exact tableLength_le_iff.mpr hlt
  obtain ⟨-, rfl⟩ := (emitInterrupt_ok hpos).mp hround
  -- below the position nothing changes, up to the value nothing is retained
  have hbefore : ∀ k < code.pos, vectorFor crates config F is k =
      vectorFor crates config F (is ++ [i]) k := by
    intro k hk
    have hne : i.value ≠ k := by omega
    simp only [vectorFor, retainedFor_append, if_neg hne]
  have hgap : ∀ k, code.pos ≤ k → k < i.value →
      vectorFor crates config F (is ++ [i]) k = .reserved := by
    intro k hk hki
    have hne : i.value ≠ k := by omega
    have hnone : retainedFor is k = none := by
      cases h : retainedFor is k with
      | none => rfl
      | some j =>
          obtain ⟨hj, rfl⟩ := value_of_retainedFor h
          rw [hinv.pos_eq] at hk
          have := tableLength_le_iff.mp hk j hj
          omega
    simp only [vectorFor, retainedFor_append, if_neg hne, hnone]
  have hlast : vectorFor crates config F (is ++ [i]) i.value = i.vector crates config F := by
    simp only [vectorFor, retainedFor_append, if_pos]
  constructor
  · exact (tableLength_append hlt).symm
  · have hsplit : List.range (i.value + 1) = List.range code.pos ++
        (List.range (i.value - code.pos)).map (code.pos + ·) ++ [i.value] := by
      rw [List.range_succ, ← List.range_add]
      congr 2
      omega
    have hfill : (List.range (i.value - code.pos)).map
        (fun k => vectorFor crates config F (is ++ [i]) (code.pos + k)) =
        List.replicate (i.value - code.pos) .reserved := by
      rw [List.eq_replicate_iff, List.length_map, List.length_range]
      refine ⟨rfl, fun entry hentry => ?_⟩
      obtain ⟨k, hk, rfl⟩ := List.mem_map.mp hentry
      exact hgap _ (Nat.le_add_right _ _) (by have := List.mem_range.mp hk; omega)
    have hold : (List.range code.pos).map (vectorFor crates config F is) =
        (List.range code.pos).map (vectorFor crates config F (is ++ [i])) :=
      List.map_congr_left fun k hk => hbefore k (List.mem_range.mp hk)
    simp only [compile_append, compile_ungated, compile_entries, hinv.elements_eq, hsplit,
      List.map_append, List.map_map, Function.comp_def, hfill, hold, List.map_cons, List.map_nil,
      hlast]
  · simp [hinv.variants_eq]

/-- **Loop.**  Over increasing values the loop builds the table.  The values increase because
the map has one entry for each and is sorted, so that each round starts at or before its
value. -/
theorem tableInv_run {F : String → Bool} {is : List OwnedInterrupt} {code : InterruptCode}
    (hsorted : is.Pairwise fun a b => a.value < b.value)
    (hrun : is.foldlM (emitInterrupt crates config) .start = .ok code) :
    TableInv crates config F is code := by
  induction is using List.reverseRecOn generalizing code with
  | nil =>
      obtain rfl := Except.ok.inj hrun
      exact ⟨rfl, rfl, rfl⟩
  | append_singleton is i ih =>
      obtain ⟨before, hbefore, hround⟩ := foldlM_concat_ok.mp hrun
      obtain ⟨hsorted, -, hlt⟩ := List.pairwise_append.mp hsorted
      exact (ih hsorted hbefore).emit (fun j hj => hlt j hj i List.mem_cons_self) hround

/-- The loop returns when every position after a value fits in `u32` and every name makes an
identifier. -/
theorem exists_table_iff {is : List OwnedInterrupt}
    (hsorted : is.Pairwise fun a b => a.value < b.value) :
    (∃ code, is.foldlM (emitInterrupt crates config) .start = .ok code) ↔
      ∀ i ∈ is, i.value < u32Max ∧ isIdent crates (i.ident crates config) = true := by
  induction is using List.reverseRecOn with
  | nil => exact iff_of_true ⟨_, rfl⟩ (fun i hi => nomatch hi)
  | append_singleton is i ih =>
      obtain ⟨hsorted, -, hlt⟩ := List.pairwise_append.mp hsorted
      have hpos : ∀ {code}, is.foldlM (emitInterrupt crates config) .start = .ok code →
          code.pos ≤ i.value := by
        intro code hrun
        rw [(tableInv_run (F := fun _ => true) hsorted hrun).pos_eq]
        exact tableLength_le_iff.mpr fun j hj => hlt j hj i List.mem_cons_self
      constructor
      · intro h j hj
        obtain ⟨code, hrun⟩ := h
        obtain ⟨before, hbefore, hround⟩ := foldlM_concat_ok.mp hrun
        rcases List.mem_append.mp hj with hj | hj
        · exact (ih hsorted).mp ⟨before, hbefore⟩ j hj
        · obtain rfl := List.mem_singleton.mp hj
          exact ((emitInterrupt_ok (hpos hbefore)).mp hround).1
      · intro hall
        obtain ⟨before, hbefore⟩ := (ih hsorted).mpr fun j hj => hall j (by simp [hj])
        have hround := (@emitInterrupt_ok crates config _ _ _ (hpos hbefore)).mpr ⟨hall i (by simp), rfl⟩
        exact ⟨_, foldlM_concat_ok.mpr ⟨before, hbefore, hround⟩⟩

/-- Sorted by value the map retains what the list retains. -/
theorem retainedFor_sorted (is : List OwnedInterrupt) (k : Nat) :
    retainedFor (sortByValue (collectByValue is)) k = retainedFor is k := by
  apply Option.ext
  intro i
  constructor
  · intro h
    obtain ⟨hi, rfl⟩ := value_of_retainedFor h
    exact mem_sortByValue.mp hi
  · intro h
    obtain ⟨-, rfl⟩ := value_of_retainedFor h
    exact retainedFor_of_sorted (sortByValue_sorted is) (mem_sortByValue.mpr h)

theorem tableLength_sorted (is : List OwnedInterrupt) :
    tableLength (sortByValue (collectByValue is)) = tableLength is := by
  apply Nat.le_antisymm
  · rw [tableLength_le_iff]
    intro i hi
    obtain ⟨hmem, -⟩ := value_of_retainedFor (mem_sortByValue.mp hi)
    exact tableLength_le_iff.mp (Nat.le_refl _) i hmem
  · rw [tableLength_le_iff]
    intro i hi
    obtain ⟨j, hj⟩ := exists_retainedFor hi
    obtain ⟨-, hvalue⟩ := value_of_retainedFor hj
    rw [← hvalue] at hj ⊢
    exact tableLength_le_iff.mp (Nat.le_refl _) j (mem_sortByValue.mpr hj)

/-! ## The emitted module -/

/-- The name of a peripheral, or of the first element of an array. -/
def firstName (crates : Crates) (p : Peripheral) : String :=
  match p with
  | .single info => info.name
  | .array info dim => ((crates.names info.name dim).head?).getD ""

/-- All interrupts the peripherals list, in their order. -/
def listedInterrupts (crates : Crates) (peripherals : List Peripheral) : List OwnedInterrupt :=
  peripherals.flatMap fun p =>
    p.info.interrupt.map fun i => ⟨i, p.info.groupName, firstName crates p⟩

/-- An array without elements lists no interrupt. -/
def OwnersNamed (peripherals : List Peripheral) : Prop :=
  ∀ p ∈ peripherals, p.info.interrupt ≠ [] → ∀ dim ∈ p.dim, 0 < dim.dim

/-- What the module is, compiled for the features `F`: a table with one entry for each
value up to the largest, and a variant for each handler in it. -/
structure InterruptModule.CompilesTo (crates : Crates) (config : DeviceConfig) (F : String → Bool)
    (is : List OwnedInterrupt) (code : InterruptModule) : Prop where
  numOfInterrupts_eq : code.numOfInterrupts = tableLength is
  table_eq : ∀ table ∈ code.table,
    compile F table.item = (List.range (tableLength is)).map (vectorFor crates config F is)
  variant_iff : ∀ k name, (∃ v ∈ compile F (code.enum.getD []), v.value = k ∧ v.name = name) ↔
    vectorFor crates config F is k = .handler name

/-- A loop whose rounds all return. -/
theorem mapM_ok_eq {α β : Type} (f : α → β) (as : List α) :
    as.mapM (fun a => (.ok (f a) : Gen β)) = .ok (as.map f) := by
  induction as with
  | nil => rfl
  | cons a as ih => rw [List.mapM_cons, ih]; rfl

/-- The interrupts of a peripheral can be collected unless they need the name of a
first element that does not exist. -/
theorem ownedInterrupts_ok {p : Peripheral} {is : List OwnedInterrupt} :
    ownedInterrupts crates p = .ok is ↔
      (p.info.interrupt ≠ [] → ∀ dim ∈ p.dim, 0 < dim.dim) ∧
      is = p.info.interrupt.map fun i => ⟨i, p.info.groupName, firstName crates p⟩ := by
  cases p with
  | single info =>
      have hrun : ownedInterrupts crates (.single info) = .ok (info.interrupt.map fun i =>
          ⟨i, info.groupName, info.name⟩) := mapM_ok_eq _ _
      rw [hrun, Except.ok.injEq, eq_comm]
      simp [MaybeArray.dim, firstName]
  | array info dim =>
      have hlength := crates.names_length info.name dim
      simp only [ownedInterrupts, MaybeArray.info_array, MaybeArray.dim, Option.mem_some_iff,
        forall_eq']
      cases hnames : crates.names info.name dim with
      | cons name rest =>
          have hpos : 0 < dim.dim := by rw [← hlength, hnames]; exact Nat.succ_pos _
          have hrun : info.interrupt.mapM (fun i => do
              let name ← unwrap (name :: rest).head?
              return OwnedInterrupt.mk i info.groupName name) = .ok (info.interrupt.map fun i =>
                ⟨i, info.groupName, name⟩) := mapM_ok_eq _ _
          rw [hrun, Except.ok.injEq, eq_comm]
          simp [hpos, firstName, hnames]
      | nil =>
          have hzero : dim.dim = 0 := by rw [← hlength, hnames]; rfl
          cases hinterrupts : info.interrupt with
          | nil =>
              rw [List.mapM_nil, gen_pure_ok]
              simp [eq_comm]
          | cons i rest =>
              rw [List.mapM_cons]
              simp [gen_bind_ok, unwrap_ok, hzero]

/-- Collecting the interrupts of all peripherals. -/
theorem ownedInterrupts_all {peripherals : List Peripheral} {owned : List (List OwnedInterrupt)} :
    peripherals.mapM (ownedInterrupts crates) = .ok owned ↔ OwnersNamed peripherals ∧
      owned = peripherals.map fun p =>
        p.info.interrupt.map fun i => ⟨i, p.info.groupName, firstName crates p⟩ := by
  induction peripherals generalizing owned with
  | nil =>
      rw [List.mapM_nil, gen_pure_ok, eq_comm]
      simp [OwnersNamed]
  | cons p rest ih =>
      simp only [List.mapM_cons, gen_bind_ok, gen_pure_ok, ih, ownedInterrupts_ok]
      constructor
      · intro h
        obtain ⟨is, ⟨hp, rfl⟩, owned, ⟨hrest, rfl⟩, rfl⟩ := h
        exact ⟨List.forall_mem_cons.mpr ⟨hp, hrest⟩, rfl⟩
      · intro h
        obtain ⟨hnamed, rfl⟩ := h
        obtain ⟨hp, hrest⟩ := List.forall_mem_cons.mp hnamed
        exact ⟨_, ⟨hp, rfl⟩, _, ⟨hrest, rfl⟩, rfl⟩

/-- The loop of a rendering that returns. -/
theorem renderInterrupts_ok {target : Target} {peripherals : List Peripheral}
    {code : InterruptModule} :
    renderInterrupts crates config target peripherals = .ok code ↔ OwnersNamed peripherals ∧
      ∃ built, (sortByValue (collectByValue (listedInterrupts crates peripherals))).foldlM
        (emitInterrupt crates config) .start = .ok built ∧ code =
        { provides := if target.hasTable then
            built.names.map fun g => "PROVIDE(" ++ g.item ++ " = DefaultHandler);" else []
          externs := if target.hasTable then
            built.names.map fun g => ⟨[.feature "rt"] ++ g.cfg, g.item⟩ else []
          numOfInterrupts := built.pos
          table := if target.hasTable then some ⟨[.feature "rt"], built.elements⟩ else none
          enum := if target.enumInRoot ||
              !(sortByValue (collectByValue (listedInterrupts crates peripherals))).isEmpty then
            some built.variants else none
          fromArms := if target = .msp430 then [] else built.fromArms } := by
  simp only [renderInterrupts, gen_bind_ok, gen_pure_ok, ownedInterrupts_all]
  constructor
  · intro h
    obtain ⟨owned, ⟨hnamed, rfl⟩, built, hrun, rfl⟩ := h
    exact ⟨hnamed, built, hrun, rfl⟩
  · intro h
    obtain ⟨hnamed, built, hrun, rfl⟩ := h
    exact ⟨_, ⟨hnamed, rfl⟩, built, hrun, rfl⟩

/-- The variants of the interrupts retained, for the enabled features. -/
theorem mem_compile_variants {F : String → Bool} {is : List OwnedInterrupt} {k : Nat}
    {name : String} :
    (∃ v ∈ compile F (is.map fun i => (⟨CfgAttributes.features (i.features crates config),
        ⟨i.description, i.ident crates config, i.value⟩⟩ : GatedItem InterruptVariant)),
      v.value = k ∧ v.name = name) ↔
      ∃ i ∈ is, i.value = k ∧ i.vector crates config F = .handler name := by
  constructor
  · intro h
    obtain ⟨v, hv, hvalue, hname⟩ := h
    obtain ⟨g, hg, hpresent, rfl⟩ := mem_compile.mp hv
    obtain ⟨i, hi, rfl⟩ := List.mem_map.mp hg
    rw [present_features] at hpresent
    refine ⟨i, hi, hvalue, ?_⟩
    rw [OwnedInterrupt.vector, if_pos hpresent, ← hname]
  · intro h
    obtain ⟨i, hi, hvalue, hvector⟩ := h
    unfold OwnedInterrupt.vector at hvector
    split at hvector
    · rename_i hall
      refine ⟨_, mem_compile.mpr ⟨_, List.mem_map_of_mem hi, ?_, rfl⟩, hvalue,
        Vector.handler.inj hvector⟩
      rw [present_features, hall]
    · cases hvector

/-- The entry for a value is a handler if the interrupt retained for it is there. -/
theorem vectorFor_eq_handler {F : String → Bool} {is : List OwnedInterrupt} {k : Nat}
    {name : String} : vectorFor crates config F is k = .handler name ↔
      ∃ i, retainedFor is k = some i ∧ i.vector crates config F = .handler name := by
  unfold vectorFor
  cases retainedFor is k with
  | none => simp
  | some i => simp

/-- The names of the interrupts that are retained for a value make identifiers. -/
def RetainedIdents (crates : Crates) (config : DeviceConfig) (is : List OwnedInterrupt) : Prop :=
  ∀ i ∈ is, retainedFor is i.value = some i → isIdent crates (i.ident crates config) = true

instance (crates : Crates) (config : DeviceConfig) (is : List OwnedInterrupt) :
    Decidable (RetainedIdents crates config is) :=
  inferInstanceAs (Decidable (∀ i ∈ is, _ → _))

/-- Rendering returns unless an array without elements lists an interrupt, a value has no
position after it or a name that is rendered is no identifier. -/
theorem exists_renderInterrupts_iff {target : Target} {peripherals : List Peripheral} :
    (∃ code, renderInterrupts crates config target peripherals = .ok code) ↔
      OwnersNamed peripherals ∧ (∀ i ∈ listedInterrupts crates peripherals, i.value < u32Max) ∧
        RetainedIdents crates config (listedInterrupts crates peripherals) := by
  have hsorted := sortByValue_sorted (listedInterrupts crates peripherals)
  have hfits : (∀ i ∈ sortByValue (collectByValue (listedInterrupts crates peripherals)),
      i.value < u32Max) ↔ ∀ i ∈ listedInterrupts crates peripherals, i.value < u32Max := by
    rw [← tableLength_le_iff, ← tableLength_le_iff, tableLength_sorted]
  -- the loop sees the retained interrupts only
  have hidents : (∀ i ∈ sortByValue (collectByValue (listedInterrupts crates peripherals)),
      isIdent crates (i.ident crates config) = true) ↔
      RetainedIdents crates config (listedInterrupts crates peripherals) :=
    forall_congr' fun i => by
      rw [mem_sortByValue]
      exact ⟨fun h _ hkept => h hkept, fun h hkept => h (value_of_retainedFor hkept).1 hkept⟩
  rw [← hfits, ← hidents, ← forall₂_and, ← @exists_table_iff crates config _ hsorted]
  constructor
  · intro h
    obtain ⟨code, hcode⟩ := h
    obtain ⟨hnamed, built, hrun, -⟩ := renderInterrupts_ok.mp hcode
    exact ⟨hnamed, built, hrun⟩
  · intro h
    obtain ⟨hnamed, built, hrun⟩ := h
    exact ⟨_, renderInterrupts_ok.mpr ⟨hnamed, built, hrun, rfl⟩⟩

/-- What is rendered compiles to the table and to a variant for each handler in it. -/
theorem renderInterrupts_compiles {target : Target} {peripherals : List Peripheral}
    {code : InterruptModule} (hcode : renderInterrupts crates config target peripherals = .ok code) :
    code.table.isSome = target.hasTable ∧
      ∀ F, code.CompilesTo crates config F (listedInterrupts crates peripherals) := by
  have hsorted := sortByValue_sorted (listedInterrupts crates peripherals)
  obtain ⟨-, built, hrun, rfl⟩ := renderInterrupts_ok.mp hcode
  constructor
  · cases htable : target.hasTable <;> rfl
  intro F
  have hinv : TableInv crates config F _ built := tableInv_run hsorted hrun
  constructor
  · rw [← tableLength_sorted]
    exact hinv.pos_eq
  · intro table htable
    obtain ⟨-, rfl⟩ : target.hasTable = true ∧
        (⟨[.feature "rt"], built.elements⟩ : GatedItem (List (GatedItem Vector))) = table := by
      simpa using htable
    rw [hinv.elements_eq, hinv.pos_eq, tableLength_sorted]
    refine List.map_congr_left fun k _ => ?_
    unfold vectorFor
    rw [retainedFor_sorted]
  · intro k name
    -- the module that is left out has no variants
    have henum : (if target.enumInRoot ||
        !(sortByValue (collectByValue (listedInterrupts crates peripherals))).isEmpty then
        some built.variants else none).getD [] = built.variants := by
      split
      · rfl
      · rename_i hcond
        obtain ⟨-, hempty⟩ : _ ∧ sortByValue (collectByValue
            (listedInterrupts crates peripherals)) = [] := by
          simpa using hcond
        rw [hinv.variants_eq, hempty]
        rfl
    rw [henum, hinv.variants_eq, mem_compile_variants, vectorFor_eq_handler,
      ← retainedFor_sorted]
    constructor
    · intro h
      obtain ⟨i, hi, rfl, hvector⟩ := h
      exact ⟨i, retainedFor_of_sorted hsorted hi, hvector⟩
    · intro h
      obtain ⟨i, hi, hvector⟩ := h
      obtain ⟨hmem, hvalue⟩ := value_of_retainedFor hi
      exact ⟨i, hmem, hvalue, hvector⟩

/-- **Interrupt table.**  Rendering returns unless an array without elements lists an
interrupt, a value has no position after it or the name of a retained interrupt is no
identifier.  What it returns is, for all enabled
features, a table with an entry for each value up to the largest: the handler of the
interrupt retained for the value where its features hold, reserved elsewhere; and a
variant with the same name for each handler. -/
theorem interruptTable_compiled (crates : Crates) (config : DeviceConfig) (target : Target)
    (peripherals : List Peripheral) :
    ((∃ code, renderInterrupts crates config target peripherals = .ok code) ↔
      OwnersNamed peripherals ∧ (∀ i ∈ listedInterrupts crates peripherals, i.value < u32Max) ∧
        RetainedIdents crates config (listedInterrupts crates peripherals)) ∧
    ∀ code, renderInterrupts crates config target peripherals = .ok code →
      code.table.isSome = target.hasTable ∧
      ∀ F, code.CompilesTo crates config F (listedInterrupts crates peripherals) :=
  ⟨exists_renderInterrupts_iff, fun _ hcode => renderInterrupts_compiles hcode⟩

end Table

/-- A timer with the vectors 4 and 1, and two serial ports that share the vector 4. -/
def sharedVectors : List Peripheral :=
  [.single { plainPeripheral "TIM1" with
      groupName := some "TIM", interrupt := [⟨"TIM1_UP", none, 4⟩, ⟨"TIM1_CC", none, 1⟩] },
    .array { plainPeripheral "UART%s" with interrupt := [⟨"UART", none, 4⟩] } (countedDim 2 0)]

theorem interruptTable_sharedVectors :
    ∃ code, renderInterrupts asciiCrates featureConfig .cortexM sharedVectors = .ok code ∧
      code.numOfInterrupts = 5 ∧ ∀ table ∈ code.table,
        compile (· = "uart0") table.item =
          [.reserved, .reserved, .reserved, .reserved, .handler "UART"] := by
  have h := interruptTable_compiled asciiCrates featureConfig .cortexM sharedVectors
  obtain ⟨code, hcode⟩ := h.1.mpr
    ⟨by simp [OwnersNamed, sharedVectors, MaybeArray.dim, countedDim], by decide, by decide⟩
  have hcompiles := (h.2 code hcode).2 (· = "uart0")
  refine ⟨code, hcode, hcompiles.numOfInterrupts_eq, fun table htable => ?_⟩
  rw [hcompiles.table_eq table htable]
  decide

end Svd2Rust
