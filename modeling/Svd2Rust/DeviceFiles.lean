import Svd2Rust.RiscvRendering

/-!
# The files of a device

Besides the crate there are a linker script, which gives every handler a default, and a
build script, which passes it on.  `handlers_link` says that the interrupt table links
whatever features are on: the handlers in it are the functions the crate declares, in the
same order, and the script provides each.

There are two ways to the files, `generate` and the program itself, and each has a test of
its own for whether there are any.  `deviceFiles_agree_iff` is about where the tests differ.
-/

namespace Svd2Rust

open CfgAttributes FallibleRuns

/-! ## Handlers -/

/-- The name of a handler. -/
def Vector.handlerName : Vector → Option String
  | .reserved => none
  | .handler name => some name

/-- The table as it is compiled. -/
def InterruptModule.compiledTable (F : String → Bool) (code : InterruptModule) : List Vector :=
  (compile F code.table.toList).flatMap (compile F)

section Handlers

variable {crates : Crates} {config : DeviceConfig}

/-- The handlers in the entries so far are the names so far. -/
def HandlersNamed (F : String → Bool) (code : InterruptCode) : Prop :=
  (compile F code.elements).filterMap Vector.handlerName = compile F code.names

theorem handlersNamed_emit {F : String → Bool} {code code' : InterruptCode} {i : OwnedInterrupt}
    (h : HandlersNamed F code) (hround : emitInterrupt crates config code i = .ok code') :
    HandlersNamed F code' := by
  obtain ⟨helements, hnames, -, -⟩ := emitInterrupt_appends hround
  have hreserved : ∀ n, (List.replicate n Vector.reserved).filterMap Vector.handlerName = [] := by
    intro n
    simp [List.filterMap_replicate, Vector.handlerName]
  have hvector : [i.vector crates config F].filterMap Vector.handlerName =
      compile F [⟨CfgAttributes.features (i.features crates config), i.ident crates config⟩] := by
    unfold OwnedInterrupt.vector
    cases hall : (i.features crates config).all F with
    | true => simp [Vector.handlerName, compile, hall]
    | false => simp [Vector.handlerName, compile, hall]
  unfold HandlersNamed at h ⊢
  simp only [helements, hnames, compile_append, compile_ungated, compile_entries,
    List.filterMap_append, hreserved, List.append_nil, hvector, h]

/-- What the loop builds for each interrupt: a name and a variant behind the same
attributes. -/
def VariantsNamed (code : InterruptCode) : Prop :=
  code.variants.map (fun g => (⟨g.cfg, g.item.name⟩ : GatedItem String)) = code.names

theorem variantsNamed_emit {code code' : InterruptCode} {i : OwnedInterrupt}
    (h : VariantsNamed code) (hround : emitInterrupt crates config code i = .ok code') :
    VariantsNamed code' := by
  obtain ⟨-, hnames, hvariants, -⟩ := emitInterrupt_appends hround
  unfold VariantsNamed at h ⊢
  simp only [hnames, hvariants, List.map_append, h, List.map_cons, List.map_nil]

/-- **Loop.**  Both hold when it is done.  Each round appends to both sides at once, so the
equations carry over from the entries read so far. -/
theorem named_run {F : String → Bool} {is : List OwnedInterrupt} {code : InterruptCode}
    (hrun : is.foldlM (emitInterrupt crates config) .start = .ok code) :
    HandlersNamed F code ∧ VariantsNamed code := by
  induction is using List.reverseRecOn generalizing code with
  | nil =>
      obtain rfl := Except.ok.inj hrun
      exact ⟨rfl, rfl⟩
  | append_singleton is i ih =>
      obtain ⟨before, hbefore, hround⟩ := foldlM_concat_ok.mp hrun
      obtain ⟨hhandlers, hvariants⟩ := ih hbefore
      exact ⟨handlersNamed_emit hhandlers hround, variantsNamed_emit hvariants hround⟩

/-- **Linking.**  Whatever features are on, the handlers in the compiled table are the
functions that are declared, in the same order, and each has a default in the linker script
and a variant of the enumeration.  One round of the loop appends the handler, its declaration,
its line of the linker script and its variant behind the same attributes. -/
theorem handlers_link {target : Target} {peripherals : List Peripheral} {code : InterruptModule}
    (h : renderInterrupts crates config target peripherals = .ok code) (F : String → Bool) :
    (code.compiledTable F).filterMap Vector.handlerName = compile F code.externs ∧
      ∀ name ∈ compile F code.externs,
        "PROVIDE(" ++ name ++ " = DefaultHandler);" ∈ code.provides ∧
          ∃ v ∈ compile F (code.enum.getD []), v.name = name := by
  obtain ⟨-, built, hrun, rfl⟩ := renderInterrupts_ok.mp h
  obtain ⟨hhandlers, hvariants⟩ := @named_run crates config F _ _ hrun
  cases target.hasTable with
  | false => exact ⟨rfl, List.forall_mem_nil _⟩
  | true =>
      simp only [if_true, InterruptModule.compiledTable, Option.toList_some, compile_feature]
      have htable : compile F [(⟨[.feature "rt"], built.elements⟩ : GatedItem (List (GatedItem Vector)))] =
          if F "rt" then [built.elements] else [] := by
        cases hrt : F "rt" <;> simp [compile, Gated.present, Predicate.holds, hrt]
      rw [htable]
      cases F "rt" with
      | false => exact ⟨rfl, List.forall_mem_nil _⟩
      | true =>
          simp only [if_true, List.flatMap_singleton]
          refine ⟨hhandlers, fun name hname => ?_⟩
          obtain ⟨g, hg, hpresent, rfl⟩ := mem_compile.mp hname
          refine ⟨List.mem_map_of_mem hg, ?_⟩
          have hvariant : g ∈ built.variants.map fun g => (⟨g.cfg, g.item.name⟩ : GatedItem String) :=
            hvariants ▸ hg
          obtain ⟨v, hv, rfl⟩ := List.mem_map.mp hvariant
          -- with a name there is an interrupt, and so an enumeration
          have hsome : (sortByValue (collectByValue (listedInterrupts crates peripherals))).isEmpty =
              false := by
            rw [Bool.eq_false_iff]
            intro hempty
            rw [List.isEmpty_iff.mp hempty] at hrun
            obtain rfl := Except.ok.inj hrun
            cases hv
          rw [hsome, Bool.not_false, Bool.or_true, if_pos rfl]
          exact ⟨v.item, mem_compile.mpr ⟨v, hv, hpresent, rfl⟩, rfl⟩

end Handlers

/-- The features of the serial port and of the run-time support. -/
def serialFeatures (f : String) : Bool := f = "rt" || f = "uart0"

/-- The table that is left for these features links. -/
theorem handlers_link_serial : ∃ code,
    renderInterrupts asciiCrates featureConfig .cortexM plicPeripherals = .ok code ∧
      (code.compiledTable serialFeatures).filterMap Vector.handlerName =
        compile serialFeatures code.externs ∧
      ∀ name ∈ compile serialFeatures code.externs,
        "PROVIDE(" ++ name ++ " = DefaultHandler);" ∈ code.provides ∧
          ∃ v ∈ compile serialFeatures (code.enum.getD []), v.name = name := by
  have hrender : renderInterrupts asciiCrates featureConfig .cortexM plicPeripherals = .ok _ := rfl
  exact ⟨_, hrender, handlers_link hrender serialFeatures⟩

/-! ## Files -/

/-- The lines `RiscvConfig::extra_build` adds to the build script, where `toLowercase` is
that of `str`. -/
def RiscvFile.extraBuild (toLowercase : String → String) (c : RiscvFile) : Option (List String) :=
  let baseIsa := match c.baseIsa with
    | some isa => ["cargo:rustc-env=RISCV_RT_BASE_ISA=" ++ toLowercase isa,
        "cargo:rerun-if-env-changed=RISCV_RT_BASE_ISA"]
    | none => []
  let mtvecAlign := match c.mtvecAlign with
    | some align => ["cargo:rustc-env=RISCV_MTVEC_ALIGN=" ++ toString align,
        "cargo:rerun-if-env-changed=RISCV_MTVEC_ALIGN"]
    | none => []
  let res := baseIsa ++ mtvecAlign
  if res.isEmpty then none else some res

/-- What `util::build_rs` prints for a device with run-time support, besides the search path. -/
def buildRs (toLowercase : String → String) (file : Option RiscvFile) : List String :=
  ["cargo:rerun-if-changed=device.x"] ++ ((file.bind (·.extraBuild toLowercase)).getD []) ++
    ["cargo:rerun-if-changed=build.rs"]

/-- `DeviceSpecific`. -/
structure DeviceSpecific where
  deviceX : String
  buildRs : List String
deriving DecidableEq, Repr

section Files

variable (crates : DeviceCrates) (lexes : String → Bool) (toLowercase : String → String)
  (config : RiscvDeviceConfig)

/-- The lines `device::render` writes to `device_x`. -/
def deviceLines (file : Option RiscvFile) (peripherals : List Peripheral) : Gen (List String) :=
  match config.target, file with
  | .riscv, some c => RiscvModule.deviceX <$> renderRiscv crates lexes config peripherals c
  | target, _ => InterruptModule.provides <$>
      renderInterrupts crates.toCrates config.toDeviceConfig target peripherals

/-- Lines written with `writeln!`. -/
def written (lines : List String) : String := String.join (lines.map (· ++ "\n"))

/-- The files of `generate`. -/
def generateFiles (file : Option RiscvFile) (lines : List String) : Option DeviceSpecific :=
  if (written lines).isEmpty then none
  else some ⟨written lines, buildRs toLowercase file⟩

/-- The files of `run`, which closes the script with one more line break. -/
def runFiles (file : Option RiscvFile) (lines : List String) : Option DeviceSpecific :=
  if config.target ∈ [.cortexM, .msp430, .xtensaLX, .riscv] then
    some ⟨written lines ++ "\n", buildRs toLowercase file⟩
  else none

variable {crates lexes toLowercase config}

/-- Something in the description or in the settings gets a line. -/
def HasLines (config : RiscvDeviceConfig) (file : Option RiscvFile) (peripherals : List Peripheral) :
    Prop :=
  (∃ p ∈ peripherals, p.info.interrupt ≠ []) ∨
    config.target = .riscv ∧ ∃ c ∈ file, c.coreInterrupts ≠ [] ∨ c.exceptions ≠ []

theorem written_isEmpty {lines : List String} : (written lines).isEmpty = true ↔ lines = [] := by
  constructor
  · intro hempty
    cases lines with
    | nil => rfl
    | cons line rest =>
        have hchars := congrArg String.toList (String.isEmpty_iff.mp hempty)
        simp [written] at hchars
  · intro hlines
    rw [hlines]
    rfl

/-- The lines for the interrupts, when a target has a table. -/
theorem provides_eq_nil {target : Target} {peripherals : List Peripheral} {code : InterruptModule}
    (h : renderInterrupts crates.toCrates config.toDeviceConfig target peripherals = .ok code) :
    code.provides = [] ↔ (target.hasTable = true → externalInterrupts peripherals = []) := by
  obtain ⟨-, built, hrun, rfl⟩ := renderInterrupts_ok.mp h
  have hsorted := sortByValue_sorted (listedInterrupts crates.toCrates peripherals)
  have hinv := @tableInv_run _ _ (fun _ => true) _ _ hsorted hrun
  have hnamed := (@named_run _ _ (fun _ => true) _ _ hrun).2
  rw [VariantsNamed, hinv.variants_eq] at hnamed
  rw [← @retained_interrupts crates, List.map_eq_nil_iff, ← hnamed]
  cases target.hasTable with
  | false => simp
  | true => simp

/-- The lines of the script. -/
theorem deviceLines_ne_nil {file : Option RiscvFile} {peripherals : List Peripheral}
    {lines : List String} (h : deviceLines crates lexes config file peripherals = .ok lines) :
    lines ≠ [] ↔ config.target.hasTable = true ∧ HasLines config file peripherals := by
  have hlegacy : ∀ target, (target = .riscv → file = none) → config.target = target →
      (InterruptModule.provides <$> renderInterrupts crates.toCrates config.toDeviceConfig target
        peripherals = .ok lines) →
      (lines ≠ [] ↔ target.hasTable = true ∧ HasLines config file peripherals) := by
    intro target hfile htarget h
    obtain ⟨code, hcode, rfl⟩ := gen_map_ok.mp h
    rw [Ne, provides_eq_nil hcode, HasLines, ← externalInterrupts_ne_nil, htarget]
    have hsettings : ¬ (target = .riscv ∧ ∃ c ∈ file, c.coreInterrupts ≠ [] ∨ c.exceptions ≠ []) := by
      intro hriscv
      obtain ⟨hriscv, c, hc, -⟩ := hriscv
      rw [hfile hriscv] at hc
      cases hc
    rw [or_iff_left hsettings, Classical.not_imp]
  unfold deviceLines at h
  cases htarget : config.target with
  | riscv =>
      cases file with
      | none =>
          rw [htarget] at h
          exact hlegacy .riscv (fun _ => rfl) htarget h
      | some c =>
          rw [htarget] at h
          obtain ⟨m, hm, rfl⟩ := gen_map_ok.mp h
          obtain ⟨-, -, -, -, hnil⟩ := renderRiscv_ok hm
          rw [Ne, hnil, HasLines, ← externalInterrupts_ne_nil, htarget]
          have hsome : (∃ c' ∈ some c, c'.coreInterrupts ≠ [] ∨ c'.exceptions ≠ []) ↔
              (c.coreInterrupts ≠ [] ∨ c.exceptions ≠ []) := by simp
          rw [hsome]
          simp only [Target.hasTable, true_and]
          tauto
  | _ =>
      rw [htarget] at h
      exact hlegacy _ (fun hriscv => by cases hriscv) htarget h

/-- **Two ways to the files.**  `generate` returns what `run` writes, up to the last line
break, unless the target has a table and nothing gets a line: then `generate` leaves out the
build script, too, with all it sets for the target.  `run` writes the two files for a target
with a table whatever is in them, `generate` returns them only if there is a line. -/
theorem deviceFiles_agree_iff {file : Option RiscvFile} {peripherals : List Peripheral}
    {lines : List String} (h : deviceLines crates lexes config file peripherals = .ok lines) :
    (generateFiles toLowercase file lines).map (fun files =>
        { files with deviceX := files.deviceX ++ "\n" }) = runFiles toLowercase config file lines ↔
      (config.target.hasTable = true → HasLines config file peripherals) := by
  have htargets : config.target ∈ [.cortexM, .msp430, .xtensaLX, .riscv] ↔
      config.target.hasTable = true := by
    cases config.target <;> decide
  have hlines := deviceLines_ne_nil h
  unfold generateFiles runFiles
  by_cases hnil : lines = []
  · rw [if_pos (written_isEmpty.mpr hnil), Option.map_none]
    by_cases htable : config.target.hasTable = true
    · rw [if_pos (htargets.mpr htable)]
      constructor
      · intro hagree
        cases hagree
      · intro hhas
        exact absurd hnil (hlines.mpr ⟨htable, hhas htable⟩)
    · rw [if_neg (fun hmem => htable (htargets.mp hmem))]
      exact ⟨fun _ hmem => absurd hmem htable, fun _ => rfl⟩
  · obtain ⟨htable, hhas⟩ := hlines.mp hnil
    rw [if_neg (fun hempty => hnil (written_isEmpty.mp hempty)), if_pos (htargets.mpr htable)]
    exact ⟨fun _ _ => hhas, fun _ => rfl⟩

end Files

/-- The settings of the example and its interrupts get lines, so the two ways agree. -/
theorem deviceFiles_agree_plic : ∃ lines,
    deviceLines asciiDeviceCrates (fun _ => true) plicConfig (some plicFile) plicPeripherals =
        .ok lines ∧
      (generateFiles id (some plicFile) lines).map (fun files =>
        { files with deviceX := files.deviceX ++ "\n" }) =
          runFiles id plicConfig (some plicFile) lines := by
  have hlines : deviceLines asciiDeviceCrates (fun _ => true) plicConfig (some plicFile)
    plicPeripherals = .ok _ := rfl
  exact ⟨_, hlines, (deviceFiles_agree_iff hlines).mpr fun _ =>
    .inl ⟨_, List.mem_cons_of_mem _ List.mem_cons_self, List.cons_ne_nil _ _⟩⟩

end Svd2Rust
