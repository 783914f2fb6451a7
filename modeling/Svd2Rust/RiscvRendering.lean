import Svd2Rust.AsciiCrates
import Svd2Rust.InterruptTable
import Svd2Rust.RiscvPeripherals

/-!
# The interrupt module of a RISC-V device

With a settings file, `riscv::render` takes the place of `interrupt::render`: it makes
enumerations of the core interrupts, the exceptions, the priorities and the harts that the
file lists and of the interrupts of the peripherals, the calls for the CLINT and the PLIC,
and a handler for the PLIC.

`externalInterrupts_agree` says that the move to a settings file keeps the interrupts of
the peripherals, number by number.  `riscvReferences_resolve_iff` gives the settings for
which every name in the generated code is defined.
-/

namespace Svd2Rust

open CfgAttributes

/-- `RiscvEnumItem`. -/
structure RiscvEnumItem where
  name : String
  value : Nat
  description : Option String
deriving DecidableEq, Repr

/-- `RiscvEnumItem::description`. -/
def RiscvEnumItem.doc (item : RiscvEnumItem) : String :=
  toString item.value ++ " - " ++ item.description.getD item.name

/-- `RiscvConfig`. -/
structure RiscvFile where
  coreInterrupts : List RiscvEnumItem
  exceptions : List RiscvEnumItem
  priorities : List RiscvEnumItem
  harts : List RiscvEnumItem
  clint : Option RiscvClintConfig
  plic : Option RiscvPlicConfig
  baseIsa : Option String
  mtvecAlign : Option Nat
deriving DecidableEq, Repr

/-- The part that is about the peripherals of the core. -/
def RiscvFile.settings (c : RiscvFile) : RiscvSettings :=
  ⟨c.harts.map fun hart => (hart.name, hart.value), c.clint, c.plic⟩

/-- The code of `riscv::render`, with its lines of `device.x`.  An enumeration that is not
generated is that of the crate `riscv`, or none. -/
structure RiscvModule where
  coreInterrupts : Option (List InterruptVariant)
  exceptions : Option (List InterruptVariant)
  priorities : Option (List InterruptVariant)
  harts : Option (List InterruptVariant)
  externalInterrupts : Option (List InterruptVariant)
  calls : List CodegenCall
  plicHandler : Option PlicHandler
  deviceX : List String

section Render

/-- `TokenStream::from_str(text).unwrap()`, which is taken as the text again. -/
def tokens (lexes : String → Bool) (text : String) : Gen String :=
  if lexes text then return text
  else panicking "called \x60Result::unwrap()\x60 on an \x60Err\x60 value: LexError"

variable (crates : DeviceCrates) (lexes : String → Bool) (config : RiscvDeviceConfig)

/-- An enumeration of what `items` stand for; an empty one is left out. -/
def enumOf {α : Type} (variant : α → InterruptVariant) (items : List α) :
    Gen (Option (List InterruptVariant)) :=
  if items.isEmpty then return none
  else some <$> items.mapM fun item => do
    let name ← tokens lexes (variant item).name
    return { variant item with name := name }

/-- An enumeration of the settings file. -/
def riscvEnum (items : List RiscvEnumItem) : Gen (Option (List InterruptVariant)) :=
  enumOf lexes (fun item => ⟨item.doc, item.name, item.value⟩) items

/-- The entry a map by value gets. -/
def insertByValue (map : List Interrupt) (i : Interrupt) : List Interrupt :=
  map.filter (·.value ≠ i.value) ++ [i]

/-- `external_interrupts`, in the order of their values. -/
def externalInterrupts (peripherals : List Peripheral) : List Interrupt :=
  ((peripherals.flatMap (·.info.interrupt)).foldl insertByValue []).insertionSort
    fun a b => a.value ≤ b.value

def Interrupt.doc (i : Interrupt) : String :=
  toString i.value ++ " - " ++ ((i.description.map respace).map escapeSpecialChars).getD i.name

/-- The enumeration of the interrupts of the peripherals. -/
def externalEnum (interrupts : List Interrupt) : Gen (Option (List InterruptVariant)) :=
  enumOf lexes (fun i => ⟨i.doc, i.name, i.value⟩) interrupts

/-- The PLIC with the names of its handler. -/
def plicTokens (plic : RiscvPlicConfig) : Gen RiscvPlicConfig := do
  let coreInterrupt ← plic.coreInterrupt.mapM (tokens lexes)
  let hartId ← plic.hartId.mapM (tokens lexes)
  return { plic with coreInterrupt := coreInterrupt, hartId := hartId }

def provide (name handler : String) : String := "PROVIDE(" ++ name ++ " = " ++ handler ++ ");"

/-- A part of `device.x`, with its headline. -/
def linkerLines (headline : String) (lines : InterruptVariant → List String)
    (variants : Option (List InterruptVariant)) : List String :=
  match variants with
  | some variants => headline :: variants.flatMap lines
  | none => []

/-- `riscv::render` with a settings file. -/
def renderRiscv (peripherals : List Peripheral) (c : RiscvFile) : Gen RiscvModule := do
  let coreInterrupts ← riscvEnum lexes c.coreInterrupts
  let exceptions ← riscvEnum lexes c.exceptions
  let priorities ← riscvEnum lexes c.priorities
  let harts ← riscvEnum lexes c.harts
  let external ← externalEnum lexes (externalInterrupts peripherals)
  let plic ← c.plic.mapM (plicTokens lexes)
  let (calls, plicHandler) ← renderCore crates config peripherals
    { c.settings with plic := plic }
  return {
    coreInterrupts := coreInterrupts
    exceptions := exceptions
    priorities := priorities
    harts := harts
    externalInterrupts := external
    calls := calls
    plicHandler := plicHandler
    deviceX :=
      linkerLines "/* Core interrupt sources and trap handlers */" (fun v =>
        [provide v.name "DefaultHandler",
          provide ("_start_" ++ v.name ++ "_trap") "_start_DefaultHandler_trap"]) coreInterrupts ++
      linkerLines "/* Exception sources */" (fun v => [provide v.name "ExceptionHandler"])
        exceptions ++
      linkerLines "/* External interrupt sources */" (fun v => [provide v.name "DefaultHandler"])
        external }

end Render

section Parts

variable {crates : DeviceCrates} {lexes : String → Bool} {config : RiscvDeviceConfig}

theorem tokens_ok {text name : String} : tokens lexes text = .ok name ↔ lexes text = true ∧ text = name := by
  unfold tokens
  cases lexes text with
  | false => simp
  | true => simp [gen_pure_ok]

theorem variants_of_mapM {α : Type} {variant : α → InterruptVariant} {items : List α}
    {built : List InterruptVariant}
    (h : (items.mapM fun item => do
      let name ← tokens lexes (variant item).name
      return { variant item with name := name } : Gen (List InterruptVariant)) = .ok built) :
    built = items.map variant := by
  have hrel := gen_mapM_ok.mp h
  clear h
  induction hrel with
  | nil => rfl
  | cons hround _ ih =>
      obtain ⟨name, hname, hround⟩ := gen_bind_ok.mp hround
      obtain ⟨-, rfl⟩ := tokens_ok.mp hname
      obtain rfl := gen_pure_ok.mp hround
      rw [List.map_cons, ih]

/-- An enumeration has a variant for each item. -/
theorem enumOf_ok {α : Type} {variant : α → InterruptVariant} {items : List α}
    {variants : Option (List InterruptVariant)} (h : enumOf lexes variant items = .ok variants) :
    variants = if items.isEmpty then none else some (items.map variant) := by
  unfold enumOf at h
  by_cases hempty : items.isEmpty = true
  · rw [if_pos hempty] at h ⊢
    exact (gen_pure_ok.mp h).symm
  · rw [if_neg hempty] at h ⊢
    obtain ⟨built, hbuilt, rfl⟩ := gen_map_ok.mp h
    rw [variants_of_mapM hbuilt]

/-- An enumeration without items has no lines either. -/
theorem linkerLines_eq_nil {α : Type} {variant : α → InterruptVariant} {items : List α}
    {variants : Option (List InterruptVariant)} {headline : String}
    {lines : InterruptVariant → List String} (h : enumOf lexes variant items = .ok variants) :
    linkerLines headline lines variants = [] ↔ items = [] := by
  rw [enumOf_ok h]
  cases items <;> simp [linkerLines]

theorem plicTokens_ok {plic plic' : RiscvPlicConfig} (h : plicTokens lexes plic = .ok plic') :
    plic' = plic := by
  have hsame : ∀ {text name : Option String}, text.mapM (tokens lexes) = .ok name → name = text := by
    intro text name h
    cases text with
    | none => exact (gen_pure_ok.mp h).symm
    | some text =>
        obtain ⟨name', hname, h⟩ := gen_bind_ok.mp h
        obtain ⟨-, rfl⟩ := tokens_ok.mp hname
        exact (gen_pure_ok.mp h).symm
  obtain ⟨coreInterrupt, hcore, h⟩ := gen_bind_ok.mp h
  obtain ⟨hartId, hhart, h⟩ := gen_bind_ok.mp h
  obtain rfl := gen_pure_ok.mp h
  rw [hsame hcore, hsame hhart]

/-- The parts of the code. -/
theorem renderRiscv_ok {peripherals : List Peripheral} {c : RiscvFile} {m : RiscvModule}
    (h : renderRiscv crates lexes config peripherals c = .ok m) :
    enumOf lexes (fun item => ⟨item.doc, item.name, item.value⟩) c.coreInterrupts =
        .ok m.coreInterrupts ∧
      enumOf lexes (fun item => ⟨item.doc, item.name, item.value⟩) c.harts = .ok m.harts ∧
      enumOf lexes (fun i => ⟨i.doc, i.name, i.value⟩) (externalInterrupts peripherals) =
        .ok m.externalInterrupts ∧
      renderCore crates config peripherals c.settings = .ok (m.calls, m.plicHandler) ∧
      (m.deviceX = [] ↔
        (c.coreInterrupts = [] ∧ c.exceptions = []) ∧ externalInterrupts peripherals = []) := by
  obtain ⟨coreInterrupts, hcore, h⟩ := gen_bind_ok.mp h
  obtain ⟨exceptions, hexceptions, h⟩ := gen_bind_ok.mp h
  obtain ⟨priorities, -, h⟩ := gen_bind_ok.mp h
  obtain ⟨harts, hharts, h⟩ := gen_bind_ok.mp h
  obtain ⟨external, hexternal, h⟩ := gen_bind_ok.mp h
  obtain ⟨plic, hplic, h⟩ := gen_bind_ok.mp h
  obtain ⟨⟨calls, plicHandler⟩, hcalls, h⟩ := gen_bind_ok.mp h
  obtain rfl := gen_pure_ok.mp h
  obtain rfl : c.plic = plic := by
    cases hc : c.plic with
    | none =>
        rw [hc] at hplic
        exact gen_pure_ok.mp hplic
    | some p =>
        rw [hc] at hplic
        obtain ⟨p', hp', hplic⟩ := gen_bind_ok.mp hplic
        rw [← gen_pure_ok.mp hplic, plicTokens_ok hp']
  refine ⟨hcore, hharts, hexternal, hcalls, ?_⟩
  rw [List.append_eq_nil_iff, List.append_eq_nil_iff, linkerLines_eq_nil hcore,
    linkerLines_eq_nil hexceptions, linkerLines_eq_nil hexternal]

end Parts

/-! ## The interrupts of the peripherals -/

section External

variable {crates : DeviceCrates} {lexes : String → Bool} {config : RiscvDeviceConfig}

/-- The map of the legacy path has the same interrupts. -/
theorem collectByValue_interrupts (is : List OwnedInterrupt) :
    (collectByValue is).map (·.interrupt) = (is.map (·.interrupt)).foldl insertByValue [] := by
  induction is using List.reverseRecOn with
  | nil => rfl
  | append_singleton is i ih =>
      have hcollect : collectByValue (is ++ [i]) = insertInterrupt (collectByValue is) i := by
        simp [collectByValue]
      rw [hcollect, List.map_append, List.foldl_append, ← ih]
      simp only [insertInterrupt, List.map_append, List.map_cons, List.map_nil, List.foldl_cons,
        List.foldl_nil, insertByValue, List.filter_map]
      rfl

theorem listedInterrupts_interrupts (peripherals : List Peripheral) :
    (listedInterrupts crates.toCrates peripherals).map (·.interrupt) =
      peripherals.flatMap (·.info.interrupt) := by
  simp [listedInterrupts, List.map_flatMap, Function.comp_def]

/-- Both paths go through the same interrupts. -/
theorem retained_interrupts (peripherals : List Peripheral) :
    (sortByValue (collectByValue (listedInterrupts crates.toCrates peripherals))).map (·.interrupt) =
      externalInterrupts peripherals := by
  rw [externalInterrupts, ← @listedInterrupts_interrupts crates, ← collectByValue_interrupts,
    sortByValue]
  exact List.map_insertionSort _ (fun a b : Interrupt => a.value ≤ b.value)
    OwnedInterrupt.interrupt _ fun _ _ _ _ => Iff.rfl

/-- **Migration.**  With a settings file the interrupts of the peripherals get the variants
they have without one, with the same numbers and documentation and with the names that the
formats had not been applied to.  Both renderings collect the interrupts in a map by value,
where a later one replaces an earlier one, and go through it in the order of the values. -/
theorem externalInterrupts_agree {peripherals : List Peripheral} {c : RiscvFile} {m : RiscvModule}
    {legacy : InterruptModule} (h : renderRiscv crates lexes config peripherals c = .ok m)
    (hlegacy : renderInterrupts crates.toCrates config.toDeviceConfig .riscv peripherals =
      .ok legacy) :
    legacy.enum.map (·.map (·.item)) = m.externalInterrupts.map (·.map fun v =>
      { v with name := identText crates.toCrates config.toConfig v.name .interrupt }) := by
  obtain ⟨-, -, hexternal, -, -⟩ := renderRiscv_ok h
  obtain ⟨-, built, hrun, rfl⟩ := renderInterrupts_ok.mp hlegacy
  have hsorted := sortByValue_sorted (listedInterrupts crates.toCrates peripherals)
  have hinv := @tableInv_run crates.toCrates config.toDeviceConfig (fun _ => true) _ _ hsorted hrun
  rw [enumOf_ok hexternal, ← @retained_interrupts crates, hinv.variants_eq, List.isEmpty_map]
  cases (sortByValue (collectByValue (listedInterrupts crates.toCrates peripherals))).isEmpty with
  | true => rfl
  | false =>
      simp only [Target.enumInRoot, Bool.not_false, Bool.or_true, if_true, Bool.false_eq_true,
        if_false, Option.map_some, List.map_map, Function.comp_def]
      rfl

end External

/-- A PLIC and two peripherals; two interrupts have one number. -/
def plicPeripherals : List Peripheral :=
  [.single { plainPeripheral "PLIC" with baseAddress := 0xC000000 },
    .single { plainPeripheral "UART0" with interrupt := [⟨"UART0", none, 3⟩, ⟨"UART0_RX", none, 3⟩] },
    .single { plainPeripheral "GPIO" with interrupt := [⟨"GPIO", some "Pins", 1⟩] }]

/-- Settings with a handler on the one hart. -/
def plicFile : RiscvFile where
  coreInterrupts := []
  exceptions := []
  priorities := []
  harts := [⟨"H0", 0, none⟩]
  clint := none
  plic := some ⟨false, "PLIC", some "MachineExternal", some "H0"⟩
  baseIsa := some "RV32I"
  mtvecAlign := none

def plicConfig : RiscvDeviceConfig where
  toDeviceConfig := { defaultDeviceConfig with
    target := .riscv
    riscvConfig := some ⟨none, some "PLIC"⟩ }
  settings := some plicFile.settings
  riscvConfig_eq := rfl

theorem externalInterrupts_agree_plic : ∃ m legacy,
    renderRiscv asciiDeviceCrates (fun _ => true) plicConfig plicPeripherals plicFile = .ok m ∧
      renderInterrupts asciiCrates plicConfig.toDeviceConfig .riscv plicPeripherals = .ok legacy ∧
      legacy.enum.map (·.map (·.item)) = m.externalInterrupts.map (·.map fun v =>
        { v with name := identText asciiCrates plicConfig.toConfig v.name .interrupt }) := by
  have hriscv : renderRiscv asciiDeviceCrates (fun _ => true) plicConfig plicPeripherals plicFile =
    .ok _ := rfl
  have hlegacy : renderInterrupts asciiCrates plicConfig.toDeviceConfig .riscv plicPeripherals =
    .ok _ := rfl
  exact ⟨_, _, hriscv, hlegacy, externalInterrupts_agree hriscv hlegacy⟩

/-! ## Names the code refers to -/

/-- Every name the code refers to is defined, where `standard` are the core interrupts of
the crate `riscv`. -/
structure RiscvModule.Resolves (standard : List String) (m : RiscvModule) : Prop where
  harts : ∀ call ∈ m.calls, ∀ hart ∈ call.harts, ∃ v ∈ m.harts.getD [], (v.name, v.value) = hart
  plic : ∀ handler ∈ m.plicHandler, ∃ call ∈ m.calls,
    call.macroName = "plic_codegen" ∧ call.name = handler.plic
  coreInterrupt : ∀ handler ∈ m.plicHandler,
    handler.coreInterrupt ∈ (m.coreInterrupts.map (·.map (·.name))).getD standard
  ctx : ∀ handler ∈ m.plicHandler, ∀ hartId, handler.ctx = "ctx(Hart::" ++ hartId ++ ")" →
    ∃ v ∈ m.harts.getD [], v.name = hartId
  external : ∀ handler ∈ m.plicHandler, m.externalInterrupts.isSome = true

/-- The core interrupts there are. -/
def RiscvFile.coreNames (c : RiscvFile) (standard : List String) : List String :=
  if c.coreInterrupts.isEmpty then standard else c.coreInterrupts.map (·.name)

/-- A PLIC with a handler is for one of the core interrupts and, if it names a hart, for
one of the harts, and some peripheral has an interrupt to handle. -/
structure RiscvFile.HandlerDefined (c : RiscvFile) (standard : List String)
    (peripherals : List Peripheral) (plic : RiscvPlicConfig) (coreInterrupt : String) : Prop where
  core : coreInterrupt ∈ c.coreNames standard
  hart : ∀ hartId ∈ plic.hartId, hartId ∈ c.harts.map (·.name)
  external : ∃ p ∈ peripherals, p.info.interrupt ≠ []

section References

variable {crates : DeviceCrates} {lexes : String → Bool} {config : RiscvDeviceConfig}

/-- The text of the context in a handler. -/
def plicCtx (hartId : Option String) : String :=
  match hartId with
  | some hartId => "ctx(Hart::" ++ hartId ++ ")"
  | none => "ctx_mhartid()"

theorem plicCtx_eq_iff {hartId : Option String} {id : String} :
    plicCtx hartId = "ctx(Hart::" ++ id ++ ")" ↔ hartId = some id := by
  constructor
  · intro h
    have hchars := congrArg String.toList h
    cases hartId with
    | none => simp [plicCtx] at hchars
    | some hartId =>
        simp only [plicCtx, String.toList_append, List.append_assoc, List.append_cancel_left_eq,
          List.append_cancel_right_eq, String.toList_inj] at hchars
        rw [hchars]
  · intro h
    rw [h, plicCtx]

theorem renderClint_harts {peripherals : List Peripheral} {harts : List (String × Nat)}
    {clint : RiscvClintConfig} {call : CodegenCall}
    (h : renderClint crates config peripherals harts clint = .ok call) : call.harts = harts := by
  obtain ⟨p, -, h⟩ := gen_bind_ok.mp h
  obtain ⟨name, -, h⟩ := gen_bind_ok.mp h
  obtain rfl := gen_pure_ok.mp h
  rfl

theorem renderPlic_parts {peripherals : List Peripheral} {harts : List (String × Nat)}
    {plic : RiscvPlicConfig} {rendered : CodegenCall × Option PlicHandler}
    (h : renderPlic crates config peripherals harts plic = .ok rendered) :
    rendered.1.harts = harts ∧ rendered.1.macroName = "plic_codegen" ∧
      rendered.1.name = identText crates.toCrates config.toConfig plic.name .peripheral ∧
      rendered.2 = plic.coreInterrupt.map fun coreInterrupt =>
        ⟨coreInterrupt, rendered.1.name, plicCtx plic.hartId⟩ := by
  obtain ⟨p, hp, h⟩ := gen_bind_ok.mp h
  obtain ⟨-, h⟩ := ident_bind_ok.mp h
  obtain rfl := gen_pure_ok.mp h
  have hname : p.info.name = plic.name := by simpa using List.find?_some (findPeripheral_ok.mp hp)
  exact ⟨rfl, rfl, by rw [hname], rfl⟩

/-- The calls and the handler. -/
theorem renderCore_parts {peripherals : List Peripheral} {s : RiscvSettings}
    {calls : List CodegenCall} {handler : Option PlicHandler}
    (h : renderCore crates config peripherals s = .ok (calls, handler)) :
    (∀ call ∈ calls, call.harts = s.harts) ∧
      (∀ handler' ∈ handler, ∃ call ∈ calls,
        call.macroName = "plic_codegen" ∧ call.name = handler'.plic) ∧
      handler = s.plic.bind fun plic => plic.coreInterrupt.map fun coreInterrupt =>
        ⟨coreInterrupt, identText crates.toCrates config.toConfig plic.name .peripheral,
          plicCtx plic.hartId⟩ := by
  obtain ⟨clint, hclint, h⟩ := gen_bind_ok.mp h
  obtain ⟨plic, hplic, h⟩ := gen_bind_ok.mp h
  obtain ⟨rfl, rfl⟩ := Prod.mk.inj (gen_pure_ok.mp h)
  have hclintHarts : ∀ call ∈ clint, call.harts = s.harts := by
    intro call hcall
    obtain ⟨_, -, hround⟩ := exists_of_forall₂_mem (gen_mapM_ok.mp hclint) hcall
    exact renderClint_harts hround
  have hrel := gen_mapM_ok.mp hplic
  cases hs : s.plic with
  | none =>
      rw [hs] at hrel
      cases hrel
      exact ⟨by simpa using hclintHarts, by simp, rfl⟩
  | some setting =>
      rw [hs] at hrel
      cases hrel with
      | @cons _ rendered _ _ hround hrest =>
          cases hrest
          obtain ⟨hharts, hmacro, hname, hhandler⟩ := renderPlic_parts hround
          have hfind : [rendered].findSome? (·.2) = rendered.2 := by
            cases h : rendered.2 <;> simp [h]
          rw [hfind, hhandler]
          refine ⟨?_, ?_, ?_⟩
          · intro call hcall
            rcases List.mem_append.mp hcall with hcall | hcall
            · exact hclintHarts call hcall
            · obtain rfl := List.mem_singleton.mp hcall
              exact hharts
          · intro handler' hmem
            obtain ⟨coreInterrupt, -, rfl⟩ := Option.map_eq_some_iff.mp hmem
            exact ⟨rendered.1, List.mem_append_right _ List.mem_cons_self, hmacro, rfl⟩
          · rw [hname]
            rfl

/-- Without interrupts there is nothing to collect. -/
theorem externalInterrupts_ne_nil {peripherals : List Peripheral} :
    externalInterrupts peripherals ≠ [] ↔ ∃ p ∈ peripherals, p.info.interrupt ≠ [] := by
  have hfold : ∀ is : List Interrupt, is.foldl insertByValue [] = [] ↔ is = [] := by
    intro is
    induction is using List.reverseRecOn with
    | nil => simp
    | append_singleton is i _ => simp [insertByValue]
  have hsorted : externalInterrupts peripherals = [] ↔
      peripherals.flatMap (·.info.interrupt) = [] := by
    rw [externalInterrupts, ← List.length_eq_zero_iff, List.length_insertionSort,
      List.length_eq_zero_iff, hfold]
  rw [Ne, hsorted, List.flatMap_eq_nil_iff]
  push Not
  rfl

/-- **References.**  All names are defined exactly if those in the handler of the PLIC are:
nothing checks them against the rest of the settings, and without interrupts there is no
enumeration for the handler to claim from. -/
theorem riscvReferences_resolve_iff {peripherals : List Peripheral} {c : RiscvFile} {m : RiscvModule}
    (h : renderRiscv crates lexes config peripherals c = .ok m) (standard : List String) :
    m.Resolves standard ↔ ∀ plic ∈ c.plic, ∀ coreInterrupt ∈ plic.coreInterrupt,
      c.HandlerDefined standard peripherals plic coreInterrupt := by
  obtain ⟨hcore, hharts, hexternal, hcalls, -⟩ := renderRiscv_ok h
  obtain ⟨hcallHarts, hcallPlic, hhandler⟩ := renderCore_parts hcalls
  have hcoreNames : (m.coreInterrupts.map (·.map (·.name))).getD standard = c.coreNames standard := by
    rw [enumOf_ok hcore, RiscvFile.coreNames]
    cases c.coreInterrupts.isEmpty with
    | true => rfl
    | false => simp
  have hhartVariants : m.harts.getD [] = c.harts.map fun hart => ⟨hart.doc, hart.name, hart.value⟩ := by
    rw [enumOf_ok hharts]
    cases hempty : c.harts.isEmpty with
    | true => simp [List.isEmpty_iff.mp hempty]
    | false => simp
  have hexternalSome : m.externalInterrupts.isSome = true ↔
      ∃ p ∈ peripherals, p.info.interrupt ≠ [] := by
    rw [← externalInterrupts_ne_nil, enumOf_ok hexternal]
    cases externalInterrupts peripherals with
    | nil => simp
    | cons i is => simp
  have hharts : ∀ hartId, (∃ v ∈ m.harts.getD [], v.name = hartId) ↔
      hartId ∈ c.harts.map (·.name) := by
    intro hartId
    simp [hhartVariants]
  constructor
  · intro hresolves plic hplic coreInterrupt hci
    have hmem : (⟨coreInterrupt, identText crates.toCrates config.toConfig plic.name .peripheral,
        plicCtx plic.hartId⟩ : PlicHandler) ∈ m.plicHandler := by
      have hsettings : c.settings.plic = some plic := hplic
      rw [hhandler, hsettings, Option.bind_some, Option.mem_def.mp hci]
      rfl
    refine ⟨hcoreNames ▸ hresolves.coreInterrupt _ hmem, fun hartId hhart => ?_,
      hexternalSome.mp (hresolves.external _ hmem)⟩
    exact (hharts hartId).mp (hresolves.ctx _ hmem hartId (plicCtx_eq_iff.mpr hhart))
  · intro hdefined
    have hof : ∀ handler ∈ m.plicHandler, ∃ plic, handler.ctx = plicCtx plic.hartId ∧
        c.HandlerDefined standard peripherals plic handler.coreInterrupt := by
      intro handler hmem
      rw [hhandler] at hmem
      obtain ⟨plic, hplic, hmem⟩ := Option.bind_eq_some_iff.mp hmem
      obtain ⟨coreInterrupt, hci, rfl⟩ := Option.map_eq_some_iff.mp hmem
      exact ⟨plic, rfl, hdefined plic hplic coreInterrupt hci⟩
    refine ⟨?_, hcallPlic, ?_, ?_, ?_⟩
    · intro call hcall hart hhart
      rw [hcallHarts call hcall] at hhart
      obtain ⟨item, hitem, rfl⟩ := List.mem_map.mp hhart
      exact ⟨_, hhartVariants ▸ List.mem_map_of_mem hitem, rfl⟩
    · intro handler hmem
      obtain ⟨plic, -, hplic⟩ := hof handler hmem
      exact hcoreNames ▸ hplic.core
    · intro handler hmem hartId hctx
      obtain ⟨plic, hplicCtx, hplic⟩ := hof handler hmem
      rw [hplicCtx] at hctx
      exact (hharts hartId).mpr (hplic.hart hartId (plicCtx_eq_iff.mp hctx))
    · intro handler hmem
      obtain ⟨plic, -, hplic⟩ := hof handler hmem
      exact hexternalSome.mpr hplic.external

end References

/-- The handler of the example claims from interrupts there are, on a hart there is. -/
theorem riscvReferences_resolve_plic : ∃ m,
    renderRiscv asciiDeviceCrates (fun _ => true) plicConfig plicPeripherals plicFile = .ok m ∧
      m.Resolves ["SupervisorExternal", "MachineExternal"] := by
  have hriscv : renderRiscv asciiDeviceCrates (fun _ => true) plicConfig plicPeripherals plicFile =
    .ok _ := rfl
  refine ⟨_, hriscv, (riscvReferences_resolve_iff hriscv _).mpr ?_⟩
  intro plic hplic coreInterrupt hcore
  obtain rfl := Option.some.inj hplic
  obtain rfl := Option.some.inj hcore
  exact ⟨by decide +kernel, by decide +kernel, _, List.mem_cons_of_mem _ List.mem_cons_self,
    List.cons_ne_nil _ _⟩

end Svd2Rust
